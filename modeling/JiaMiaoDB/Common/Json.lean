import JiaMiaoDB.Types

/-! The JSON values of the legacy files: access, text output and the recursive-descent parser. The
parser is lenient as the source is: a missing closing bracket at the end of the input is no error. -/

set_option autoImplicit false

namespace JiaMiaoDB
open ByteFormat

/-- Object members are sorted by key, each key once. -/
inductive Json where
  | null
  | bool (b : Bool)
  | int (i : Int64)
  | float (d : Binary64)
  | string (s : Str)
  | array (items : List Json)
  | object (members : List (Str × Json))

namespace Json

def isNull : Json → Bool
  | null => true
  | _ => false

def getInt : Json → Except Failure Int64
  | int i => .ok i
  | _ => .error .badVariantAccess

def getString : Json → Except Failure Str
  | string s => .ok s
  | _ => .error .badVariantAccess

/-- Array items; anything else has none. -/
def items : Json → List Json
  | array js => js
  | _ => []

/-- Object members; anything else has none. -/
def members : Json → List (Str × Json)
  | object ms => ms
  | _ => []

def contains (j : Json) (key : Str) : Bool := (j.members.lookup key).isSome

/-- A missing member reads as null. -/
def get (j : Json) (key : Str) : Json := (j.members.lookup key).getD null

def valueInt (j : Json) (key : Str) (dflt : Int64) : Int64 :=
  match j.get key with
  | int i => i
  | _ => dflt

def valueString (j : Json) (key : Str) (dflt : Str) : Str :=
  match j.get key with
  | string s => s
  | _ => dflt

def valueBool (j : Json) (key : Str) (dflt : Bool) : Bool :=
  match j.get key with
  | bool b => b
  | _ => dflt

def insertMember (key : Str) (j : Json) : List (Str × Json) → List (Str × Json)
  | [] => [(key, j)]
  | (k, v) :: rest =>
    match compare key k with
    | .lt => (key, j) :: (k, v) :: rest
    | .eq => (key, j) :: rest
    | .gt => (k, v) :: insertMember key j rest

/-! ### Output -/

def escape (c : UInt8) : Bytes :=
  if c = 34 then [92, 34]
  else if c = 92 then [92, 92]
  else if c = 10 then [92, 110]
  else if c = 9 then [92, 116]
  else [c]

def floatText (d : Binary64) : Str :=
  if d.isInteger then intToString d.toInt64.toInt ++ str ".0" else d.toGeneral

/-- `dump` with no indentation. Keys are written unescaped. -/
def dump : Json → Str
  | null => str "null"
  | bool b => if b then str "true" else str "false"
  | int i => intToString i.toInt
  | float d => floatText d
  | string s => [34] ++ s.flatMap escape ++ [34]
  | array js => [91] ++ dumpItems js ++ [93]
  | object ms => [123] ++ dumpMembers ms ++ [125]
where
  dumpItems : List Json → Str
    | [] => []
    | [j] => dump j
    | j :: js => dump j ++ [44] ++ dumpItems js
  dumpMembers : List (Str × Json) → Str
    | [] => []
    | [(k, j)] => [34] ++ k ++ [34, 58] ++ dump j
    | (k, j) :: ms => [34] ++ k ++ [34, 58] ++ dump j ++ [44] ++ dumpMembers ms

/-! ### Parsing -/

def isWs (c : UInt8) : Bool := c == 32 || c == 9 || c == 10 || c == 13

def skipWs (bs : Bytes) : Bytes := bs.dropWhile isWs

/-- A string body after the opening quote: text and rest. -/
def parseString : Bytes → Str × Bytes
  | [] => ([], [])
  | 34 :: rest => ([], rest)
  | [92] => ([], [])
  | 92 :: c :: rest =>
    let c' := if c = 110 then 10 else if c = 116 then 9 else if c = 114 then 13 else c
    let (s, rest') := parseString rest
    (c' :: s, rest')
  | c :: rest =>
    let (s, rest') := parseString rest
    (c :: s, rest')

def isDigit (c : UInt8) : Bool := 48 ≤ c && c ≤ 57

/-- The text of a number, whether it is a float, and the rest. -/
def scanNumber (bs : Bytes) : Str × Bool × Bytes :=
  let (s0, bs) : Str × Bytes := match bs with
    | 45 :: r => ([45], r)
    | r => ([], r)
  let s1 := bs.takeWhile isDigit
  let bs := bs.dropWhile isDigit
  let (s2, point, bs) := match bs with
    | 46 :: r => (46 :: r.takeWhile isDigit, true, r.dropWhile isDigit)
    | r => ([], false, r)
  let (s3, expo, bs) := match bs with
    | c :: r =>
      if c = 101 ∨ c = 69 then
        let (sg, r) := match r with
          | c' :: r' => if c' = 43 ∨ c' = 45 then ([c'], r') else ([], c' :: r')
          | [] => ([], [])
        (c :: sg ++ r.takeWhile isDigit, true, r.dropWhile isDigit)
      else ([], false, c :: r)
    | [] => ([], false, [])
  (s0 ++ s1 ++ s2 ++ s3, point || expo, bs)

def stod (s : Str) : Except Failure Binary64 :=
  match Binary64.strtod s with
  | .value d => .ok d
  | .noConversion => .error (.invalidArgument (str "stod"))
  | .outOfRange => .error (.outOfRange (str "stod"))

def stoll (s : Str) : Except Failure Int64 :=
  match Binary64.strtoll s with
  | .value i => .ok i
  | .noConversion => .error (.invalidArgument (str "stoll"))
  | .outOfRange => .error (.outOfRange (str "stoll"))

def parseNumber (bs : Bytes) : Except Failure (Json × Bytes) :=
  let (text, isFloat, rest) := scanNumber bs
  if isFloat then (fun d => (float d, rest)) <$> stod text
  else (fun i => (int i, rest)) <$> stoll text

def fail {α : Type} (text : String) : Except Failure α := .error (.runtimeError (str text))

mutual

/-- Each call reads at least one byte before it calls itself, so the length of the input bounds the
depth. -/
def parseValue (fuel : Nat) (bs : Bytes) : Except Failure (Json × Bytes) :=
  match fuel with
  | 0 => fail "Unexpected end of JSON"
  | fuel + 1 =>
    match skipWs bs with
    | [] => fail "Unexpected end of JSON"
    | c :: rest =>
      if c = 34 then
        let (s, rest) := parseString rest
        .ok (string s, rest)
      else if c = 123 then
        match skipWs rest with
        | 125 :: rest => .ok (object [], rest)
        | rest => do
          let (ms, rest) ← parseMembers fuel rest []
          pure (object ms, rest)
      else if c = 91 then
        match skipWs rest with
        | 93 :: rest => .ok (array [], rest)
        | rest => do
          let (js, rest) ← parseItems fuel rest
          pure (array js, rest)
      else if c = 116 ∨ c = 102 then
        if (c :: rest).take 4 = str "true" then .ok (bool true, (c :: rest).drop 4)
        else if (c :: rest).take 5 = str "false" then .ok (bool false, (c :: rest).drop 5)
        else fail "Invalid bool"
      else if c = 110 then
        if (c :: rest).take 4 = str "null" then .ok (null, (c :: rest).drop 4)
        else fail "Invalid null"
      else if c = 45 ∨ isDigit c then parseNumber (c :: rest)
      else .error (.runtimeError (str "Unexpected char: " ++ [c]))

def parseItems (fuel : Nat) (bs : Bytes) : Except Failure (List Json × Bytes) :=
  match fuel with
  | 0 => fail "Unexpected end of JSON"
  | fuel + 1 => do
    let (j, rest) ← parseValue fuel bs
    match skipWs rest with
    | 44 :: rest => do
      let (js, rest) ← parseItems fuel rest
      pure (j :: js, rest)
    | 93 :: rest => pure ([j], rest)
    | rest => pure ([j], rest)

def parseMembers (fuel : Nat) (bs : Bytes) (ms : List (Str × Json)) :
    Except Failure (List (Str × Json) × Bytes) :=
  match fuel with
  | 0 => fail "Unexpected end of JSON"
  | fuel + 1 =>
    match skipWs bs with
    | [] => fail "Unterminated object"
    | 125 :: rest => .ok (ms, rest)
    | 34 :: rest =>
      let (key, rest) := parseString rest
      match skipWs rest with
      | 58 :: rest => do
        let (j, rest) ← parseValue fuel (skipWs rest)
        let ms := insertMember key j ms
        match skipWs rest with
        | 44 :: rest => parseMembers fuel rest ms
        | 125 :: rest => pure (ms, rest)
        | rest => pure (ms, rest)
      | _ => fail "Expected :"
    | _ => fail "Expected string key"

end

/-- Text after the first value is not looked at. -/
def parse (s : Str) : Except Failure Json := (·.1) <$> parseValue (2 * s.length + 2) s

end Json
end JiaMiaoDB
