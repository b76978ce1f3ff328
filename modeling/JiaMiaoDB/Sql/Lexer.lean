import JiaMiaoDB.Types

/-!
# Lexer

The lexer is its unread input with a line and a column. A NUL in the input ends it, as the end of
the input does. Bytes from 128 on belong to no character class.
-/

set_option autoImplicit false

namespace JiaMiaoDB

inductive TokenType where
  | select | insert | into | values | update | delete | create | drop | table
  | from | where | set | and | or | not | nullToken | trueToken | falseToken
  | primary | key | index | on | default | order | by | asc | desc | limit
  | as | distinct | exists | in | between | like | is
  | database | schema | user | password | with | use | show
  | databases | users | schemas
  | begin | commit | rollback | savepoint | release
  | transaction | abort | start | to
  | identifier | integerLit | floatLit | stringLit | boolLit
  | semicolon | comma | dot | lparen | rparen | star
  | eq | neq | lt | gt | le | ge | plus | minus | mul | div
  | end | unknown
deriving DecidableEq

structure Token where
  type : TokenType
  text : Str
  line : Nat
  col : Int
deriving DecidableEq

/-- What the parser goes by. -/
def Token.spelling (t : Token) : TokenType × Str := (t.type, t.text)

structure Lexer where
  rest : Str
  line : Nat
  col : Int

namespace Lexer

def isSpace (c : UInt8) : Bool := c = 32 || (9 ≤ c && c ≤ 13)

def isAlpha (c : UInt8) : Bool := (65 ≤ c && c ≤ 90) || (97 ≤ c && c ≤ 122)

def isDigit (c : UInt8) : Bool := 48 ≤ c && c ≤ 57

def isWordChar (c : UInt8) : Bool := isAlpha c || isDigit c || c = 95

def peekChar (l : Lexer) : UInt8 := l.rest.headD 0

/-- The lexer behind the next byte. -/
def advance (l : Lexer) : Lexer :=
  if l.peekChar = 10 then ⟨l.rest.tail, l.line + 1, 1⟩ else ⟨l.rest.tail, l.line, l.col + 1⟩

def advanceBy : Nat → Lexer → Lexer
  | 0, l => l
  | n + 1, l => advanceBy n l.advance

def skipWhitespace (l : Lexer) : Lexer := l.advanceBy (l.rest.takeWhile isSpace).length

def skipLineComment (l : Lexer) : Lexer :=
  l.advanceBy (l.rest.takeWhile fun c => c ≠ 10 && c ≠ 0).length

/-- The bytes up to the end of the block comment, when it ends. -/
def blockCommentLength : Str → Option Nat
  | c :: d :: rest =>
    if c = 42 ∧ d = 47 then some 2 else (blockCommentLength (d :: rest)).map (· + 1)
  | _ => none

def skipBlockComment (l : Lexer) : Except Failure Lexer :=
  match blockCommentLength l.rest with
  | some n => .ok (l.advanceBy n)
  | none => .error (.runtimeError (str "未闭合的块注释"))

/-- The token just read; the lexer stands behind it. -/
def makeToken (type : TokenType) (text : Str) (l : Lexer) : Token × Lexer :=
  (⟨type, text, l.line, l.col - text.length⟩, l)

def keywords : List (Str × TokenType) := [
  (str "SELECT", .select), (str "INSERT", .insert),
  (str "INTO", .into), (str "VALUES", .values),
  (str "UPDATE", .update), (str "DELETE", .delete),
  (str "CREATE", .create), (str "DROP", .drop),
  (str "TABLE", .table), (str "FROM", .from),
  (str "WHERE", .where), (str "SET", .set),
  (str "AND", .and), (str "OR", .or), (str "NOT", .not),
  (str "NULL", .nullToken), (str "TRUE", .trueToken),
  (str "FALSE", .falseToken), (str "PRIMARY", .primary),
  (str "KEY", .key), (str "INDEX", .index),
  (str "ON", .on), (str "DEFAULT", .default),
  (str "ORDER", .order), (str "BY", .by),
  (str "ASC", .asc), (str "DESC", .desc),
  (str "LIMIT", .limit), (str "AS", .as),
  (str "DISTINCT", .distinct), (str "EXISTS", .exists),
  (str "IN", .in), (str "BETWEEN", .between),
  (str "LIKE", .like), (str "IS", .is),
  (str "BEGIN", .begin), (str "COMMIT", .commit),
  (str "ROLLBACK", .rollback), (str "SAVEPOINT", .savepoint),
  (str "RELEASE", .release), (str "TRANSACTION", .transaction),
  (str "ABORT", .abort), (str "START", .start),
  (str "TO", .to),
  (str "DATABASE", .database), (str "SCHEMA", .schema),
  (str "USER", .user), (str "PASSWORD", .password),
  (str "WITH", .with), (str "USE", .use),
  (str "SHOW", .show), (str "DATABASES", .databases),
  (str "USERS", .users), (str "SCHEMAS", .schemas)]

/-- The kind of a word: letter case does not matter. -/
def wordType (text : Str) : TokenType :=
  (keywords.lookup (DataType.toUpper text)).getD .identifier

def readIdentifier (l : Lexer) : Token × Lexer :=
  let text := l.rest.takeWhile isWordChar
  makeToken (wordType text) text (l.advanceBy text.length)

def readNumber (l : Lexer) : Token × Lexer :=
  let whole := l.rest.takeWhile isDigit
  match l.rest.drop whole.length with
  | 46 :: after =>
    let text := whole ++ 46 :: after.takeWhile isDigit
    makeToken .floatLit text (l.advanceBy text.length)
  | _ => makeToken .integerLit whole (l.advanceBy whole.length)

/-- The text of a string literal behind its opening quote, with the number of bytes read. After a
backslash any byte stands for itself; at the end of the input that is the NUL behind it. -/
def stringBody : Str → Str × Nat
  | [] => ([], 0)
  | c :: rest =>
    if c = 39 then ([], 1)
    else if c = 0 then ([], 0)
    else if c = 92 then
      match rest with
      | [] => ([0], 2)
      | d :: rest => (d :: (stringBody rest).1, (stringBody rest).2 + 2)
    else (c :: (stringBody rest).1, (stringBody rest).2 + 1)

def readString (l : Lexer) : Token × Lexer :=
  let body := stringBody l.rest.tail
  makeToken .stringLit body.1 (l.advanceBy (body.2 + 1))

def symbols : List (UInt8 × TokenType) := [
  (59, .semicolon), (44, .comma), (46, .dot), (40, .lparen), (41, .rparen), (42, .star),
  (43, .plus), (45, .minus), (47, .div), (61, .eq), (60, .lt), (62, .gt)]

def symbolsWithEq : List (UInt8 × TokenType) := [(33, .neq), (60, .le), (62, .ge)]

/-- The symbol that starts with `c`, when `d` is the byte behind it. -/
def symbol (c d : UInt8) : TokenType × Str :=
  match if d = 61 then symbolsWithEq.lookup c else none with
  | some type => (type, [c, d])
  | none => ((symbols.lookup c).getD .unknown, [c])

def readSymbol (l : Lexer) : Token × Lexer :=
  let (type, text) := symbol l.peekChar l.advance.peekChar
  makeToken type text (l.advanceBy text.length)

def readToken (l : Lexer) : Token × Lexer :=
  let c := l.peekChar
  if isAlpha c ∨ c = 95 then l.readIdentifier
  else if isDigit c then l.readNumber
  else if c = 39 then l.readString
  else l.readSymbol

@[simp] theorem advance_rest (l : Lexer) : l.advance.rest = l.rest.tail := by
  unfold advance
  split <;> rfl

@[simp] theorem advanceBy_rest (n : Nat) (l : Lexer) : (l.advanceBy n).rest = l.rest.drop n := by
  induction n generalizing l with
  | zero => rfl
  | succ n ih => rw [advanceBy, ih, advance_rest, List.drop_tail]

theorem drop_length_takeWhile (p : UInt8 → Bool) (bs : Str) :
    bs.drop (bs.takeWhile p).length = bs.dropWhile p := by
  have h : bs.takeWhile p ++ bs.dropWhile p = bs := List.takeWhile_append_dropWhile
  calc bs.drop (bs.takeWhile p).length
      = (bs.takeWhile p ++ bs.dropWhile p).drop (bs.takeWhile p).length := by rw [h]
    _ = bs.dropWhile p := List.drop_left

@[simp] theorem skipWhitespace_rest (l : Lexer) :
    l.skipWhitespace.rest = l.rest.dropWhile isSpace := by
  rw [skipWhitespace, advanceBy_rest, drop_length_takeWhile]

theorem skipWhitespace_le (l : Lexer) : l.skipWhitespace.rest.length ≤ l.rest.length := by
  rw [skipWhitespace_rest]
  exact (List.dropWhile_sublist isSpace).length_le

theorem skipLineComment_lt {l : Lexer} {rest : Str} (h : l.rest = 45 :: rest) :
    l.skipLineComment.rest.length < l.rest.length := by
  rw [skipLineComment, advanceBy_rest, h, List.takeWhile_cons_of_pos (by decide),
    List.length_drop, List.length_cons, List.length_cons]
  omega

theorem skipBlockComment_le {l l' : Lexer} (h : l.skipBlockComment = .ok l') :
    l'.rest.length ≤ l.rest.length := by
  unfold skipBlockComment at h
  split at h
  · cases h
    simp
  · cases h

/-- The next token: `end` at the end of the input. -/
def next (l₀ : Lexer) : Except Failure (Token × Lexer) :=
  let l := l₀.skipWhitespace
  match h : l.rest with
  | [] => .ok (⟨.end, [], l.line, l.col⟩, l)
  | c :: rest =>
    if c = 0 then .ok (⟨.end, [], l.line, l.col⟩, l)
    else if hline : c = 45 ∧ rest.head? = some 45 then next l.skipLineComment
    else if c = 47 ∧ rest.head? = some 42 then
      match hskip : (l.advanceBy 2).skipBlockComment with
      | .ok l' => next l'
      | .error f => .error f
    else .ok l.readToken
termination_by l₀.rest.length
decreasing_by
  · have hle : l.rest.length ≤ l₀.rest.length := l₀.skipWhitespace_le
    have hlt : l.skipLineComment.rest.length < l.rest.length := skipLineComment_lt (hline.1 ▸ h)
    exact Nat.lt_of_lt_of_le hlt hle
  · have hle : l.rest.length ≤ l₀.rest.length := l₀.skipWhitespace_le
    have hskip := skipBlockComment_le hskip
    have hlen := congrArg List.length h
    simp only [advanceBy_rest, List.length_drop] at hskip
    simp only [List.length_cons] at hlen
    omega

theorem symbol_text_pos (c d : UInt8) : 0 < (symbol c d).2.length := by
  unfold symbol
  split <;> exact Nat.succ_pos _

theorem readToken_lt {l : Lexer} {c : UInt8} {rest : Str} (h : l.rest = c :: rest) :
    l.readToken.2.rest.length < l.rest.length := by
  have hdrop : ∀ type text n, 0 < n →
      (makeToken type text (l.advanceBy n)).2.rest.length < l.rest.length := by
    intro type text n hn
    rw [makeToken, advanceBy_rest, h, List.length_drop, List.length_cons]
    omega
  have hspan : ∀ p : UInt8 → Bool, p l.peekChar = true → 0 < (l.rest.takeWhile p).length := by
    intro p hp
    rw [peekChar, h, List.headD_cons] at hp
    rw [h, List.takeWhile_cons_of_pos hp]
    exact Nat.succ_pos _
  unfold readToken
  dsimp only
  split
  · next hword =>
    apply hdrop
    apply hspan
    unfold isWordChar
    rcases hword with halpha | hunderscore
    · simp [halpha]
    · simp [hunderscore]
  split
  · next hdigit =>
    have hwhole := hspan isDigit hdigit
    unfold readNumber
    dsimp only
    split
    · apply hdrop
      rw [List.length_append]
      omega
    · exact hdrop _ _ _ hwhole
  split
  · exact hdrop _ _ _ (Nat.succ_pos _)
  · exact hdrop _ _ _ (symbol_text_pos _ _)

/-- A token that is not the last takes bytes. -/
theorem next_lt {l l' : Lexer} {t : Token} (h : l.next = .ok (t, l')) (ht : t.type ≠ .end) :
    l'.rest.length < l.rest.length := by
  fun_induction next l with
  | case1 l m hm =>
    obtain ⟨rfl, -⟩ := Prod.mk.inj (Except.ok.inj h)
    exact absurd rfl ht
  | case2 l m rest hm =>
    obtain ⟨rfl, -⟩ := Prod.mk.inj (Except.ok.inj h)
    exact absurd rfl ht
  | case3 l m c rest hm hc hline ih =>
    have hskip := skipLineComment_lt (hline.1 ▸ hm)
    have hle : m.rest.length ≤ l.rest.length := l.skipWhitespace_le
    have hnext := ih h
    omega
  | case4 l m c rest hm hc hline hblock m' hskip ih =>
    have hm' := skipBlockComment_le hskip
    have hle : m.rest.length ≤ l.rest.length := l.skipWhitespace_le
    have hnext := ih h
    rw [advanceBy_rest, List.length_drop] at hm'
    omega
  | case5 l m c rest hm hc hline hblock f hskip => cases h
  | case6 l m c rest hm hc hline hblock =>
    have hread := readToken_lt hm
    have hle : m.rest.length ≤ l.rest.length := l.skipWhitespace_le
    rw [Except.ok.inj h] at hread
    exact Nat.lt_of_lt_of_le hread hle

/-- The tokens from here on; the last is the end token. -/
def tokens (l : Lexer) : Except Failure (List Token) :=
  match h : l.next with
  | .error f => .error f
  | .ok (t, l') => if ht : t.type = .end then .ok [t] else (t :: ·) <$> l'.tokens
termination_by l.rest.length
decreasing_by exact next_lt h ht

def tokenize (input : Str) : Except Failure (List Token) := tokens ⟨input, 1, 1⟩

example : (tokenize (str "a >= 'x' -- c")).map (·.map Token.spelling) =
    .ok [(.identifier, str "a"), (.ge, str ">="), (.stringLit, str "x"), (.end, [])] := by
  decide +kernel

end Lexer
end JiaMiaoDB
