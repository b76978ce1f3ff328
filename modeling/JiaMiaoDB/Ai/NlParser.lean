import JiaMiaoDB.Common.Json

/-! The answer of the language model, read as an intent. The answer is any text: a JSON document whose
content again holds a JSON object between other words. -/

set_option autoImplicit false

namespace JiaMiaoDB

inductive IntentCategory where
  | query | mutation | schema | task | conversation
deriving DecidableEq

/-- The statement of an intent; `unknown` when the operation names no kind of statement. -/
inductive IntentStatement where
  | rows (ast : Statement)
  | createTable (name : Str) (columns : List ColumnDef)
  | dropTable (name : Str)
  | createDatabase (name : Str)
  | dropDatabase (name : Str)
  | createSchema (name : Str)
  | createUser (name password : Str)
  | dropUser (name : Str)
  | useDatabase (name : Str)
  | unknown

structure UnifiedIntent where
  category : IntentCategory
  rawInput : Str
  tables : List Str
  description : Str
  isWrite : Bool
  statement : IntentStatement

/-- What a failed result holds besides its error is read by nobody and left out. -/
inductive NLParseResult where
  | conversation (reply : Str)
  | intent (i : UnifiedIntent)
  | failed (error : Str)

namespace NLParser

/-! ### Texts -/

/-- The position of the first occurrence of `needle`. -/
def findSub (needle : Str) : Str → Option Nat
  | [] => if needle.isEmpty then some 0 else none
  | c :: rest =>
    if needle.isPrefixOf (c :: rest) then some 0 else (findSub needle rest).map (· + 1)

def thinkStart : Str := str "<think>"

def thinkEnd : Str := str "</think>"

/-- Takes out what stands between thinking tags; an opening tag without a closing one ends it. Every
round shortens the text, so that its length bounds the rounds. -/
def stripThinking : Nat → Str → Str
  | 0, content => content
  | fuel + 1, content =>
    match findSub thinkStart content with
    | none => content
    | some start =>
      match findSub thinkEnd (content.drop start) with
      | none => content
      | some length =>
        stripThinking fuel (content.take start ++ content.drop (start + length + thinkEnd.length))

/-- From the first opening brace to the last closing one. When they stand the wrong way round the
length wraps around: all of the rest, or nothing when the braces touch. -/
def extractObject (content : Str) : Option Str :=
  match content.findIdx? (· = 123), content.reverse.findIdx? (· = 125) with
  | some start, some back =>
    let stop := content.length - back
    some (if start ≤ stop then (content.drop start).take (stop - start) else content.drop start)
  | _, _ => none

/-! ### The operation -/

def strings (j : Json) : Except Failure (List Str) := j.items.mapM Json.getString

/-- A value of VALUES; a list or an object is no value. -/
def literalValue : Json → Except Failure Value
  | .null => .ok .null
  | .int i => .ok (.int i)
  | .float d => .ok (.double d)
  | .bool b => .ok (.bool b)
  | j => Value.string <$> j.getString

def columnDef (c : Json) : ColumnDef where
  name := c.valueString (str "name") []
  type := DataType.ofName (c.valueString (str "type") (str "TEXT"))
  nullable := c.valueBool (str "nullable") true
  primaryKey := c.valueBool (str "primary_key") false
  defaultValue := none

/-- The condition of a SELECT, an UPDATE or a DELETE is not looked at, nor are the assignments. -/
def parseOperation (op : Json) : Except Failure IntentStatement :=
  let kind := op.valueString (str "type") []
  let name := op.valueString (str "name") []
  let table := op.valueString (str "table") []
  if kind = str "select" then do
    let columns ← strings (op.get (str "columns"))
    pure (.rows (.select ⟨columns, op.valueString (str "from") [], none⟩))
  else if kind = str "insert" then do
    let columns ← strings (op.get (str "columns"))
    let values ← (op.get (str "values")).items.mapM fun row => row.items.mapM literalValue
    pure (.rows (.insert ⟨table, columns, values⟩))
  else if kind = str "update" then pure (.rows (.update ⟨table, ∅, none⟩))
  else if kind = str "delete" then pure (.rows (.delete ⟨table, none⟩))
  else if kind = str "create_table" then
    pure (.createTable name ((op.get (str "columns")).items.map columnDef))
  else if kind = str "drop_table" then pure (.dropTable name)
  else if kind = str "create_database" then pure (.createDatabase name)
  else if kind = str "drop_database" then pure (.dropDatabase name)
  else if kind = str "create_schema" then pure (.createSchema name)
  else if kind = str "create_user" then
    pure (.createUser name (op.valueString (str "password") []))
  else if kind = str "drop_user" then pure (.dropUser name)
  else if kind = str "use" then pure (.useDatabase name)
  else pure .unknown

/-! ### The response -/

def intentCategory (parsed : Json) : IntentCategory :=
  let name := parsed.valueString (str "category") (str "query")
  if name = str "mutation" then .mutation
  else if name = str "schema" then .schema
  else .query

def parseIntent (parsed : Json) (input : Str) : Except Failure NLParseResult := do
  let tables ← strings (parsed.get (str "tables"))
  let statement ←
    if parsed.contains (str "operation") then parseOperation (parsed.get (str "operation"))
    else pure .unknown
  pure (.intent {
    category := intentCategory parsed
    rawInput := input
    tables := tables
    description := parsed.valueString (str "description") []
    isWrite := parsed.valueBool (str "isWrite") false
    statement := statement })

def isConversation (parsed : Json) : Except Failure Bool :=
  if parsed.contains (str "category") then
    (fun name => decide (name = str "conversation")) <$> (parsed.get (str "category")).getString
  else pure false

/-- The object in the content of the answer. -/
def parseContent (content input : Str) : Except Failure NLParseResult :=
  match extractObject (stripThinking content.length content) with
  | none => pure (.failed (str "API 返回没有有效 JSON"))
  | some text => do
    let parsed ← Json.parse text
    if ← isConversation parsed then
      pure (.conversation (parsed.valueString (str "reply") (str "你好！")))
    else parseIntent parsed input

/-- The text of the first choice. Indexing an object with members by a number is undefined. -/
def responseContent (j : Json) : Except Failure (Option Str) :=
  match j.get (str "choices") with
  | .array (choice :: _) =>
    some <$> ((choice.get (str "message")).get (str "content")).getString
  | .object (_ :: _) => .error .undefined
  | _ => .ok none

def parseBody (response input : Str) : Except Failure NLParseResult := do
  let j ← Json.parse response
  match ← responseContent j with
  | none => pure (.failed (str "MiniMax 返回格式异常"))
  | some content => parseContent content input

/-- Undefined behaviour is no exception and is not caught. -/
def parseResponse (response input : Str) : Except Failure NLParseResult :=
  if response.isEmpty then pure (.failed (str "MiniMax API 返回空"))
  else match parseBody response input with
    | .error .undefined => .error .undefined
    | .error f => pure (.failed (str "解析响应失败: " ++ f.what))
    | .ok result => pure result

end NLParser
end JiaMiaoDB
