import JiaMiaoDB.Common.Json
import JiaMiaoDB.Lib.StateExcept
import JiaMiaoDB.Sql.Lexer

/-!
# Parser

Recursive descent over a token list with a position. A token is read through `tokenAt`, which has
no defined behaviour outside the list. Recursion and loops take a bound on their depth; that the
number of tokens is always enough is a theorem of `Sql.ParserSafety`.
-/

set_option autoImplicit false

namespace JiaMiaoDB

/-- The statements of the grammar. -/
inductive SqlStatement where
  | rows (s : Statement)
  | createTable (name : Str) (columns : List ColumnDef)
  | dropTable (name : Str)
  | createIndex (table column indexName : Str)
  | createDatabase (name : Str)
  | dropDatabase (name : Str)
  | createSchema (name : Str)
  | createUser (name password : Str)
  | dropUser (name : Str)
  | useDatabase (name : Str)
  | showDatabases
  | showUsers
  | showSchemas
  | beginTransaction
  | commitTransaction
  | rollbackTransaction

structure Parser where
  tokens : List Token
  pos : Nat

namespace Parser

/-- A parse without a result: an exception, or a bound of the model that was too small. -/
inductive Stop where
  | failed (f : Failure)
  | outOfFuel
deriving DecidableEq

abbrev ParserM := Prog Parser Stop

def fail {α : Type} (f : Failure) : ParserM α := Prog.throw (.failed f)

def parseError {α : Type} (what : Str) : ParserM α := fail (.runtimeError what)

def ofExcept {α : Type} (r : Except Failure α) : ParserM α :=
  Prog.mapError .failed (Prog.ofExcept r)

/-- More than there are tokens. -/
def fuel : ParserM Nat := do
  let s ← Prog.get
  pure (s.tokens.length + 1)

def tokenAt (i : Nat) : ParserM Token := do
  let s ← Prog.get
  match s.tokens[i]? with
  | some t => pure t
  | none => fail .undefined

def peek : ParserM Token := do
  let s ← Prog.get
  tokenAt (if s.tokens.length ≤ s.pos then s.tokens.length - 1 else s.pos)

def previous : ParserM Token := do
  let s ← Prog.get
  tokenAt (if s.pos = 0 then 0 else s.pos - 1)

def isAtEnd : ParserM Bool := do
  let t ← peek
  pure (t.type = .end)

def advance : ParserM Token := do
  if !(← isAtEnd) then Prog.modify fun s => { s with pos := s.pos + 1 }
  previous

def check (type : TokenType) : ParserM Bool := do
  if ← isAtEnd then pure false
  else
    let t ← peek
    pure (t.type = type)

def matchToken (type : TokenType) : ParserM Bool := do
  if ← check type then
    let _ ← advance
    pure true
  else pure false

def expect (type : TokenType) (errorMsg : String) : ParserM Token := do
  let t ← peek
  if t.type ≠ type then
    parseError (str errorMsg ++ str "，但在第" ++ intToString t.line ++ str "行遇到: " ++ t.text)
  else advance

/-! ### Expressions -/

/-- The operator of the first alternative whose token comes next. -/
def matchOneOf : List (TokenType × BinaryOp) → ParserM (Option BinaryOp)
  | [] => pure none
  | (type, op) :: rest => do
    if ← matchToken type then pure (some op) else matchOneOf rest

/-- Operands joined from the left, as long as an operator follows. -/
def chain (ops : List (TokenType × BinaryOp)) (operand : ParserM Expression) :
    Nat → Expression → ParserM Expression
  | 0, _ => Prog.throw .outOfFuel
  | n + 1, expr => do
    match ← matchOneOf ops with
    | some op =>
      let right ← operand
      chain ops operand n (.binary op expr right)
    | none => pure expr

def leftAssoc (ops : List (TokenType × BinaryOp)) (n : Nat) (operand : ParserM Expression) :
    ParserM Expression := do
  let expr ← operand
  chain ops operand n expr

def orOps : List (TokenType × BinaryOp) := [(.or, .or)]

def andOps : List (TokenType × BinaryOp) := [(.and, .and)]

def comparisonOps : List (TokenType × BinaryOp) :=
  [(.eq, .eq), (.neq, .ne), (.lt, .lt), (.gt, .gt), (.le, .le), (.ge, .ge)]

def additionOps : List (TokenType × BinaryOp) := [(.plus, .add), (.minus, .sub)]

def multiplicationOps : List (TokenType × BinaryOp) := [(.mul, .mul), (.star, .mul), (.div, .div)]

def parseMultiplication : Nat → ParserM Expression → ParserM Expression :=
  leftAssoc multiplicationOps

def parseAddition : Nat → ParserM Expression → ParserM Expression := leftAssoc additionOps

/-- At most one comparison. -/
def parseComparison (operand : ParserM Expression) : ParserM Expression := do
  let expr ← operand
  match ← matchOneOf comparisonOps with
  | some op =>
    let right ← operand
    pure (.binary op expr right)
  | none => pure expr

def parseAnd : Nat → ParserM Expression → ParserM Expression := leftAssoc andOps

def parseOr : Nat → ParserM Expression → ParserM Expression := leftAssoc orOps

/-- The levels over the unary one. -/
def parseLevels (n : Nat) (unary : ParserM Expression) : ParserM Expression :=
  parseOr n (parseAnd n (parseComparison (parseAddition n (parseMultiplication n unary))))

def parsePrimary (expression : ParserM Expression) : ParserM Expression := do
  if ← matchToken .integerLit then
    let v ← ofExcept (Json.stoll (← previous).text)
    pure (.literal (.int v))
  else if ← matchToken .floatLit then
    let v ← ofExcept (Json.stod (← previous).text)
    pure (.literal (.double v))
  else if ← matchToken .stringLit then pure (.literal (.string (← previous).text))
  else if ← matchToken .trueToken then pure (.literal (.bool true))
  else if ← matchToken .falseToken then pure (.literal (.bool false))
  else if ← matchToken .nullToken then pure (.literal .null)
  else if ← matchToken .identifier then pure (.columnRef (← previous).text)
  else if ← matchToken .lparen then
    let expr ← expression
    let _ ← expect .rparen "期望 )"
    pure expr
  else
    let t ← peek
    parseError (str "期望表达式，但遇到: " ++ t.text)

/-- A minus sign subtracts from zero. -/
def parseUnary : Nat → ParserM Expression
  | 0 => Prog.throw .outOfFuel
  | n + 1 => do
    if ← matchToken .not then
      let inner ← parseUnary n
      pure (.not inner)
    else if ← matchToken .minus then
      let inner ← parseUnary n
      pure (.binary .sub (.literal (.int 0)) inner)
    else parsePrimary (parseLevels n (parseUnary n))

def parseExpression : ParserM Expression := do
  let n ← fuel
  parseLevels n (parseUnary n)

def parsePrimaryHere : ParserM Expression := do
  let n ← fuel
  parsePrimary (parseLevels n (parseUnary n))

/-! ### Statements -/

def whileComma {α : Type} (item : ParserM α) : Nat → ParserM (List α)
  | 0 => Prog.throw .outOfFuel
  | n + 1 => do
    if ← matchToken .comma then
      let a ← item
      let rest ← whileComma item n
      pure (a :: rest)
    else pure []

/-- `item`, and again after each comma. -/
def commaList {α : Type} (item : ParserM α) : ParserM (List α) := do
  let a ← item
  let n ← fuel
  let rest ← whileComma item n
  pure (a :: rest)

def expectName (errorMsg : String) : ParserM Str := do
  let t ← expect .identifier errorMsg
  pure t.text

def parseWhere : ParserM (Option Expression) := do
  if ← matchToken .where then some <$> parseExpression else pure none

def parseSelectColumns : ParserM (List Str) := do
  if ← matchToken .star then pure [] else commaList (expectName "期望列名")

def skipOrderBy : ParserM Unit := do
  if ← matchToken .order then
    let _ ← expect .by "期望 BY"
    let _ ← advance
    if ← matchToken .asc then pure ()
    else
      let _ ← matchToken .desc
      pure ()
  else pure ()

def skipLimit : ParserM Unit := do
  if ← matchToken .limit then
    let t ← peek
    if t.type = .integerLit then
      let _ ← advance
      pure ()
    else pure ()
  else pure ()

/-- ORDER BY and LIMIT are read over. -/
def parseSelect : ParserM SqlStatement := do
  let _ ← expect .select "期望 SELECT"
  let columns ← parseSelectColumns
  let _ ← expect .from "期望 FROM"
  let table ← expectName "期望表名"
  let filter ← parseWhere
  skipOrderBy
  skipLimit
  pure (.rows (.select ⟨columns, table, filter⟩))

/-- The value that the literal field of a node holds. -/
def literalField : Expression → Value
  | .literal v => v
  | _ => .null

def parseRow (open_ close : String) : ParserM (List Expression) := do
  let _ ← expect .lparen open_
  let row ← commaList parsePrimaryHere
  let _ ← expect .rparen close
  pure row

/-- A column list, unless the parenthesis opens a subquery. -/
def parseColumnList : ParserM (List Str) := do
  let t ← peek
  let s ← Prog.get
  if t.type = .lparen then
    let t' ← tokenAt (s.pos + 1)
    if t'.type ≠ .select then
      let _ ← expect .lparen "期望 ("
      let columns ← commaList (expectName "期望列名")
      let _ ← expect .rparen "期望 )"
      pure columns
    else pure []
  else pure []

def skipValues : ParserM Unit := do
  let t ← peek
  if t.type = .values ∨ t.text = str "VALUE" ∨ t.text = str "value" then
    let _ ← advance
    pure ()
  else pure ()

/-- The table, the column list and the expressions of each row. -/
def parseInsertParts : ParserM (Str × List Str × List (List Expression)) := do
  let _ ← expect .insert "期望 INSERT"
  let _ ← expect .into "期望 INTO"
  let table ← expectName "期望表名"
  let columns ← parseColumnList
  skipValues
  let row ← parseRow "期望 ( 开始值列表" "期望 ) 结束值列表"
  let n ← fuel
  let rows ← whileComma (parseRow "期望 (" "期望 )") n
  pure (table, columns, row :: rows)

/-- Of each VALUES expression only the literal field is kept. -/
def parseInsert : ParserM SqlStatement := do
  let (table, columns, rows) ← parseInsertParts
  pure (.rows (.insert ⟨table, columns, rows.map (·.map literalField)⟩))

def parseAssignment : ParserM (Str × Expression) := do
  let column ← expectName "期望列名"
  let _ ← expect .eq "期望 ="
  let expr ← parseExpression
  pure (column, expr)

/-- A later assignment to a column replaces an earlier one. -/
def parseUpdate : ParserM SqlStatement := do
  let _ ← expect .update "期望 UPDATE"
  let table ← expectName "期望表名"
  let _ ← expect .set "期望 SET"
  let assignments ← commaList parseAssignment
  let filter ← parseWhere
  pure (.rows (.update ⟨table, assignments.foldl (fun sets a => sets.insert a.1 a.2) ∅, filter⟩))

def parseDelete : ParserM SqlStatement := do
  let _ ← expect .delete "期望 DELETE"
  let _ ← expect .from "期望 FROM"
  let table ← expectName "期望表名"
  let filter ← parseWhere
  pure (.rows (.delete ⟨table, filter⟩))

def parseType : ParserM DataType := do
  let name ← expectName "期望数据类型"
  pure (DataType.ofName name)

/-- What the identifier `mod` behind the type says of the column. -/
def parseModifier (mod : Str) (col : ColumnDef) : ParserM ColumnDef := do
  if DataType.toUpper mod = str "NOT" then
    let _ ← expect .nullToken "期望 NULL (NOT NULL)"
    pure { col with nullable := false }
  else if DataType.toUpper mod = str "PRIMARY" then
    let _ ← expect .key "期望 KEY (PRIMARY KEY)"
    pure { col with primaryKey := true }
  else pure col

def parseSecondModifier (col : ColumnDef) : ParserM ColumnDef := do
  let t ← peek
  if t.type = .identifier then
    let mod2 ← advance
    if DataType.toUpper mod2.text = str "PRIMARY" then
      let _ ← expect .key "期望 KEY"
      pure { col with primaryKey := true }
    else pure col
  else pure col

/-- Modifiers are looked for among identifiers. -/
def parseModifiers (col : ColumnDef) : ParserM ColumnDef := do
  let t ← peek
  if t.type = .identifier then
    let mod ← advance
    let col ← parseModifier mod.text col
    parseSecondModifier col
  else pure col

def parseColumnDef : ParserM ColumnDef := do
  let name ← expectName "期望列名"
  let type ← parseType
  let col ← parseModifiers ⟨name, type, true, false, none⟩
  if ← matchToken .primary then
    let _ ← expect .key "期望 KEY"
    pure { col with primaryKey := true }
  else pure col

/-- A table constraint PRIMARY KEY (column) is read over. -/
def parseColumnOrKey : ParserM (Option ColumnDef) := do
  let t ← peek
  if t.type = .primary then
    let _ ← advance
    let _ ← advance
    let _ ← expect .lparen "期望 ("
    let _ ← advance
    let _ ← expect .rparen "期望 )"
    pure none
  else some <$> parseColumnDef

def parseCreateTable : ParserM SqlStatement := do
  let name ← expectName "期望表名"
  let _ ← expect .lparen "期望 ("
  let col ← parseColumnDef
  let n ← fuel
  let cols ← whileComma parseColumnOrKey n
  let _ ← expect .rparen "期望 )"
  pure (.createTable name (col :: cols.reduceOption))

def parseCreateIndex : ParserM SqlStatement := do
  let indexName ← expectName "期望索引名"
  let _ ← expect .on "期望 ON"
  let table ← expectName "期望表名"
  let _ ← expect .lparen "期望 ("
  let column ← expectName "期望列名"
  let _ ← expect .rparen "期望 )"
  pure (.createIndex table column indexName)

def parseCreateDatabase : ParserM SqlStatement := .createDatabase <$> expectName "期望数据库名"

def parseCreateSchema : ParserM SqlStatement := .createSchema <$> expectName "期望模式名"

def parseCreateUser : ParserM SqlStatement := do
  let name ← expectName "期望用户名"
  if ← matchToken .with then
    let t ← peek
    if DataType.toUpper t.text = str "PASSWORD" then
      let _ ← advance
      let password ← expect .stringLit "期望密码字符串"
      pure (.createUser name password.text)
    else parseError (str "CREATE USER 必须指定 PASSWORD")
  else parseError (str "CREATE USER 必须指定 WITH PASSWORD")

def parseCreate : ParserM SqlStatement := do
  let _ ← expect .create "期望 CREATE"
  if ← matchToken .index then parseCreateIndex
  else if ← matchToken .database then parseCreateDatabase
  else if ← matchToken .schema then parseCreateSchema
  else if ← matchToken .user then parseCreateUser
  else
    let _ ← expect .table "期望 TABLE / DATABASE / SCHEMA / USER"
    parseCreateTable

def parseDropDatabase : ParserM SqlStatement := .dropDatabase <$> expectName "期望数据库名"

def parseDropUser : ParserM SqlStatement := .dropUser <$> expectName "期望用户名"

def parseDropTable : ParserM SqlStatement := do
  let _ ← expect .drop "期望 DROP"
  if ← matchToken .database then parseDropDatabase
  else if ← matchToken .user then parseDropUser
  else
    let _ ← expect .table "期望 TABLE / DATABASE / USER"
    .dropTable <$> expectName "期望表名"

def skipTransactionWord : ParserM Unit := do
  if ← matchToken .transaction then pure ()
  else if ← check .identifier then
    let t ← peek
    if DataType.toUpper t.text = str "WORK" ∨ DataType.toUpper t.text = str "TRANSACTION" then
      let _ ← advance
      pure ()
    else pure ()
  else pure ()

/-- A transaction command with its optional noise word. -/
def parseTransaction (type : TokenType) (errorMsg : String) (statement : SqlStatement) :
    ParserM SqlStatement := do
  let _ ← expect type errorMsg
  skipTransactionWord
  pure statement

def parseBegin : ParserM SqlStatement := parseTransaction .begin "期望 BEGIN" .beginTransaction

def parseCommit : ParserM SqlStatement := parseTransaction .commit "期望 COMMIT" .commitTransaction

def parseRollback : ParserM SqlStatement :=
  parseTransaction .rollback "期望 ROLLBACK" .rollbackTransaction

def parseUse : ParserM SqlStatement := do
  let _ ← expect .use "期望 USE"
  .useDatabase <$> expectName "期望数据库名"

def parseShow : ParserM SqlStatement := do
  let _ ← expect .show "期望 SHOW"
  if ← matchToken .databases then pure .showDatabases
  else if ← matchToken .users then pure .showUsers
  else if ← matchToken .schemas then pure .showSchemas
  else
    let t ← peek
    parseError (str "SHOW 后期望 DATABASES / USERS / SCHEMAS，但遇到: " ++ t.text)

def parseStatement : ParserM SqlStatement := do
  let t ← peek
  match t.type with
  | .select => parseSelect
  | .insert => parseInsert
  | .update => parseUpdate
  | .delete => parseDelete
  | .create => parseCreate
  | .drop => parseDropTable
  | .begin => parseBegin
  | .commit => parseCommit
  | .rollback => parseRollback
  | .use => parseUse
  | .show => parseShow
  | _ => parseError (str "不支持的语句，以 '" ++ t.text ++ str "' 开头")

def parseStatements : Nat → ParserM (List SqlStatement)
  | 0 => Prog.throw .outOfFuel
  | n + 1 => do
    if ← isAtEnd then pure []
    else
      let t ← peek
      if t.type = .semicolon then
        let _ ← advance
        parseStatements n
      else
        let stmt ← parseStatement
        let _ ← matchToken .semicolon
        let stmts ← parseStatements n
        pure (stmt :: stmts)

def parseAll : ParserM (List SqlStatement) := do
  let n ← fuel
  parseStatements n

end Parser
end JiaMiaoDB
