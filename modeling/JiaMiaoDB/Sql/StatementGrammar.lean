import JiaMiaoDB.Sql.ColumnGrammar

/-!
# The statement grammar

`StatementSyntax` is a statement as it is written and `statement` what it means. A script is a list of
statements, some of them empty, with semicolons between them; `parseAll` reads it back.
-/

set_option autoImplicit false

namespace JiaMiaoDB

inductive Direction where
  | asc
  | desc

/-- An element of CREATE TABLE behind the first column. -/
inductive TableItem where
  | column (d : ColumnSyntax)
  | key (name : Str)

inductive TransactionCommand where
  | begin
  | commit
  | rollback

inductive StatementSyntax where
  | select (columns : List Str) (table : Str) (filter : Option Expression)
      (order : Option (Str × Option Direction)) (limit : Option Nat)
  | insert (table : Str) (columns : List Str) (rows : List (List Expression))
  | update (table : Str) (sets : List (Str × Expression)) (filter : Option Expression)
  | delete (table : Str) (filter : Option Expression)
  | createTable (name : Str) (first : ColumnSyntax) (items : List TableItem)
  | createIndex (indexName table column : Str)
  | createDatabase (name : Str)
  | createSchema (name : Str)
  | createUser (name password : Str)
  | dropTable (name : Str)
  | dropDatabase (name : Str)
  | dropUser (name : Str)
  | useDatabase (name : Str)
  | showDatabases
  | showUsers
  | showSchemas
  | transaction (command : TransactionCommand) (word : Option Str)

open Parser

def nameLexemes (name : Str) : List Lexeme := [.word .identifier name]

def parenthesized (ls : List Lexeme) : List Lexeme := .symbol .lparen :: (ls ++ [.symbol .rparen])

def whereLexemes : Option Expression → List Lexeme
  | none => []
  | some e => .symbol .where :: render 0 e

def Direction.token : Direction → TokenType
  | asc => .asc
  | desc => .desc

def orderLexemes : Option (Str × Option Direction) → List Lexeme
  | none => []
  | some (column, direction) => .symbol .order :: .symbol .by :: .word .identifier column ::
      (direction.map fun d => .symbol d.token).toList

def limitLexemes : Option Nat → List Lexeme
  | none => []
  | some n => [.symbol .limit, .word .integerLit (Binary64.decimal n)]

/-- No column stands for all of them. -/
def selectColumnLexemes : List Str → List Lexeme
  | [] => [.symbol .star]
  | columns => separated nameLexemes columns

def columnListLexemes : List Str → List Lexeme
  | [] => []
  | columns => parenthesized (separated nameLexemes columns)

def rowLexemes (row : List Expression) : List Lexeme := parenthesized (separated (render 5) row)

def assignmentLexemes (a : Str × Expression) : List Lexeme :=
  .word .identifier a.1 :: .symbol .eq :: render 0 a.2

def TableItem.lexemes : TableItem → List Lexeme
  | column d => d.lexemes
  | key name => .symbol .primary :: .symbol .key :: parenthesized (nameLexemes name)

/-- A key is read over. -/
def TableItem.columnDef : TableItem → Option ColumnDef
  | column d => some d.column
  | key _ => none

def TransactionCommand.token : TransactionCommand → TokenType
  | begin => .begin
  | commit => .commit
  | rollback => .rollback

def TransactionCommand.statement : TransactionCommand → SqlStatement
  | begin => .beginTransaction
  | commit => .commitTransaction
  | rollback => .rollbackTransaction

namespace StatementSyntax

def lexemes : StatementSyntax → List Lexeme
  | select columns table filter order limit =>
    .symbol .select :: (selectColumnLexemes columns ++ .symbol .from :: .word .identifier table ::
      (whereLexemes filter ++ (orderLexemes order ++ limitLexemes limit)))
  | insert table columns rows =>
    .symbol .insert :: .symbol .into :: .word .identifier table ::
      (columnListLexemes columns ++ .symbol .values :: separated rowLexemes rows)
  | update table sets filter =>
    .symbol .update :: .word .identifier table :: .symbol .set ::
      (separated assignmentLexemes sets ++ whereLexemes filter)
  | delete table filter =>
    .symbol .delete :: .symbol .from :: .word .identifier table :: whereLexemes filter
  | createTable name first items =>
    .symbol .create :: .symbol .table :: .word .identifier name ::
      parenthesized (separated TableItem.lexemes (.column first :: items))
  | createIndex indexName table column =>
    .symbol .create :: .symbol .index :: .word .identifier indexName :: .symbol .on ::
      .word .identifier table :: parenthesized (nameLexemes column)
  | createDatabase name => .symbol .create :: .symbol .database :: nameLexemes name
  | createSchema name => .symbol .create :: .symbol .schema :: nameLexemes name
  | createUser name password =>
    .symbol .create :: .symbol .user :: .word .identifier name :: .symbol .with ::
      .word .password (str "PASSWORD") :: [.word .stringLit password]
  | dropTable name => .symbol .drop :: .symbol .table :: nameLexemes name
  | dropDatabase name => .symbol .drop :: .symbol .database :: nameLexemes name
  | dropUser name => .symbol .drop :: .symbol .user :: nameLexemes name
  | useDatabase name => .symbol .use :: nameLexemes name
  | showDatabases => [.symbol .show, .symbol .databases]
  | showUsers => [.symbol .show, .symbol .users]
  | showSchemas => [.symbol .show, .symbol .schemas]
  | transaction command word => .symbol command.token :: (word.map Lexeme.ofWord).toList

/-- A table constraint, an order and a limit have no meaning of their own, and of a value only a
literal is kept. -/
def statement : StatementSyntax → SqlStatement
  | select columns table filter _ _ => .rows (.select ⟨columns, table, filter⟩)
  | insert table columns rows => .rows (.insert ⟨table, columns, rows.map (·.map literalField)⟩)
  | update table sets filter =>
    .rows (.update ⟨table, sets.foldl (fun m a => m.insert a.1 a.2) ∅, filter⟩)
  | delete table filter => .rows (.delete ⟨table, filter⟩)
  | createTable name first items =>
    .createTable name (first.column :: items.filterMap TableItem.columnDef)
  | createIndex indexName table column => .createIndex table column indexName
  | createDatabase name => .createDatabase name
  | createSchema name => .createSchema name
  | createUser name password => .createUser name password
  | dropTable name => .dropTable name
  | dropDatabase name => .dropDatabase name
  | dropUser name => .dropUser name
  | useDatabase name => .useDatabase name
  | showDatabases => .showDatabases
  | showUsers => .showUsers
  | showSchemas => .showSchemas
  | transaction command _ => command.statement

/-- What the parser reads as it is meant. -/
def Readable : StatementSyntax → Prop
  | select _ _ filter _ _ | delete _ filter => ∀ e ∈ filter, e.Plain
  | insert _ _ rows => rows ≠ [] ∧ ∀ row ∈ rows, row ≠ [] ∧ ∀ e ∈ row, e.Plain ∧ Primary e
  | update _ sets filter => sets ≠ [] ∧ (∀ a ∈ sets, a.2.Plain) ∧ ∀ e ∈ filter, e.Plain
  | createTable _ first items =>
    ∀ d, .column d ∈ TableItem.column first :: items → d.Named ∧ d.Supported
  | transaction _ word =>
    ∀ w ∈ word, DataType.toUpper w = str "WORK" ∨ DataType.toUpper w = str "TRANSACTION"
  | _ => True

end StatementSyntax

namespace Parser

/-- What may stand behind a statement. -/
def Ends (type : TokenType) : Prop := type = .semicolon ∨ type = .end

theorem starts_nil {mid : TokenType → Prop} (hsemicolon : mid .semicolon) (hend : mid .end) :
    Starts [] Ends mid := by
  intro type htype
  rcases htype with rfl | rfl
  · exact hsemicolon
  · exact hend

/-! ### Clauses -/

/-- Neither an operator nor WHERE. -/
def ClosesExpression (type : TokenType) : Prop := type ∉ operators ∧ type ≠ .where

theorem takes_where {filter : Option Expression} (h : ∀ e ∈ filter, e.Plain) :
    Takes parseWhere (whereLexemes filter) filter ClosesExpression := by
  cases filter with
  | none => exact .ifMatch_miss (by decide) (fun type htype => htype.2) (.pure none)
  | some e =>
    refine .ifMatch_hit (by decide) (.map some (.mono (.parseExpression (h e rfl)) ?_))
    exact fun type htype => htype.1

theorem takes_names (columns : List Str) (hcolumns : columns ≠ []) (errorMsg : String) :
    Takes (commaList (expectName errorMsg)) (separated nameLexemes columns) columns (· ≠ .comma) := by
  obtain ⟨c, cs, rfl⟩ := List.exists_cons_of_ne_nil hcolumns
  have h : Takes (commaList (expectName errorMsg)) (separated nameLexemes (c :: cs))
      ((c :: cs).map id) (· ≠ .comma) :=
    .commaList (trivial : anyType .comma) (fun type htype => ⟨trivial, htype⟩) c cs
      fun y _ => .expectName y errorMsg
  rwa [List.map_id] at h

theorem takes_selectColumns (columns : List Str) :
    Takes parseSelectColumns (selectColumnLexemes columns) columns (· ≠ .comma) := by
  cases columns with
  | nil => exact .ifMatch_hit (by decide) (.pure [])
  | cons c cs =>
    refine .ifMatch_miss (by decide) ?_ (takes_names (c :: cs) (List.cons_ne_nil c cs) _)
    exact fun h => TokenType.noConfusion h

theorem takes_order (order : Option (Str × Option Direction)) :
    Takes skipOrderBy (orderLexemes order) () fun type =>
      type ≠ .order ∧ type ≠ .asc ∧ type ≠ .desc := by
  match order with
  | none => exact .ifMatch_miss (by decide) (fun type htype => htype.1) (.pure ())
  | some (column, none) =>
    refine .ifMatch_hit (by decide) (.expect_then (by decide)
      (.advance (fun h => TokenType.noConfusion h) fun _ _ => ?_))
    refine .ifMatch_miss (by decide) (fun type htype => htype.2.1) (.skip_miss (by decide) ?_ (.pure ()))
    exact fun type htype => htype.2.2
  | some (column, some .asc) =>
    exact .ifMatch_hit (by decide) (.expect_then (by decide)
      (.advance (fun h => TokenType.noConfusion h) fun _ _ =>
        .ifMatch_hit (by decide) (.pure ())))
  | some (column, some .desc) =>
    exact .ifMatch_hit (by decide) (.expect_then (by decide)
      (.advance (fun h => TokenType.noConfusion h) fun _ _ =>
        .ifMatch_miss (by decide) (fun h => TokenType.noConfusion h)
          (.skip_hit (by decide) (.pure ()))))

theorem takes_limit (limit : Option Nat) :
    Takes skipLimit (limitLexemes limit) () (· ≠ .limit) := by
  cases limit with
  | none => exact .ifMatch_miss (by decide) (fun type htype => htype) (.pure ())
  | some n =>
    refine .ifMatch_hit (by decide) (.peek fun t ht => ?_)
    rw [if_pos ht.1]
    exact .advance (fun h => TokenType.noConfusion h) fun _ _ => .pure ()

theorem takes_columnList (columns : List Str) :
    Takes parseColumnList (columnListLexemes columns) columns (· ≠ .lparen) := by
  cases columns with
  | nil =>
    refine .peek_behind fun t ht => ?_
    intro s toks t' rest hspelled hs ht'
    rw [Prog.bind_ok (Prog.run_get s), if_neg ht]
    cases hspelled
    rfl
  | cons c cs =>
    refine .peek fun t ht => ?_
    intro s toks t' rest hspelled hs ht'
    have hwhole := hspelled
    have ht : t.type = .lparen := ht
    obtain ⟨u, us, rfl, hu, hus⟩ := hspelled.cons_inv
    obtain ⟨v, vs, rfl, hv, -⟩ := hus.cons_inv
    have hselect : v.type ≠ .select := by
      rw [hv.1]
      decide
    have hsecond : (tokenAt (s.pos + 1)).run s = (.ok v, s) := tokenAt_eq hs.next.getElem?
    rw [Prog.bind_ok (Prog.run_get s), if_pos ht, Prog.bind_ok hsecond, if_pos hselect]
    have hnames : Takes (expect .lparen "期望 (" >>= fun _ =>
        commaList (expectName "期望列名") >>= fun columns =>
          expect .rparen "期望 )" >>= fun _ => pure columns)
        (columnListLexemes (c :: cs)) (c :: cs) anyType :=
      .expect_then (by decide) (.bind (takes_names (c :: cs) (List.cons_ne_nil c cs) _)
        (.expect_then (by decide) (.pure _)) fun h => TokenType.noConfusion h)
    exact hnames s _ t' rest hwhole hs trivial

theorem takes_row {row : List Expression} (hrow : row ≠ [])
    (h : ∀ e ∈ row, e.Plain ∧ Primary e) (open_ close : String) :
    Takes (parseRow open_ close) (rowLexemes row) row anyType := by
  obtain ⟨e, es, rfl⟩ := List.exists_cons_of_ne_nil hrow
  have hitems : Takes (commaList parsePrimaryHere) (separated (render 5) (e :: es))
      ((e :: es).map id) (· ≠ .comma) :=
    .commaList (trivial : anyType .comma) (fun type htype => ⟨trivial, htype⟩) e es
      fun y hy => .parsePrimaryHere (h y hy).1 (h y hy).2
  rw [List.map_id] at hitems
  exact .expect_then (by decide) (.bind hitems (.expect_then (by decide) (.pure _))
    fun h => TokenType.noConfusion h)

theorem takes_assignment {a : Str × Expression} (h : a.2.Plain) :
    Takes parseAssignment (assignmentLexemes a) a (· ∉ operators) := by
  refine .name_then (.expect_then (by decide) ?_)
  rw [← List.append_nil (render 0 a.2)]
  exact .bind (.parseExpression h) (.pure a) fun _ htype => htype

/-! ### Statements -/

theorem takes_select {columns : List Str} {table : Str} {filter : Option Expression}
    {order : Option (Str × Option Direction)} {limit : Option Nat} (h : ∀ e ∈ filter, e.Plain) :
    Takes parseSelect (StatementSyntax.select columns table filter order limit).lexemes
      (.rows (.select ⟨columns, table, filter⟩)) Ends := by
  have htail : Starts (orderLexemes order ++ limitLexemes limit) Ends ClosesExpression := by
    refine .append ?_ ?_
    · match order with
      | none => exact fun _ htype => htype
      | some (_, _) => exact ⟨by decide, by decide⟩
    · cases limit with
      | none => exact starts_nil ⟨by decide, by decide⟩ ⟨by decide, by decide⟩
      | some n => exact ⟨by decide, by decide⟩
  refine .expect_then (by decide) (.bind (takes_selectColumns columns) ?_ ?_)
  · refine .expect_then (by decide) (.name_then (.bind (takes_where h) ?_ htail))
    refine .bind (takes_order order) ?_ ?_
    · rw [← List.append_nil (limitLexemes limit)]
      exact .bind (takes_limit limit) (.pure _) (starts_nil (by decide) (by decide))
    · cases limit with
      | none => exact starts_nil (by decide) (by decide)
      | some n => exact ⟨by decide, by decide, by decide⟩
  · exact fun h => TokenType.noConfusion h

theorem takes_insert {table : Str} {columns : List Str} {rows : List (List Expression)}
    (hrows : rows ≠ []) (h : ∀ row ∈ rows, row ≠ [] ∧ ∀ e ∈ row, e.Plain ∧ Primary e) :
    Takes parseInsert (StatementSyntax.insert table columns rows).lexemes
      (.rows (.insert ⟨table, columns, rows.map (·.map literalField)⟩)) Ends := by
  obtain ⟨row, rows, rfl⟩ := List.exists_cons_of_ne_nil hrows
  have hrow : ∀ r ∈ row :: rows, Takes (parseRow "期望 (" "期望 )") (rowLexemes r) r anyType :=
    fun r hr => takes_row (h r hr).1 (h r hr).2 _ _
  have hrest : ∀ n, rows.length < n → Takes (whileComma (parseRow "期望 (" "期望 )") n)
      (rows.flatMap fun r => .symbol .comma :: rowLexemes r) (rows.map id) Ends := by
    intro n hn
    apply Takes.whileComma (trivial : anyType .comma) (fun type htype => ⟨trivial, ?_⟩) rows
      (fun r hr => hrow r (List.mem_cons_of_mem row hr)) hn
    rcases htype with rfl | rfl <;> decide
  have hparts : Takes parseInsertParts (StatementSyntax.insert table columns (row :: rows)).lexemes
      (table, columns, row :: rows) Ends := by
    refine .expect_then (by decide) (.expect_then (by decide) (.name_then ?_))
    refine .bind (takes_columnList columns) ?_ fun h => TokenType.noConfusion h
    have hvalues : Takes skipValues [.symbol .values] () anyType := by
      refine .peek fun t ht => ?_
      rw [if_pos (.inl ht)]
      exact .advance (fun h => TokenType.noConfusion h) fun _ _ => .pure ()
    have hfirst := h row List.mem_cons_self
    refine .bind_cons hvalues (.bind (takes_row hfirst.1 hfirst.2 _ _) ?_ .any) .any
    refine .fuel fun n hn => ?_
    have hlen : rows.length ≤ (rows.flatMap fun r => .symbol .comma :: rowLexemes r).length :=
      Takes.length_le_flatMap rows
    have hrest := hrest n (by omega)
    rw [List.map_id] at hrest
    rw [← List.append_nil (rows.flatMap _)]
    exact .bind hrest (.pure _) fun _ htype => htype
  rw [← List.append_nil (StatementSyntax.lexemes _)]
  exact .bind hparts (.pure _) fun _ htype => htype

theorem takes_update {table : Str} {sets : List (Str × Expression)} {filter : Option Expression}
    (hsets : sets ≠ []) (h : ∀ a ∈ sets, a.2.Plain) (hfilter : ∀ e ∈ filter, e.Plain) :
    Takes parseUpdate (StatementSyntax.update table sets filter).lexemes
      (.rows (.update ⟨table, sets.foldl (fun m a => m.insert a.1 a.2) ∅, filter⟩)) Ends := by
  obtain ⟨a, as, rfl⟩ := List.exists_cons_of_ne_nil hsets
  have hitems : Takes (commaList parseAssignment) (separated assignmentLexemes (a :: as))
      ((a :: as).map id) (fun type => type ∉ operators ∧ type ≠ .comma) :=
    .commaList (by decide) (fun type htype => htype) a as fun y hy => takes_assignment (h y hy)
  rw [List.map_id] at hitems
  refine .expect_then (by decide) (.name_then (.expect_then (by decide) (.bind hitems ?_ ?_)))
  · rw [← List.append_nil (whereLexemes filter)]
    refine .bind (takes_where hfilter) (.pure _) ?_
    exact starts_nil ⟨by decide, by decide⟩ ⟨by decide, by decide⟩
  · cases filter with
    | none => exact starts_nil ⟨by decide, by decide⟩ ⟨by decide, by decide⟩
    | some e => exact ⟨by decide, fun h => TokenType.noConfusion h⟩

theorem takes_delete {table : Str} {filter : Option Expression} (hfilter : ∀ e ∈ filter, e.Plain) :
    Takes parseDelete (StatementSyntax.delete table filter).lexemes
      (.rows (.delete ⟨table, filter⟩)) Ends := by
  refine .expect_then (by decide) (.expect_then (by decide) (.name_then ?_))
  rw [← List.append_nil (whereLexemes filter)]
  refine .bind (takes_where hfilter) (.pure _) ?_
  exact starts_nil ⟨by decide, by decide⟩ ⟨by decide, by decide⟩

/-! ### CREATE and DROP -/

theorem takes_item {item : TableItem} (h : ∀ d, item = .column d → d.Named ∧ d.Supported) :
    Takes parseColumnOrKey item.lexemes item.columnDef EndsItem := by
  cases item with
  | column d =>
    obtain ⟨hd, hsupported⟩ := h d rfl
    exact takes_columnOrKey hd.1 (takes_column hd hsupported)
  | key name =>
    refine .peek fun t ht => ?_
    have htype : t.type = .primary := ht
    rw [if_pos htype]
    refine .advance (fun h => TokenType.noConfusion h) fun _ _ => ?_
    refine .advance (fun h => TokenType.noConfusion h) fun _ _ => .expect_then (by decide) ?_
    exact .advance (fun h => TokenType.noConfusion h) fun _ _ => .expect_then (by decide) (.pure none)

theorem takes_createTable {name : Str} {first : ColumnSyntax} {items : List TableItem}
    (h : ∀ d, .column d ∈ TableItem.column first :: items → d.Named ∧ d.Supported) :
    Takes parseCreateTable
      (.word .identifier name :: parenthesized (separated TableItem.lexemes (.column first :: items)))
      (.createTable name (first.column :: items.filterMap TableItem.columnDef)) anyType := by
  obtain ⟨hfirst, hsupported⟩ := h first List.mem_cons_self
  have hitems : ∀ n, items.length < n → Takes (whileComma parseColumnOrKey n)
      (items.flatMap fun item => .symbol .comma :: item.lexemes) (items.map TableItem.columnDef)
      (· = .rparen) := by
    intro n hn
    refine Takes.whileComma (show EndsItem .comma from .inl rfl) ?_ items ?_ hn
    · rintro type rfl
      exact ⟨.inr rfl, by decide⟩
    · rintro item hitem
      apply takes_item
      rintro d rfl
      exact h d (List.mem_cons_of_mem _ hitem)
  have hcolumns : items.filterMap TableItem.columnDef =
      (items.map TableItem.columnDef).reduceOption := by
    change _ = (items.map TableItem.columnDef).filterMap id
    rw [List.filterMap_map]
    rfl
  rw [hcolumns]
  refine .name_then (.expect_then (by decide) ?_)
  rw [separated, List.append_assoc]
  refine .bind (takes_column hfirst hsupported) (.fuel fun n hn => ?_) ?_
  · have hlen : items.length ≤ (items.flatMap fun item => .symbol .comma :: item.lexemes).length :=
      Takes.length_le_flatMap items
    rw [List.length_append] at hn
    exact .bind (hitems n (by omega)) (.expect_then (by decide) (.pure _)) rfl
  · cases items with
    | nil => exact .inr rfl
    | cons => exact .inl rfl

theorem takes_createIndex (indexName table column : Str) :
    Takes parseCreateIndex (.word .identifier indexName :: .symbol .on :: .word .identifier table ::
      parenthesized (nameLexemes column)) (.createIndex table column indexName) anyType :=
  .name_then (.expect_then (by decide) (.name_then (.expect_then (by decide)
    (.name_then (.expect_then (by decide) (.pure _))))))

theorem takes_createUser (name password : Str) :
    Takes parseCreateUser (.word .identifier name :: .symbol .with ::
      .word .password (str "PASSWORD") :: [.word .stringLit password]) (.createUser name password)
      anyType := by
  refine .name_then (.ifMatch_hit (by decide) (.peek fun t ht => ?_))
  rw [if_pos (by rw [ht.2]; decide)]
  refine .advance (fun h => TokenType.noConfusion h) fun _ _ => ?_
  refine Takes.expect (x := .word .stringLit password) (fun h => TokenType.noConfusion h) fun t ht => ?_
  rw [ht.2]
  exact .pure _

theorem takes_named {f : Str → SqlStatement} (name : Str) (errorMsg : String) :
    Takes (f <$> expectName errorMsg) (nameLexemes name) (f name) anyType :=
  .map f (.expectName name errorMsg)

/-- The keyword behind CREATE or DROP. -/
theorem takes_create {ls : List Lexeme} {stmt : SqlStatement} (kind : TokenType) (p : ParserM SqlStatement)
    (hkind : (kind, p) ∈ [(TokenType.index, parseCreateIndex), (.database, parseCreateDatabase),
      (.schema, parseCreateSchema), (.user, parseCreateUser), (.table, parseCreateTable)])
    (h : Takes p ls stmt anyType) :
    Takes parseCreate (.symbol .create :: .symbol kind :: ls) stmt anyType := by
  have hmiss : ∀ other : TokenType, other ≠ kind →
      Starts (.symbol kind :: ls) anyType (· ≠ other) := fun other hne => hne.symm
  refine .expect_then (by decide) ?_
  simp only [List.mem_cons, List.not_mem_nil, or_false, Prod.mk.injEq] at hkind
  rcases hkind with ⟨rfl, rfl⟩ | ⟨rfl, rfl⟩ | ⟨rfl, rfl⟩ | ⟨rfl, rfl⟩ | ⟨rfl, rfl⟩
  · exact .ifMatch_hit (by decide) h
  · exact .ifMatch_miss (by decide) (hmiss _ (by decide)) (.ifMatch_hit (by decide) h)
  · exact .ifMatch_miss (by decide) (hmiss _ (by decide)) (.ifMatch_miss (by decide)
      (hmiss _ (by decide)) (.ifMatch_hit (by decide) h))
  · exact .ifMatch_miss (by decide) (hmiss _ (by decide)) (.ifMatch_miss (by decide)
      (hmiss _ (by decide)) (.ifMatch_miss (by decide) (hmiss _ (by decide))
        (.ifMatch_hit (by decide) h)))
  · exact .ifMatch_miss (by decide) (hmiss _ (by decide)) (.ifMatch_miss (by decide)
      (hmiss _ (by decide)) (.ifMatch_miss (by decide) (hmiss _ (by decide))
        (.ifMatch_miss (by decide) (hmiss _ (by decide)) (.expect_then (by decide) h))))

theorem takes_transaction (command : TransactionCommand) {word : Option Str} (errorMsg : String)
    (h : ∀ w ∈ word, DataType.toUpper w = str "WORK" ∨ DataType.toUpper w = str "TRANSACTION") :
    Takes (parseTransaction command.token errorMsg command.statement)
      (StatementSyntax.transaction command word).lexemes command.statement Ends := by
  have hcommand : command.token ≠ .end := by cases command <;> decide
  have hskip : Takes skipTransactionWord (word.map Lexeme.ofWord).toList () Ends := by
    cases word with
    | none =>
      exact .ifMatch_miss (by decide) (starts_nil (by decide) (by decide))
        (.ifCheck_miss (by decide) (starts_nil (by decide) (by decide)) (.pure ()))
    | some w =>
      have hw := h w rfl
      rcases hw with hwork | htransaction
      · have htype : (Lexeme.ofWord w).type = .identifier := by
          change Lexer.wordType w = _
          rw [Lexer.wordType, hwork]
          decide
        refine .ifMatch_miss (by decide) (show (Lexeme.ofWord w).type ≠ _ by rw [htype]; decide) ?_
        refine .ifCheck_lexeme htype (by decide) (.peek fun t ht => ?_)
        rw [if_pos (.inl (ht.2.symm ▸ hwork))]
        exact .advance (by rw [htype]; decide) fun _ _ => .pure ()
      · have htype : (Lexeme.ofWord w).type = .transaction := by
          change Lexer.wordType w = _
          rw [Lexer.wordType, htransaction]
          decide
        exact .ifMatch_lexeme htype (by decide) (.pure ())
  refine .expect_then hcommand ?_
  rw [← List.append_nil (Option.toList _)]
  exact .bind hskip (.pure _) fun _ htype => htype

theorem takes_dispatch {ls : List Lexeme} {stmt : SqlStatement} {ends : TokenType → Prop}
    (kind : TokenType) (p : ParserM SqlStatement)
    (hkind : (kind, p) ∈ [(TokenType.select, parseSelect), (.insert, parseInsert),
      (.update, parseUpdate), (.delete, parseDelete), (.create, parseCreate), (.drop, parseDropTable),
      (.begin, parseBegin), (.commit, parseCommit), (.rollback, parseRollback), (.use, parseUse),
      (.show, parseShow)])
    (h : Takes p (.symbol kind :: ls) stmt ends) :
    Takes parseStatement (.symbol kind :: ls) stmt ends := by
  refine .peek fun t ht => ?_
  have ht : t.type = kind := ht
  rw [ht]
  simp only [List.mem_cons, List.not_mem_nil, or_false, Prod.mk.injEq] at hkind
  rcases hkind with ⟨rfl, rfl⟩ | ⟨rfl, rfl⟩ | ⟨rfl, rfl⟩ | ⟨rfl, rfl⟩ | ⟨rfl, rfl⟩ | ⟨rfl, rfl⟩ |
    ⟨rfl, rfl⟩ | ⟨rfl, rfl⟩ | ⟨rfl, rfl⟩ | ⟨rfl, rfl⟩ | ⟨rfl, rfl⟩ <;> exact h

theorem takes_statement {d : StatementSyntax} (h : d.Readable) :
    Takes parseStatement d.lexemes d.statement Ends := by
  have hany : ∀ type, Ends type → anyType type := fun _ _ => trivial
  have hcreate : ∀ {ls stmt} kind p, _ → Takes p ls stmt anyType →
      Takes parseStatement (.symbol .create :: .symbol kind :: ls) stmt Ends :=
    fun kind p hkind hp =>
      takes_dispatch .create parseCreate (by simp) ((takes_create kind p hkind hp).mono hany)
  have hdrop : ∀ {ls stmt}, Takes parseDropTable (.symbol .drop :: ls) stmt anyType →
      Takes parseStatement (.symbol .drop :: ls) stmt Ends :=
    fun hp => takes_dispatch .drop parseDropTable (by simp) (hp.mono hany)
  have hshow : ∀ {ls stmt}, Takes parseShow (.symbol .show :: ls) stmt anyType →
      Takes parseStatement (.symbol .show :: ls) stmt Ends :=
    fun hp => takes_dispatch .show parseShow (by simp) (hp.mono hany)
  cases d with
  | select columns table filter order limit =>
    exact takes_dispatch .select parseSelect (by simp) (takes_select h)
  | insert table columns rows =>
    exact takes_dispatch .insert parseInsert (by simp) (takes_insert h.1 h.2)
  | update table sets filter =>
    exact takes_dispatch .update parseUpdate (by simp) (takes_update h.1 h.2.1 h.2.2)
  | delete table filter => exact takes_dispatch .delete parseDelete (by simp) (takes_delete h)
  | createTable name first items =>
    exact hcreate .table parseCreateTable (by simp) (takes_createTable h)
  | createIndex indexName table column =>
    exact hcreate .index parseCreateIndex (by simp) (takes_createIndex indexName table column)
  | createDatabase name =>
    exact hcreate .database parseCreateDatabase (by simp) (takes_named name _)
  | createSchema name => exact hcreate .schema parseCreateSchema (by simp) (takes_named name _)
  | createUser name password =>
    exact hcreate .user parseCreateUser (by simp) (takes_createUser name password)
  | dropTable name =>
    exact hdrop (.expect_then (by decide) (.ifMatch_miss (by decide) (.symbol (by decide))
      (.ifMatch_miss (by decide) (.symbol (by decide)) (.expect_then (by decide) (takes_named name _)))))
  | dropDatabase name =>
    exact hdrop (.expect_then (by decide) (.ifMatch_hit (by decide) (takes_named name _)))
  | dropUser name =>
    exact hdrop (.expect_then (by decide) (.ifMatch_miss (by decide) (.symbol (by decide))
      (.ifMatch_hit (by decide) (takes_named name _))))
  | useDatabase name =>
    exact takes_dispatch .use parseUse (by simp)
      (.mono (.expect_then (by decide) (takes_named name _)) hany)
  | showDatabases => exact hshow (.expect_then (by decide) (.ifMatch_hit (by decide) (.pure _)))
  | showUsers =>
    exact hshow (.expect_then (by decide) (.ifMatch_miss (by decide) (.symbol (by decide))
      (.ifMatch_hit (by decide) (.pure _))))
  | showSchemas =>
    exact hshow (.expect_then (by decide) (.ifMatch_miss (by decide) (.symbol (by decide))
      (.ifMatch_miss (by decide) (.symbol (by decide)) (.ifMatch_hit (by decide) (.pure _)))))
  | transaction command word =>
    cases command with
    | begin => exact takes_dispatch .begin parseBegin (by simp) (takes_transaction .begin _ h)
    | commit => exact takes_dispatch .commit parseCommit (by simp) (takes_transaction .commit _ h)
    | rollback => exact takes_dispatch .rollback parseRollback (by simp) (takes_transaction .rollback _ h)

theorem lexemes_head (d : StatementSyntax) :
    ∃ x ls, d.lexemes = x :: ls ∧ x.type ≠ .end ∧ x.type ≠ .semicolon := by
  cases d with
  | transaction command word => cases command <;> exact ⟨_, _, rfl, by decide, by decide⟩
  | _ => exact ⟨_, _, rfl, by decide, by decide⟩

/-! ### Scripts -/

/-- Statements, some of them empty, with semicolons between them. -/
def scriptLexemes : List (Option StatementSyntax) → List Lexeme
  | [] => []
  | [d] => (d.map StatementSyntax.lexemes).getD []
  | d :: ds => (d.map StatementSyntax.lexemes).getD [] ++ .symbol .semicolon :: scriptLexemes ds

def scriptStatements (script : List (Option StatementSyntax)) : List SqlStatement :=
  script.filterMap (Option.map StatementSyntax.statement)

theorem takes_stop (n : Nat) : Takes (parseStatements (n + 1)) [] [] (· = .end) :=
  .ifAtEnd_stop (fun _ htype => htype) (.pure [])

/-- One statement, then what `next` reads behind it. -/
theorem takes_first {d : StatementSyntax} (hd : d.Readable) {n : Nat} {ls : List Lexeme}
    {stmts : List SqlStatement} (hstart : Starts ls (· = .end) Ends)
    (h : Takes (matchToken .semicolon >>= fun _ => parseStatements n) ls stmts (· = .end)) :
    Takes (parseStatements (n + 1)) (d.lexemes ++ ls) (d.statement :: stmts) (· = .end) := by
  obtain ⟨x, xs, hx, hend, hsemicolon⟩ := lexemes_head d
  have hstmt := takes_statement hd
  rw [hx] at hstmt ⊢
  refine .ifAtEnd_next hend (.peek fun t ht => ?_)
  rw [if_neg (by rw [ht.type_eq]; exact hsemicolon)]
  refine .bind hstmt ?_ hstart
  have hrest := Takes.map (d.statement :: ·) h
  rw [map_eq_pure_bind, bind_assoc] at hrest
  exact hrest

theorem takes_script (script : List (Option StatementSyntax))
    (h : ∀ d, some d ∈ script → d.Readable) (n : Nat) (hn : (scriptLexemes script).length < n) :
    Takes (parseStatements n) (scriptLexemes script) (scriptStatements script) (· = .end) := by
  induction script generalizing n with
  | nil =>
    obtain ⟨n, rfl⟩ := Nat.exists_eq_succ_of_ne_zero (by omega : n ≠ 0)
    exact takes_stop n
  | cons d ds ih =>
    obtain ⟨n, rfl⟩ := Nat.exists_eq_succ_of_ne_zero (by omega : n ≠ 0)
    cases ds with
    | nil =>
      cases d with
      | none => exact takes_stop n
      | some d =>
        obtain ⟨x, xs, hx, -, -⟩ := lexemes_head d
        rw [scriptLexemes, Option.map_some, Option.getD_some, hx, List.length_cons] at hn
        obtain ⟨n, rfl⟩ := Nat.exists_eq_succ_of_ne_zero (by omega : n ≠ 0)
        have hrest : Takes (matchToken .semicolon >>= fun _ => parseStatements (n + 1)) [] []
            (· = .end) := by
          apply Takes.skip_miss (by decide) ?_ (takes_stop n)
          rintro type rfl
          decide
        have hstart : Starts [] (· = .end) Ends := fun _ htype => .inr htype
        have hfirst := takes_first (h d List.mem_cons_self) hstart hrest
        rw [List.append_nil] at hfirst
        exact hfirst
    | cons d' ds =>
      have hrest : ∀ m, (scriptLexemes (d' :: ds)).length < m → Takes (parseStatements m)
          (scriptLexemes (d' :: ds)) (scriptStatements (d' :: ds)) (· = .end) :=
        ih fun c hc => h c (List.mem_cons_of_mem d hc)
      cases d with
      | none =>
        change (_ :: scriptLexemes (d' :: ds)).length < n + 1 at hn
        rw [List.length_cons] at hn
        refine .ifAtEnd_next (x := .symbol .semicolon) (by decide) (.peek fun t ht => ?_)
        rw [if_pos (show t.type = .semicolon from ht)]
        exact .advance (by decide) fun _ _ => hrest n (by omega)
      | some d =>
        change (d.lexemes ++ _ :: scriptLexemes (d' :: ds)).length < n + 1 at hn
        rw [List.length_append, List.length_cons] at hn
        exact takes_first (h d List.mem_cons_self) (.inl rfl)
          (.skip_hit (by decide) (hrest n (by omega)))

theorem takes_parseAll (script : List (Option StatementSyntax))
    (h : ∀ d, some d ∈ script → d.Readable) :
    Takes parseAll (scriptLexemes script) (scriptStatements script) (· = .end) :=
  .fuel fun n hn => takes_script script h n hn

/-- A script parses to what its statements mean, each read to its end and none more. -/
theorem parseAll_script (script : List (Option StatementSyntax))
    (h : ∀ d, some d ∈ script → d.Readable) (toks : List Token) (last : Token)
    (hlast : last.type = .end) (hspelled : Spelled (scriptLexemes script) toks) :
    (parseAll.run ⟨toks ++ [last], 0⟩).1 = .ok (scriptStatements script) := by
  rw [takes_parseAll script h ⟨toks ++ [last], 0⟩ toks last [] hspelled rfl hlast]

/-- `SELECT * FROM t WHERE a ORDER BY a;; COMMIT` -/
theorem parseAll_script_commit :
    let script : List (Option StatementSyntax) :=
      [some (.select [] (str "t") (some (.columnRef (str "a"))) (some (str "a", none)) none), none,
        some (.transaction .commit none)]
    let toks : List Token := [⟨.select, str "SELECT", 1, 1⟩, ⟨.star, str "*", 1, 8⟩,
      ⟨.from, str "FROM", 1, 10⟩, ⟨.identifier, str "t", 1, 15⟩, ⟨.where, str "WHERE", 1, 17⟩,
      ⟨.identifier, str "a", 1, 23⟩, ⟨.order, str "ORDER", 1, 25⟩, ⟨.by, str "BY", 1, 31⟩,
      ⟨.identifier, str "a", 1, 34⟩, ⟨.semicolon, str ";", 1, 35⟩, ⟨.semicolon, str ";", 1, 36⟩,
      ⟨.commit, str "COMMIT", 1, 38⟩]
    (parseAll.run ⟨toks ++ [⟨.end, [], 1, 44⟩], 0⟩).1 = .ok (scriptStatements script) := by
  intro script toks
  refine parseAll_script script ?_ toks _ rfl ?_
  · intro d hd
    simp only [script, List.mem_cons, List.not_mem_nil, or_false, Option.some.injEq,
      reduceCtorEq, false_or] at hd
    rcases hd with rfl | rfl
    · intro e he
      cases he
      trivial
    · intro w hw
      cases hw
  · exact .cons rfl (.cons rfl (.cons rfl (.cons ⟨rfl, rfl⟩ (.cons rfl (.cons ⟨rfl, rfl⟩
      (.cons rfl (.cons rfl (.cons ⟨rfl, rfl⟩ (.cons rfl (.cons rfl (.cons rfl .nil)))))))))))

end Parser
end JiaMiaoDB
