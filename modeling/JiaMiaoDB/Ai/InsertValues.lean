import JiaMiaoDB.Ai.Executor
import JiaMiaoDB.Sql.ParserRuns
import JiaMiaoDB.Storage.InsertedRows
import JiaMiaoDB.Storage.StoredCells

/-!
# The values of an INSERT

The parser keeps the literal field of each VALUES expression, the planner pairs the values with the column
names, and the engine looks up the columns of its schema. What an expression evaluates to arrives in its
column if each of these steps leaves it alone.
-/

set_option autoImplicit false

namespace JiaMiaoDB
open StorageEngine BinaryRowCodec

/-! ### Values of one row -/

def Expression.isLiteral : Expression → Bool
  | .literal _ => true
  | _ => false

/-- The last expression that a row gives for a column. -/
def lastFor (names : List Str) (exprs : List Expression) (name : Str) : Option Expression :=
  ((names.zip exprs).findRev? (·.1 = name)).map Prod.snd

/-- The value of the expression, evaluated on no row and coerced, is in its column. -/
def HoldsValue (columns : List ColumnDef) (t : Tuple) (name : Str) (expr : Expression) : Prop :=
  ∃ col v, columnOf columns name = some col ∧ coerce col.type (evalExpression expr ∅) = .ok v ∧
    Cell t name v

/-- The values of a row are in the columns that they are given for. -/
def HoldsValues (columns : List ColumnDef) (names : List Str) (exprs : List Expression) (t : Tuple) :
    Prop :=
  ∀ (i : Nat) expr, exprs[i]? = some expr → ∃ name, names[i]? = some name ∧ HoldsValue columns t name expr

/-- The column is there, and the last expression that is given for it stands for this one: as a literal of
the same value, or else as the NULL that this one evaluates to. -/
structure Arrives (columns : List ColumnDef) (names : List Str) (exprs : List Expression) (name : Str)
    (expr : Expression) : Prop where
  known : name ∈ keptNames columns
  written : ∀ last col, lastFor names exprs name = some last → columnOf columns name = some col →
    coerce col.type (evalExpression expr ∅) =
      if last.isLiteral then coerce col.type (evalExpression last ∅) else .ok .null

/-- The row is no longer than the list of names, and each of its values arrives. -/
structure ValuesArrive (columns : List ColumnDef) (names : List Str) (exprs : List Expression) :
    Prop where
  fits : exprs.length ≤ names.length
  arrive : ∀ p ∈ names.zip exprs, Arrives columns names exprs p.1 p.2

section
variable {names : List Str} {exprs : List Expression} {name : Str} {expr last : Expression}

theorem coerce_literalField (type : DataType) (last : Expression) :
    coerce type (Parser.literalField last) =
      if last.isLiteral then coerce type (evalExpression last ∅) else .ok .null := by
  cases last <;> rfl

theorem lastFor_eq (names : List Str) (exprs : List Expression) (name : Str) :
    lastFor names exprs name = ((names.zip exprs).reverse.find? (·.1 = name)).map Prod.snd := by
  rw [lastFor, List.findRev?_eq_findRev?TR]
  rfl

/-- The planned row has the literal field of the last expression for each name. -/
theorem getElem?_insertRow (names : List Str) (exprs : List Expression) (name : Str) :
    (AIPlanner.insertRow names (exprs.map Parser.literalField))[name]? =
      (lastFor names exprs name).map Parser.literalField := by
  rw [AIPlanner.insertRow, OrderedMap.getElem?_foldl_entries, List.zip_map_right,
    Std.ExtTreeMap.getElem?_empty, Option.or_none, List.findRev?_eq_findRev?TR, List.findRev?TR,
    ← List.map_reverse, List.find?_map, lastFor_eq, Option.map_map, Option.map_map]
  rfl

theorem exists_lastFor (h : (name, expr) ∈ names.zip exprs) :
    ∃ last, lastFor names exprs name = some last := by
  have hsome : ((names.zip exprs).reverse.find? (·.1 = name)).isSome := by
    rw [List.find?_isSome]
    exact ⟨_, List.mem_reverse.mpr h, decide_eq_true rfl⟩
  obtain ⟨p, hp⟩ := Option.isSome_iff_exists.mp hsome
  exact ⟨p.2, by rw [lastFor_eq, hp]; rfl⟩

/-- What holds of each element of a list and the one at its place in another, which is long enough. -/
theorem forall_zip_iff {P : Str → Expression → Prop} :
    (∀ (i : Nat) expr, exprs[i]? = some expr → ∃ name, names[i]? = some name ∧ P name expr) ↔
      exprs.length ≤ names.length ∧ ∀ p ∈ names.zip exprs, P p.1 p.2 := by
  constructor
  · intro h
    refine ⟨?_, fun p hp => ?_⟩
    · by_contra hlong
      have hlt : names.length < exprs.length := by omega
      obtain ⟨name, hname, -⟩ := h names.length _ (List.getElem?_eq_getElem hlt)
      rw [List.getElem?_eq_none (Nat.le_refl _)] at hname
      cases hname
    · obtain ⟨i, hi⟩ := List.mem_iff_getElem?.mp hp
      obtain ⟨hname, hexpr⟩ := List.getElem?_zip_eq_some.mp hi
      obtain ⟨name, hname', hP⟩ := h i p.2 hexpr
      cases hname.symm.trans hname'
      exact hP
  · rintro ⟨hfits, h⟩ i expr hexpr
    have hlt : i < names.length :=
      Nat.lt_of_lt_of_le (List.getElem?_eq_some_iff.mp hexpr).1 hfits
    have hname := List.getElem?_eq_getElem hlt
    refine ⟨names[i], hname, ?_⟩
    exact h (names[i], expr) (List.mem_iff_getElem?.mpr
      ⟨i, List.getElem?_zip_eq_some.mpr ⟨hname, hexpr⟩⟩)

variable {e : StorageEngine} {schema : TableSchema} {validated returned : Row} {hdr : TupleHeader}
  {t : Tuple}

/-- A value is in its column if and only if it arrives there. -/
theorem holdsValue_iff
    (h : e.validate schema (AIPlanner.insertRow names (exprs.map Parser.literalField)) = .ok validated)
    (hreturned : business returned = business validated) (ht : rowToTuple returned hdr = .ok t)
    (hpair : (name, expr) ∈ names.zip exprs) :
    HoldsValue schema.columns t name expr ↔ Arrives schema.columns names exprs name expr := by
  obtain ⟨last, hlast⟩ := exists_lastFor hpair
  have hcell := cell_iff_validated h hreturned ht name
  -- What validation stores is the coerced literal field of the last expression.
  have hstored {col : ColumnDef} (hcol : columnOf schema.columns name = some col) :
      ∃ w, coerce col.type (Parser.literalField last) = .ok w ∧ validated[name]? = some w := by
    have hvalidate := getElem?_validate h name
    rw [hcol] at hvalidate
    obtain ⟨w, hw, hvalue⟩ := hvalidate
    rw [validateColumn, name_columnOf hcol, getElem?_insertRow, hlast] at hw
    exact ⟨w, hw, hvalue⟩
  constructor
  · rintro ⟨col, v, hcol, hv, hin⟩
    obtain ⟨hkept, hvalue⟩ := (hcell v).mp hin
    refine ⟨hkept, fun last' col' hlast' hcol' => ?_⟩
    cases hlast.symm.trans hlast'
    cases hcol.symm.trans hcol'
    obtain ⟨w, hw, hvalue'⟩ := hstored hcol
    cases hvalue.symm.trans hvalue'
    rw [← coerce_literalField, hv, hw]
  · rintro ⟨hkept, hwritten⟩
    obtain ⟨col, hcol⟩ := exists_columnOf hkept
    obtain ⟨w, hw, hvalue⟩ := hstored hcol
    refine ⟨col, w, hcol, ?_, (hcell w).mpr ⟨hkept, hvalue⟩⟩
    rw [hwritten last col hlast hcol, ← coerce_literalField, hw]

theorem holdsValues_iff
    (h : e.validate schema (AIPlanner.insertRow names (exprs.map Parser.literalField)) = .ok validated)
    (hreturned : business returned = business validated) (ht : rowToTuple returned hdr = .ok t) :
    HoldsValues schema.columns names exprs t ↔ ValuesArrive schema.columns names exprs := by
  rw [HoldsValues, forall_zip_iff]
  constructor
  · rintro ⟨hfits, hholds⟩
    exact ⟨hfits, fun p hp => (holdsValue_iff h hreturned ht hp).mp (hholds p hp)⟩
  · rintro ⟨hfits, harrive⟩
    exact ⟨hfits, fun p hp => (holdsValue_iff h hreturned ht hp).mpr (harrive p hp)⟩

end

/-! ### Statements -/

/-- The names that the values of a statement are for. -/
def valueColumns (e : StorageEngine) (table : Str) (columns : List Str) : List Str :=
  if columns.isEmpty then ((e.getSchema table).elim [] (·.columns)).map (·.name) else columns

/-- The row that is planned for the expressions of one row. -/
def plannedRow (names : List Str) (exprs : List Expression) : Row :=
  AIPlanner.insertRow names (exprs.map Parser.literalField)

/-- Each row of the statement is inserted in its turn, and in the end the version that was made of it is in
the table and holds its values. -/
def InsertsValues (e e' : StorageEngine) (table : Str) (names : List Str)
    (rows : List (List Expression)) : Prop :=
  ∀ schema, e.tables[e.resolveTableName table]? = some schema →
    ∀ pre exprs post, rows = pre ++ exprs :: post → ∃ e₁ returned e₂ t,
      (insertEach table (pre.map (plannedRow names))).run e = (.ok (), e₁) ∧
      (insertWithTxn table (plannedRow names exprs)).run e₁ = (.ok returned, e₂) ∧
      HoldsVersion e' (e.resolveTableName table) returned t ∧
      HoldsValues schema.columns names exprs t

/-- The values of every row of the statement arrive. -/
def StatementArrives (e : StorageEngine) (table : Str) (names : List Str)
    (rows : List (List Expression)) : Prop :=
  ∀ schema, e.tables[e.resolveTableName table]? = some schema →
    ∀ exprs ∈ rows, ValuesArrive schema.columns names exprs

/-- A sequence of inserts that succeeds. -/
theorem insertsValues_iff {e e' : StorageEngine} {table : Str} {names : List Str}
    {rows : List (List Expression)}
    (hrun : (insertEach table (rows.map (plannedRow names))).run e = (.ok (), e')) :
    InsertsValues e e' table names rows ↔ StatementArrives e table names rows := by
  refine forall_congr' fun schema => imp_congr_right fun hschema => ?_
  -- The version of one row, and what its values have to do with it.
  have hrow {pre post : List (List Expression)} {exprs} (hrows : rows = pre ++ exprs :: post) :
      ∃ e₁ returned e₂ t,
      (insertEach table (pre.map (plannedRow names))).run e = (.ok (), e₁) ∧
      (insertWithTxn table (plannedRow names exprs)).run e₁ = (.ok returned, e₂) ∧
      HoldsVersion e' (e.resolveTableName table) returned t ∧
      (HoldsValues schema.columns names exprs t ↔ ValuesArrive schema.columns names exprs) := by
    rw [hrows, List.map_append, List.map_cons] at hrun
    obtain ⟨e₁, returned, e₂, hpre, hinsert, t, hversion⟩ := inserted_of_insertEach hrun
    refine ⟨e₁, returned, e₂, t, hpre, hinsert, hversion, ?_⟩
    obtain ⟨schema₁, validated, xid, cid, hschema₁, hvalidated, hreturned⟩ :=
      (inserts_of_run hinsert).row
    have hkeeps := keepsVersions_insertEach hpre
    have hcolumns := hkeeps.columns (e.resolveTableName table)
    rw [hkeeps.resolve] at hschema₁
    rw [hschema₁, hschema] at hcolumns
    have hbusiness : business returned = business validated := by
      rw [hreturned, business_stamp, business_insert_system rfl]
    obtain ⟨id, m, -, -, ht, -⟩ := hversion
    rw [← Option.some.inj hcolumns]
    exact holdsValues_iff hvalidated hbusiness ht
  constructor
  · intro h exprs hmem
    obtain ⟨pre, post, hrows⟩ := List.append_of_mem hmem
    obtain ⟨e₁, returned, e₂, t, hpre, hinsert, hversion, hholds⟩ := h pre exprs post hrows
    obtain ⟨e₁', returned', e₂', t', hpre', hinsert', hversion', hiff⟩ := hrow hrows
    cases hpre.symm.trans hpre'
    cases hinsert.symm.trans hinsert'
    cases hversion.unique hversion'
    exact hiff.mp hholds
  · intro h pre exprs post hrows
    obtain ⟨e₁, returned, e₂, t, hpre, hinsert, hversion, hiff⟩ := hrow hrows
    refine ⟨e₁, returned, e₂, t, hpre, hinsert, hversion, hiff.mpr (h exprs ?_)⟩
    rw [hrows]
    exact List.mem_append_right _ List.mem_cons_self

/-- Where the grammar of INSERT reads its parts, the statement is parsed from them. -/
theorem parseStatement_insert {s s₁ : Parser} {table : Str} {columns : List Str}
    {rows : List (List Expression)}
    (h : Parser.parseInsertParts.run s = (.ok (table, columns, rows), s₁)) :
    Parser.parseStatement.run s =
      (.ok (.rows (.insert ⟨table, columns, rows.map (·.map Parser.literalField)⟩)), s₁) := by
  have hinsert : Parser.parseInsert.run s =
      (.ok (.rows (.insert ⟨table, columns, rows.map (·.map Parser.literalField)⟩)), s₁) := by
    rw [Parser.parseInsert, Prog.bind_ok h]
    rfl
  obtain ⟨t, s', hexpect, -⟩ := Prog.exists_of_bind_ok h
  obtain ⟨next, hpeek, htype⟩ := Parser.exists_of_expect hexpect
  rw [Parser.parseStatement, Prog.bind_ok hpeek, htype]
  exact hinsert

/-- The plan of a statement is the sequence of its inserts. -/
theorem run_insertEach {table : Str} {columns : List Str} {rows : List (List Expression)}
    {e e' : StorageEngine} {strategy : Str} {rs : ResultSet}
    (h : (PipelineExecutor.executePipeline (AIPlanner.buildPipeline e (.insert
      ⟨table, columns, rows.map (·.map Parser.literalField)⟩) strategy)).run e = (.ok rs, e')) :
    (insertEach table (rows.map (plannedRow (valueColumns e table columns)))).run e =
      (.ok (), e') := by
  obtain ⟨⟨⟩, e₁, hinserts, hpure⟩ := Prog.exists_of_bind_ok h
  cases hpure
  rw [List.map_map] at hinserts
  exact hinserts

/-- A parsed INSERT that is run without an error stores what its expressions evaluate to if and only if
they arrive. -/
theorem insertsValues_iff_arrives {s s₁ s₂ : Parser} {table : Str} {columns : List Str}
    {rows : List (List Expression)} {stmt : InsertStmt} {e e' : StorageEngine} {strategy : Str}
    {rs : ResultSet} (hparts : Parser.parseInsertParts.run s = (.ok (table, columns, rows), s₁))
    (hparse : Parser.parseStatement.run s = (.ok (.rows (.insert stmt)), s₂))
    (hrun : (PipelineExecutor.executePipeline
      (AIPlanner.buildPipeline e (.insert stmt) strategy)).run e = (.ok rs, e')) :
    InsertsValues e e' table (valueColumns e table columns) rows ↔
      StatementArrives e table (valueColumns e table columns) rows := by
  rw [parseStatement_insert hparts] at hparse
  cases hparse
  exact insertsValues_iff (run_insertEach hrun)

def oneValue : List (List Expression) := [[.literal (.int 1)]]

def tokensOf (text : String) : List Token := (Lexer.tokenize (str text)).toOption.getD []

/-- The engine after the statement is planned and run. -/
def afterStatement (e : StorageEngine) (stmt : InsertStmt) : StorageEngine :=
  ((PipelineExecutor.executePipeline (AIPlanner.buildPipeline e (.insert stmt) (str "insert"))).run e).2

theorem insertsValues_oneValue : InsertsValues emptyTableEngine
    (afterStatement emptyTableEngine ⟨str "t", [], [[.int 1]]⟩) (str "t")
    (valueColumns emptyTableEngine (str "t") []) oneValue := by
  have hparts : (Parser.parseInsertParts.run ⟨tokensOf "INSERT INTO t VALUES (1)", 0⟩).1.toOption =
      some (str "t", [], oneValue) := by decide +kernel
  have hparse := parseStatement_insert (Prog.run_of_toOption hparts)
  have hok : ((PipelineExecutor.executePipeline (AIPlanner.buildPipeline emptyTableEngine
      (.insert ⟨str "t", [], [[.int 1]]⟩) (str "insert"))).run emptyTableEngine).1.toOption.isSome := by
    decide +kernel
  obtain ⟨rs, hrs⟩ := Option.isSome_iff_exists.mp hok
  refine (insertsValues_iff_arrives (Prog.run_of_toOption hparts) hparse
    (Prog.run_of_toOption hrs)).mpr fun schema hschema exprs hexprs => ?_
  obtain rfl := List.mem_singleton.mp hexprs
  have htable : (emptyTableEngine.tables[emptyTableEngine.resolveTableName (str "t")]?).map
      TableSchema.columns = some keyedColumns := by decide +kernel
  have hnames : valueColumns emptyTableEngine (str "t") [] = [str "a"] := by decide +kernel
  have hcolumns : some schema.columns = some keyedColumns :=
    (congrArg (Option.map TableSchema.columns) hschema).symm.trans htable
  rw [Option.some.inj hcolumns, hnames]
  refine ⟨by decide, fun p hp => ?_⟩
  obtain rfl := List.mem_singleton.mp hp
  refine ⟨by decide +kernel, fun last col hlast hcol => ?_⟩
  cases hlast
  rfl

/-- One sum in parentheses. -/
def oneSum : List (List Expression) := [[.binary .add (.literal (.int 1)) (.literal (.int 1))]]

/-- The sum is stored as NULL. -/
theorem not_insertsValues_oneSum : ∃ s s₁ stmt rs e', Session.Reached (fun _ _ => True) s ∧
    Parser.parseInsertParts.run ⟨tokensOf "INSERT INTO t VALUES ((1 + 1))", 0⟩ =
      (.ok (str "t", [], oneSum), s₁) ∧
    Parser.parseStatement.run ⟨tokensOf "INSERT INTO t VALUES ((1 + 1))", 0⟩ =
      (.ok (.rows (.insert stmt)), s₁) ∧
    (PipelineExecutor.executePipeline (AIPlanner.buildPipeline s.engine (.insert stmt)
      (str "insert"))).run s.engine = (.ok rs, e') ∧
    ¬ InsertsValues s.engine e' (str "t") (valueColumns s.engine (str "t") []) oneSum := by
  have hparts : (Parser.parseInsertParts.run
      ⟨tokensOf "INSERT INTO t VALUES ((1 + 1))", 0⟩).1.toOption = some (str "t", [], oneSum) := by
    decide +kernel
  have hparse := parseStatement_insert (Prog.run_of_toOption hparts)
  have hok : ((PipelineExecutor.executePipeline (AIPlanner.buildPipeline emptyTableEngine
      (.insert ⟨str "t", [], [[.null]]⟩) (str "insert"))).run emptyTableEngine).1.toOption.isSome := by
    decide +kernel
  obtain ⟨rs, hrs⟩ := Option.isSome_iff_exists.mp hok
  have hrun := Prog.run_of_toOption hrs
  refine ⟨_, _, _, rs, _, Session.reached_calls (.start 0 0) [.createTable (str "t") keyedColumns],
    Prog.run_of_toOption hparts, hparse, hrun, fun h => ?_⟩
  have harrives := (insertsValues_iff (run_insertEach hrun)).mp h
  have htable : (emptyTableEngine.tables[emptyTableEngine.resolveTableName (str "t")]?).map
      TableSchema.columns = some keyedColumns := by decide +kernel
  obtain ⟨schema, hschema, hcolumns⟩ := Option.map_eq_some_iff.mp htable
  have hvalues := harrives schema hschema _ (List.mem_singleton_self _)
  rw [hcolumns] at hvalues
  have hwritten := (hvalues.arrive (str "a", .binary .add (.literal (.int 1)) (.literal (.int 1)))
    (by decide +kernel)).written _ ⟨str "a", .integer, true, false, none⟩ rfl rfl
  cases hwritten

end JiaMiaoDB
