import JiaMiaoDB.Storage.Durable
import JiaMiaoDB.Storage.RowReplay

/-!
# Recovering definitions

Databases, schemas, users and tables after a crash. A call that creates a user or drops a database
with tables survives only when it ends with a checkpoint, and no default value of a column does.
-/

set_option autoImplicit false

namespace JiaMiaoDB
open ByteFormat

/-- What a schema says apart from its row count. -/
def TableSchema.definition (t : TableSchema) : Str × List ColumnDef := (t.name, t.columns)

def WithoutDefaults (columns : List ColumnDef) : Prop := ∀ c ∈ columns, c.defaultValue = none

theorem WithoutDefaults.map_eq {columns : List ColumnDef} (h : WithoutDefaults columns) :
    columns.map ColumnDef.withoutDefault = columns := by
  have : columns.map ColumnDef.withoutDefault = columns.map id := by
    refine List.map_congr_left fun c hc => ?_
    rw [ColumnDef.withoutDefault, ← h c hc]
    rfl
  rw [this, List.map_id]

namespace StorageEngine
variable {e e' e₁ : StorageEngine} {q name : Str} {columns : List ColumnDef}

/-- Equal databases with their schemas, users with their passwords, and tables with their columns. -/
structure SameDefinitions (e e' : StorageEngine) : Prop where
  databases : e'.catalog.databases = e.catalog.databases
  users : e'.catalog.users = e.catalog.users
  tables : ∀ q : Str, (e'.tables[q]?).map TableSchema.definition =
    (e.tables[q]?).map TableSchema.definition

/-- An engine that has seen only definitions. -/
structure Blank (e : StorageEngine) : Prop where
  schema : ∀ (q : Str) (t : TableSchema), e.tables[q]? = some t →
    t.name = q ∧ WithoutDefaults t.columns
  data : ∀ q : Str, e.data[q]? = (e.tables[q]?).map fun _ => MemTable.create q
  regular : e.catalog.Regular
  wal : e.wal.seq = e.walSeq

theorem Blank.setCatalog (h : Blank e) {c : Catalog} (hc : c.Regular) : Blank (e.setCatalog c) :=
  ⟨h.schema, h.data, hc, h.wal⟩

theorem Blank.logged (h : Blank e) (op : WalOp) (table : Str) (payload : Bytes) :
    Blank (logged op table payload e) := ⟨h.schema, h.data, h.regular, rfl⟩

theorem Blank.created (h : Blank e) (hdef : WithoutDefaults columns) (q : Str) :
    Blank (created q columns e) where
  schema k t ht := by
    simp only [StorageEngine.created, resetTable, Std.ExtTreeMap.getElem?_insert] at ht
    split at ht
    · rename_i hk
      cases ht
      exact ⟨Std.LawfulEqOrd.eq_of_compare hk, hdef⟩
    · exact h.schema k t ht
  data k := by
    simp only [StorageEngine.created, resetTable, Std.ExtTreeMap.getElem?_insert,
      Std.LawfulEqCmp.compare_eq_iff_eq]
    split
    · rename_i hk
      rw [hk]
      rfl
    · exact h.data k
  regular := h.regular
  wal := h.wal

theorem Blank.eraseTable (h : Blank e) (q : Str) : Blank (eraseTable q e) where
  schema k t ht := by
    simp only [StorageEngine.eraseTable, Std.ExtTreeMap.getElem?_erase] at ht
    split at ht
    · cases ht
    · exact h.schema k t ht
  data k := by
    simp only [StorageEngine.eraseTable, Std.ExtTreeMap.getElem?_erase]
    split
    · rfl
    · exact h.data k
  regular := h.regular
  wal := h.wal

theorem Blank.eraseTables (h : Blank e) (names : List Str) :
    Blank (names.foldl (fun e t => StorageEngine.eraseTable t e) e) := by
  induction names generalizing e with
  | nil => exact h
  | cons t names ih => exact ih (h.eraseTable t)

/-! ### One call -/

/-- A call has logged one record; where `kept` holds, replaying it does what the call did. -/
structure LoggedCall (e : StorageEngine) (kept : Prop) (e₁ : StorageEngine) : Prop where
  blank : Blank e₁
  appends : ∃ r, Appends e r e₁ ∧ (kept → ∀ e', SameDefinitions e e' →
    ∃ e₁', (replayRecord r).run e' = (.ok (), e₁') ∧ SameDefinitions e₁ e₁')

theorem run_catalogBody_ok {call : CatalogM Unit} {op : WalOp} {payload : Bytes}
    (h : (catalogBody call op name payload).run e = (.ok (), e₁)) :
    ∃ c', call.run e.catalog = (.ok (), c') ∧ e.walSeq ≠ Int64.maxValue ∧
      e₁ = logged op name payload (e.setCatalog c') := by
  rw [catalogBody, Prog.run_bind, inCatalog, Prog.zoom] at h
  rcases hcall : call.run e.catalog with ⟨f | ⟨⟩, c'⟩ <;> simp only [hcall] at h
  · cases h
  · by_cases hmax : e.walSeq = Int64.maxValue
    · rw [run_writeWal_max (e := e.setCatalog c') hmax] at h
      cases h
    · rw [run_writeWal (e := e.setCatalog c') hmax] at h
      cases h
      exact ⟨c', rfl, hmax, rfl⟩

theorem run_inCatalog {call : CatalogM Unit} {c' : Catalog}
    (h : call.run e.catalog = (.ok (), c')) :
    (inCatalog call).run e = (.ok (), e.setCatalog c') := by
  simp only [inCatalog, Prog.zoom, h]

theorem appends_logged {op : WalOp} {payload : Bytes} (hmax : e.walSeq ≠ Int64.maxValue)
    (hname : name.length < 2 ^ 16) (hpayload : payload.length < 2 ^ 32)
    {e₀ : StorageEngine} (hdir : e₀.dir = e.dir) (hseq : e₀.walSeq = e.walSeq) :
    Appends e ⟨e.walSeq + 1, e₀.clock, op.toTag, name, 0, payload⟩ (logged op name payload e₀) where
  dir := by
    simp only [logged, hdir, hseq]
  fits := ⟨hname, hpayload⟩
  free := hmax
  seq := rfl
  walSeq := by
    simp only [logged, hseq]
    exact Int64.le_refl _

theorem SameDefinitions.congr (h : SameDefinitions e e') {e₂ e₃ : StorageEngine}
    (hcat : e₂.catalog.databases = e₃.catalog.databases) (husers : e₂.catalog.users = e₃.catalog.users)
    (htables : e₂.tables = e.tables) (htables' : e₃.tables = e'.tables) : SameDefinitions e₂ e₃ where
  databases := hcat.symm
  users := husers.symm
  tables q := by
    rw [htables, htables']
    exact h.tables q

theorem loggedCall_createDatabase (h : Blank e) (hname : name.length < 2 ^ 16)
    (hrun : (createDatabaseBody name).run e = (.ok (), e₁)) : LoggedCall e True e₁ := by
  obtain ⟨c', hcall, hmax, rfl⟩ := run_catalogBody_ok hrun
  obtain ⟨hnot, rfl⟩ := Catalog.run_createDatabase.1 hcall
  refine ⟨(h.setCatalog (h.regular.insert (by simp [Catalog.publicOnly]))).logged _ _ _, _,
    appends_logged hmax hname (by decide) rfl rfl, fun _ e' he' => ?_⟩
  refine ⟨_, run_inCatalog (Catalog.run_ensureDatabase e'.catalog name), ?_⟩
  refine he'.congr ?_ he'.users.symm rfl rfl
  have hgetD : e.catalog.databases.getD name Catalog.publicOnly = Catalog.publicOnly :=
    Std.ExtTreeMap.getD_eq_fallback hnot
  simp only [logged, setCatalog, Catalog.addSchemas, List.foldl_nil, he'.databases, hgetD]

theorem loggedCall_createSchema {schema : Str} (h : Blank e) (hname : name.length < 2 ^ 16)
    (hschema : schema.length < 2 ^ 16)
    (hrun : (createSchemaBody name schema).run e = (.ok (), e₁)) : LoggedCall e True e₁ := by
  obtain ⟨c', hcall, hmax, rfl⟩ := run_catalogBody_ok hrun
  obtain ⟨schemas, hget, hnot, rfl⟩ := Catalog.run_createSchema.1 hcall
  have hpublic : str "public" ∈ schemas.insert schema :=
    Std.ExtTreeSet.mem_insert.2 (.inr (h.regular.hasPublic name schemas hget))
  have hpayload : (walEncodeCreateSchema schema).length < 2 ^ 32 := by
    rw [walEncodeCreateSchema, putPrefixed, List.length_append, length_putLE]
    omega
  refine ⟨(h.setCatalog (h.regular.insert hpublic)).logged _ _ _, _,
    appends_logged hmax hname hpayload rfl rfl, fun _ e' he' => ?_⟩
  have hmem : name ∈ e'.catalog.databases := by
    rw [he'.databases, Std.ExtTreeMap.mem_iff_isSome_getElem?, hget]
    rfl
  have hdecode : walDecodeCreateSchema (walEncodeCreateSchema schema) = some schema :=
    decodeAll_of_reads (Reads.prefixed () (n := 2) hschema)
  refine ⟨e'.setCatalog (e'.catalog.addSchemas name [schema]), ?_, ?_⟩
  · rw [replayRecord, WalOp.ofTag_toTag]
    simp only [hdecode]
    exact run_inCatalog (Catalog.run_ensureSchema schema hmem)
  · refine he'.congr ?_ he'.users.symm rfl rfl
    have hgetD : e.catalog.databases.getD name Catalog.publicOnly = schemas := by
      rw [Std.ExtTreeMap.getD_eq_getD_getElem?, hget]
      rfl
    simp only [logged, setCatalog, Catalog.addSchemas, List.foldl_cons, List.foldl_nil,
      he'.databases, hgetD]

theorem loggedCall_dropUser (h : Blank e) (hname : name.length < 2 ^ 16)
    (hrun : (dropUserBody name).run e = (.ok (), e₁)) : LoggedCall e True e₁ := by
  obtain ⟨c', hcall, hmax, rfl⟩ := run_catalogBody_ok hrun
  obtain ⟨hmem, rfl⟩ := Catalog.run_dropUser.1 hcall
  refine ⟨(h.setCatalog (h.regular.setUsers _)).logged _ _ _,
    _, appends_logged hmax hname (by decide) rfl rfl, fun _ e' he' => ?_⟩
  have hmem' : name ∈ e'.catalog.users := by rwa [he'.users]
  refine ⟨e'.setCatalog { e'.catalog with users := e'.catalog.users.erase name }, ?_, ?_⟩
  · rw [replayRecord, WalOp.ofTag_toTag]
    dsimp only
    rw [Prog.bind_ok (Prog.run_get e'), if_pos (by exact hmem')]
    exact run_inCatalog (Catalog.run_dropUser.2 ⟨hmem', rfl⟩)
  · refine he'.congr he'.databases.symm ?_ rfl rfl
    simp only [logged, setCatalog, he'.users]

/-- The record of a new user is not replayed. -/
theorem loggedCall_createUser {password salt : Str} (h : Blank e) (hname : name.length < 2 ^ 16)
    (hrun : (createUserBody name password salt).run e = (.ok (), e₁)) : LoggedCall e False e₁ := by
  obtain ⟨c', hcall, hmax, rfl⟩ := run_catalogBody_ok hrun
  obtain ⟨-, rfl⟩ := Catalog.run_createUser.1 hcall
  exact ⟨(h.setCatalog (h.regular.setUsers _)).logged _ _ _,
    _, appends_logged hmax hname (by decide) rfl rfl, False.elim⟩

/-- No table bears the database's name before its first dot. -/
def HoldsNoTable (e : StorageEngine) (database : Str) : Prop :=
  ∀ q ∈ e.tables, (database ++ str ".").isPrefixOf q = false

/-- The engine without the tables of the database. -/
def dropTables (database : Str) (e : StorageEngine) : StorageEngine :=
  (e.tables.keys.filter fun t => (database ++ str ".").isPrefixOf t).foldl (fun e t => eraseTable t e) e

theorem dropTables_frame (database : Str) (e : StorageEngine) :
    (dropTables database e).dir = e.dir ∧ (dropTables database e).walSeq = e.walSeq ∧
      (dropTables database e).catalog = e.catalog := by
  rw [dropTables]
  generalize e.tables.keys.filter (fun t => (database ++ str ".").isPrefixOf t) = names
  induction names generalizing e with
  | nil => exact ⟨rfl, rfl, rfl⟩
  | cons t names ih => exact ih (eraseTable t e)

theorem HoldsNoTable.dropTables {database : Str} (h : HoldsNoTable e database) :
    dropTables database e = e := by
  have hnil : e.tables.keys.filter (fun t => (database ++ str ".").isPrefixOf t) = [] :=
    List.filter_eq_nil_iff.2 fun t ht => by simp [h t (Std.ExtTreeMap.mem_keys.1 ht)]
  rw [StorageEngine.dropTables, hnil]
  rfl

theorem run_dropDatabaseBody_ok (h : (dropDatabaseBody name).run e = (.ok (), e₁)) :
    ∃ c', (Catalog.dropDatabase name).run e.catalog = (.ok (), c') ∧ e.walSeq ≠ Int64.maxValue ∧
      e₁ = logged .dropDatabase name walEncodeEmpty (dropTables name (e.setCatalog c')) := by
  rw [dropDatabaseBody, Prog.run_bind, inCatalog, Prog.zoom] at h
  rcases hcall : (Catalog.dropDatabase name).run e.catalog with ⟨f | ⟨⟩, c'⟩ <;>
    simp only [hcall] at h
  · cases h
  · rw [Prog.bind_ok (Prog.run_modify _ _)] at h
    change (writeWal .dropDatabase name walEncodeEmpty InvalidTransactionId).run
      (dropTables name (e.setCatalog c')) = _ at h
    obtain ⟨-, hseq, -⟩ := dropTables_frame name (e.setCatalog c')
    by_cases hmax : e.walSeq = Int64.maxValue
    · rw [run_writeWal_max (hseq.trans hmax)] at h
      cases h
    · rw [run_writeWal (fun he => hmax (hseq.symm.trans he))] at h
      cases h
      exact ⟨c', rfl, hmax, rfl⟩

theorem loggedCall_dropDatabase (h : Blank e) (hname : name.length < 2 ^ 16)
    (hrun : (dropDatabaseBody name).run e = (.ok (), e₁)) :
    LoggedCall e (HoldsNoTable e name) e₁ := by
  obtain ⟨c', hcall, hmax, rfl⟩ := run_dropDatabaseBody_ok hrun
  obtain ⟨hdefault, hmem, rfl⟩ := Catalog.run_dropDatabase.1 hcall
  set e₀ := e.setCatalog { e.catalog with
    currentDb := if e.catalog.currentDb = name then str "defaultdb" else e.catalog.currentDb
    databases := e.catalog.databases.erase name } with he₀
  have hblank : Blank e₀ := h.setCatalog (h.regular.drop hdefault)
  obtain ⟨hdir, hseq, hcat⟩ := dropTables_frame name e₀
  refine ⟨(hblank.eraseTables _).logged _ _ _, _,
    appends_logged hmax hname (by decide) hdir hseq, fun hnone e' he' => ?_⟩
  have hmem' : name ∈ e'.catalog.databases := by rwa [he'.databases]
  have hsame : dropTables name e₀ = e₀ := HoldsNoTable.dropTables (e := e₀) hnone
  refine ⟨e'.setCatalog { e'.catalog with
    currentDb := if e'.catalog.currentDb = name then str "defaultdb" else e'.catalog.currentDb
    databases := e'.catalog.databases.erase name }, ?_, ?_⟩
  · rw [replayRecord, WalOp.ofTag_toTag]
    dsimp only
    rw [Prog.bind_ok (Prog.run_get e'), if_pos (by exact hmem')]
    exact run_inCatalog (Catalog.run_dropDatabase.2 ⟨hdefault, hmem', rfl⟩)
  · rw [hsame]
    refine he'.congr ?_ he'.users.symm rfl rfl
    simp only [logged, he₀, setCatalog, he'.databases]

/-- The lengths of a table's record. -/
structure ColumnsFit (q : Str) (columns : List ColumnDef) : Prop where
  name : q.length < 2 ^ 16
  count : columns.length < 2 ^ 32
  names : ∀ c ∈ columns, c.name.length < 2 ^ 16
  payload : (walEncodeCreateTable columns).length < 2 ^ 32

theorem loggedCall_createTable (h : Blank e) (hfits : ColumnsFit (e.resolveTableName name) columns)
    (hdef : WithoutDefaults columns)
    (hrun : (createTableBody name columns).run e = (.ok (), e₁)) : LoggedCall e True e₁ := by
  have hdot := dot_mem_resolveTableName e name
  rw [createTableBody, Prog.bind_ok (Prog.run_get e)] at hrun
  dsimp only at hrun
  set q := e.resolveTableName name with hq
  by_cases hexists : e.tables.contains q = true
  · rw [if_pos hexists] at hrun
    cases hrun
  rw [if_neg hexists] at hrun
  by_cases hmax : e.walSeq = Int64.maxValue
  · rw [Prog.bind_error (run_writeWal_max hmax _ _ _ _)] at hrun
    cases hrun
  rw [Prog.bind_ok (run_writeWal hmax _ _ _ _), Prog.bind_ok (Prog.run_modify _ _),
    run_createKeyIndexes hdot] at hrun
  cases hrun
  refine ⟨(h.logged .createTable q (walEncodeCreateTable columns)).created hdef q, _, ?_,
    fun _ e' he' => ⟨_, run_replayCreateTable (r := ⟨e.walSeq + 1, e.clock,
      WalOp.createTable.toTag, q, 0, walEncodeCreateTable columns⟩) rfl rfl hfits.count hfits.names
      hdot, ?_⟩⟩
  · exact ⟨rfl, ⟨hfits.name, hfits.payload⟩, hmax, rfl, Int64.le_refl _⟩
  · rw [hdef.map_eq]
    refine ⟨he'.databases, he'.users, fun k => ?_⟩
    simp only [created, resetTable, Std.ExtTreeMap.getElem?_insert]
    split
    · rfl
    · exact he'.tables k

theorem loggedCall_dropTable (h : Blank e) (hname : (e.resolveTableName name).length < 2 ^ 16)
    (hrun : (dropTableBody name).run e = (.ok (), e₁)) : LoggedCall e True e₁ := by
  rw [dropTableBody, Prog.bind_ok (Prog.run_get e)] at hrun
  dsimp only at hrun
  set q := e.resolveTableName name with hq
  by_cases hexists : e.tables.contains q = true
  · rw [if_pos hexists] at hrun
    by_cases hmax : e.walSeq = Int64.maxValue
    · rw [Prog.bind_error (run_writeWal_max hmax _ _ _ _)] at hrun
      cases hrun
    rw [Prog.bind_ok (run_writeWal hmax _ _ _ _), Prog.run_modify] at hrun
    cases hrun
    refine ⟨(h.logged .dropTable q walEncodeEmpty).eraseTable q, ⟨e.walSeq + 1, e.clock,
      WalOp.dropTable.toTag, q, 0, walEncodeEmpty⟩, ⟨rfl, ⟨hname, by simp [walEncodeEmpty]⟩, hmax, rfl,
      Int64.le_refl _⟩, fun _ e' he' => ⟨eraseTable q e', ?_, he'.databases, he'.users, fun k => ?_⟩⟩
    · rw [replayRecord, WalOp.ofTag_toTag]
      rfl
    · simp only [eraseTable, Std.ExtTreeMap.getElem?_erase]
      split
      · rfl
      · exact he'.tables k
  · rw [if_neg hexists] at hrun
    cases hrun

/-! ### Checkpoints -/

theorem Blank.named (h : Blank e) : e.Named where
  tables q t ht := (h.schema q t ht).1
  domain q hq := by
    rw [Std.ExtTreeMap.mem_iff_isSome_getElem?] at hq ⊢
    rw [h.data, Option.isSome_map]
    exact hq

theorem Blank.rowsOf_eq (h : Blank e) {ckp : Checkpoint} (hckp : TakenFrom e ckp)
    (hq : q ∈ e.tables) : rowsOf ckp q = [] := by
  have hrows := hckp.rows q hq
  have hm : e.data[q]? = some (MemTable.create q) := by
    rw [h.data, Std.ExtTreeMap.getElem?_eq_some_getElem hq]
    rfl
  rw [tableCheckpoint, hm] at hrows
  simp only [checkpointRows, materializeAll, MemTable.scanAll_create, List.mapM_nil] at hrows
  exact (congrArg Prod.snd (Except.ok.inj hrows)).symm

theorem Blank.restorable (h : Blank e) {ckp : Checkpoint} (hckp : e.toCheckpoint = .ok ckp)
    (hfits : FitsCheckpoint e) :
    Restorable ckp e.catalog.reopened e.txnMgr.clog fun _ => [] := by
  have htaken := takenFrom_toCheckpoint hckp
  have hempty : ∀ t ∈ ckp.tables, rowsOf ckp t.name = [] := fun t ht => by
    rw [htaken.tables] at ht
    refine h.rowsOf_eq htaken ?_
    rw [Std.ExtTreeMap.mem_iff_isSome_getElem?, h.named.mem_values.1 ht]
    rfl
  constructor
  · rw [htaken.catalogBytes]
    exact catalogEncode_ne_nil e.catalog
  · rw [htaken.catalogBytes]
    exact catalogDecode_reopened hfits.catalog h.regular
  · exact htaken.clogBytes
  · have := (hfits.file ckp hckp).clogBytes
    rw [htaken.clogBytes] at this
    exact Nat.lt_of_le_of_lt (size_le_length_clogEncode e.txnMgr.clog) this
  · rw [htaken.tables, h.named.map_values]
    exact Std.ExtTreeMap.nodup_keys
  · intro t ht
    rw [hempty t ht]
    rfl
  · have hzero : rowCountOf ckp ckp.tables = 0 := by
      rw [rowCountOf, List.sum_eq_zero_iff_forall_eq_nat]
      intro n hn
      obtain ⟨t, ht, rfl⟩ := List.mem_map.1 hn
      rw [hempty t ht]
      rfl
    rw [hzero]
    simpa using ckp.lastSeq.toInt_lt

theorem Blank.sameDefinitions (h : Blank e) {ckp : Checkpoint} (hckp : TakenFrom e ckp)
    (hres : Restored ckp.reloaded e.catalog.reopened e.txnMgr.clog (fun _ => []) e') :
    SameDefinitions e e' where
  databases := by rw [hres.catalog]; rfl
  users := by rw [hres.catalog]; rfl
  tables q := by
    have htables : ckp.reloaded.tables = e.tables.values.map TableSchema.withoutDefaults := by
      rw [← hckp.tables]
      rfl
    cases ht : e.tables[q]? with
    | none =>
      have hnot : q ∉ ckp.reloaded.tables.map TableSchema.name := by
        rw [htables, names_withoutDefaults, h.named.map_values, Std.ExtTreeMap.mem_keys,
          Std.ExtTreeMap.mem_iff_isSome_getElem?, ht]
        exact Bool.false_ne_true
      rw [(hres.others q hnot).tables]
    | some t =>
      obtain ⟨rfl, hdef⟩ := h.schema q t ht
      have hmem : t.withoutDefaults ∈ ckp.reloaded.tables := by
        rw [htables]
        exact List.mem_map.2 ⟨t, h.named.mem_values.2 ht, rfl⟩
      have := (hres.table t.withoutDefaults hmem).schema
      rw [show t.withoutDefaults.name = t.name from rfl] at this
      rw [this, Option.map_some, Option.map_some, TableSchema.definition, TableSchema.withoutDefaults,
        hdef.map_eq]
      rfl

theorem Blank.checkpoint {lastSeq : Int64} {records : List WALRecordV3} (h : Blank e)
    (hlog : LogHolds e lastSeq records) (hfits : FitsCheckpoint e)
    (hrun : checkpoint.run e = (.ok (), e₁)) : Blank e₁ ∧ Durable SameDefinitions e₁ := by
  cases hckp : e.toCheckpoint with
  | error f =>
    rw [run_checkpoint, hckp] at hrun
    cases hrun
  | ok ckp =>
    have htaken := takenFrom_toCheckpoint hckp
    have hdurable := Durable.checkpoint (S := SameDefinitions) hlog hckp (hfits.file ckp hckp)
      (h.restorable hckp hfits) h.wal fun e₀ hres => by
        rw [run_checkpoint_covered hckp hlog]
        exact (h.sameDefinitions htaken hres).congr (h.sameDefinitions htaken hres).databases.symm
          (h.sameDefinitions htaken hres).users.symm rfl rfl
    rw [hrun] at hdurable
    refine ⟨?_, hdurable⟩
    rw [run_checkpoint_covered hckp hlog] at hrun
    cases hrun
    exact ⟨h.schema, h.data, h.regular, rfl⟩

end StorageEngine

/-! ### Runs -/

open StorageEngine

/-- The calls about databases, schemas, users and tables; the current database may change and time
passes between them. -/
def Call.ddl : Call → Bool
  | createDatabase _ | dropDatabase _ | createSchema _ _ | createUser _ _ _ | dropUser _
  | createTable _ _ | dropTable _ | setCurrentDb _ | setClock _ => true
  | _ => false

/-- The call ends with a checkpoint. -/
def Call.Saves (e : StorageEngine) (c : Call) : Prop :=
  c.checksCheckpoint = true ∧ (c.body.run e).2.checkpointDue = true

/-- The lengths of the call's record fit. -/
def Call.FitsLog (e : StorageEngine) : Call → Prop
  | createDatabase name | dropDatabase name | createUser name _ _ | dropUser name =>
    name.length < 2 ^ 16
  | createSchema dbName schemaName => dbName.length < 2 ^ 16 ∧ schemaName.length < 2 ^ 16
  | createTable name columns => ColumnsFit (e.resolveTableName name) columns
  | dropTable name => (e.resolveTableName name).length < 2 ^ 16
  | _ => True

/-- The call's record alone brings its effect back. -/
def Call.Replayed (e : StorageEngine) : Call → Prop
  | createUser _ _ _ => False
  | dropDatabase name => HoldsNoTable e name
  | _ => True

def Call.Defaultless : Call → Prop
  | createTable _ columns => WithoutDefaults columns
  | _ => True

/-- What a call about definitions must meet to survive a crash after it. -/
structure Call.Recoverable (e : StorageEngine) (c : Call) : Prop where
  fitsLog : c.FitsLog e
  defaultless : c.Defaultless
  kept : c.Replayed e ∨ c.Saves e
  fitsCheckpoint : c.Saves e → FitsCheckpoint (c.body.run e).2

/-- The engines that successful calls about definitions with `P` reach from an empty directory. -/
inductive Defined (P : StorageEngine → Call → Prop) : StorageEngine → Prop
  | create (checkpointInterval : Int32) (clock : Int64) :
    Defined P (create Disk.empty checkpointInterval clock)
  | call {e e₁ : StorageEngine} {c : Call} (h : Defined P e) (hddl : c.ddl = true) (hP : P e c)
    (hrun : c.exec.run e = (.ok (), e₁)) : Defined P e₁

/-- A call that logs nothing leaves the files alone; the others log one record. -/
theorem body_ddl {e e₁ : StorageEngine} {c : Call} (h : Blank e) (hddl : c.ddl = true)
    (hc : c.Recoverable e) (hrun : c.body.run e = (.ok (), e₁)) :
    LoggedCall e (c.Replayed e) e₁ ∨ (c.checksCheckpoint = false ∧ Blank e₁ ∧ e₁.dir = e.dir ∧
      e₁.walSeq = e.walSeq ∧ ∀ e', SameDefinitions e e' → SameDefinitions e₁ e') := by
  cases c with
  | createDatabase name => exact .inl (loggedCall_createDatabase h hc.fitsLog hrun)
  | dropDatabase name => exact .inl (loggedCall_dropDatabase h hc.fitsLog hrun)
  | createSchema db schema =>
    exact .inl (loggedCall_createSchema h hc.fitsLog.1 hc.fitsLog.2 hrun)
  | createUser name password salt => exact .inl (loggedCall_createUser h hc.fitsLog hrun)
  | dropUser name => exact .inl (loggedCall_dropUser h hc.fitsLog hrun)
  | createTable name columns =>
    exact .inl (loggedCall_createTable h hc.fitsLog hc.defaultless hrun)
  | dropTable name => exact .inl (loggedCall_dropTable h hc.fitsLog hrun)
  | setCurrentDb name =>
    right
    have hrun : (inCatalog (Catalog.setCurrentDatabase name)).run e = (.ok (), e₁) := hrun
    rw [inCatalog, Prog.zoom] at hrun
    rcases hcall : (Catalog.setCurrentDatabase name).run e.catalog with ⟨f | ⟨⟩, c'⟩ <;>
      simp only [hcall] at hrun <;> cases hrun
    obtain ⟨hmem, rfl⟩ := Catalog.run_setCurrentDatabase.1 hcall
    exact ⟨rfl, h.setCatalog ⟨h.regular.defaultdb, h.regular.hasPublic, hmem⟩, rfl, rfl,
      fun e' he' => he'.congr he'.databases.symm he'.users.symm rfl rfl⟩
  | setClock clock =>
    right
    cases hrun
    exact ⟨rfl, ⟨h.schema, h.data, h.regular, h.wal⟩, rfl, rfl,
      fun e' he' => ⟨he'.databases, he'.users, he'.tables⟩⟩
  | _ => exact Bool.noConfusion hddl

theorem exec_ddl {e e₁ : StorageEngine} {c : Call} (h : Blank e) (hd : Durable SameDefinitions e)
    (hddl : c.ddl = true) (hc : c.Recoverable e) (hrun : c.exec.run e = (.ok (), e₁)) :
    Blank e₁ ∧ Durable SameDefinitions e₁ := by
  rw [Call.exec_eq] at hrun
  by_cases hcheck : c.checksCheckpoint = true
  · rw [if_pos hcheck, run_thenCheckpoint] at hrun
    rcases hbody : c.body.run e with ⟨f | ⟨⟩, e₂⟩ <;> rw [hbody] at hrun
    · cases hrun
    obtain ⟨hblank, r, happends, hreplay⟩ :=
      (body_ddl h hddl hc hbody).resolve_right fun hno => by simp [hcheck] at hno
    simp only at hrun
    rw [maybeCheckpoint, Prog.bind_ok (Prog.run_get e₂)] at hrun
    by_cases hdue : e₂.checkpointDue = true
    · rw [if_pos hdue] at hrun
      have hsaves : c.Saves e := ⟨hcheck, by rw [hbody]; exact hdue⟩
      have hfits := hc.fitsCheckpoint hsaves
      rw [hbody] at hfits
      obtain ⟨lastSeq, records, hlog, -⟩ := hd
      exact hblank.checkpoint (hlog.append happends) hfits hrun
    · rw [if_neg hdue] at hrun
      cases hrun
      refine ⟨hblank, hd.append happends (hreplay (hc.kept.resolve_right fun hsaves => hdue ?_))⟩
      rw [← hsaves.2, hbody]
  · rw [if_neg hcheck] at hrun
    rcases body_ddl h hddl hc hrun with ⟨hblank, r, happends, hreplay⟩ | ⟨-, hblank, hdir, hseq, hS⟩
    · exact ⟨hblank, hd.append happends (hreplay (hc.kept.resolve_right fun hs => hcheck hs.1))⟩
    · exact ⟨hblank, hd.frame hdir hseq hS⟩

theorem Defined.durable {e : StorageEngine} (h : Defined (fun e c => c.Recoverable e) e) :
    Blank e ∧ Durable SameDefinitions e := by
  induction h with
  | create checkpointInterval clock =>
    refine ⟨⟨by simp [StorageEngine.create], by simp [StorageEngine.create],
      Catalog.regular_initial, rfl⟩, durable_create _ _ fun d i c w => ⟨rfl, rfl, fun q => rfl⟩⟩
  | call _ hddl hP hrun ih => exact exec_ddl ih.1 ih.2 hddl hP hrun

/-- A load after a crash finds every definition. -/
theorem load_defined {e : StorageEngine} (h : Defined (fun e c => c.Recoverable e) e)
    (checkpointInterval : Int32) (clock : Int64) :
    ∃ e', load.run (create e.dir.disk checkpointInterval clock) = (.ok (), e') ∧
      SameDefinitions e e' := h.durable.2.load checkpointInterval clock

def createT : Call := .createTable (str "t") [columnA]

def createU : Call := .createUser (str "u") (str "p") (str "s")

def createD : Call := .createDatabase (str "d")

/-- A checkpoint is due at every second number. -/
def definedEngine : StorageEngine := (createT.exec.run (create Disk.empty 2 0)).2

def savedUserEngine : StorageEngine := (createU.exec.run definedEngine).2

def databaseEngine : StorageEngine := (createD.exec.run savedUserEngine).2

theorem recoverable_createT : createT.Recoverable (create Disk.empty 2 0) where
  fitsLog :=
    have h := tableAllowed_oneColumn (q := (create Disk.empty 2 0).resolveTableName (str "t"))
      (by decide +kernel)
    ⟨h.short, h.count, h.names, h.payload⟩
  defaultless := by simp [createT, Call.Defaultless, WithoutDefaults, columnA]
  kept := .inl trivial
  fitsCheckpoint hsaves := absurd hsaves.2 (by decide +kernel)

/-- The user is in the checkpoint that ends the call. -/
theorem recoverable_createU : createU.Recoverable definedEngine where
  fitsLog := show (str "u").length < 2 ^ 16 by decide
  defaultless := trivial
  kept := .inr ⟨rfl, by decide +kernel⟩
  fitsCheckpoint _ :=
    { file := fun ckp hckp =>
        have h : (createU.body.run definedEngine).2.toCheckpoint.toOption.all
            (fun ckp => decide ckp.Fits) = true := by decide +kernel
        ExceptList.of_all_ok h hckp
      catalog := ⟨by decide +kernel, by decide +kernel, by decide +kernel, by decide +kernel,
        by decide +kernel⟩ }

theorem recoverable_createD : createD.Recoverable savedUserEngine where
  fitsLog := show (str "d").length < 2 ^ 16 by decide
  defaultless := trivial
  kept := .inl trivial
  fitsCheckpoint hsaves := absurd hsaves.2 (by decide +kernel)

/-- The user comes back from the checkpoint, the database from the log. -/
theorem load_databaseEngine : ∃ e', load.run (create databaseEngine.dir.disk 2 0) = (.ok (), e') ∧
    SameDefinitions databaseEngine e' := by
  have htable : createT.exec.run (create Disk.empty 2 0) = (.ok (), definedEngine) := by
    rw [definedEngine]
    exact Prog.run_of_toOption (by decide +kernel)
  have huser : createU.exec.run definedEngine = (.ok (), savedUserEngine) := by
    rw [savedUserEngine]
    exact Prog.run_of_toOption (by decide +kernel)
  have hdatabase : createD.exec.run savedUserEngine = (.ok (), databaseEngine) := by
    rw [databaseEngine]
    exact Prog.run_of_toOption (by decide +kernel)
  exact load_defined (.call (.call (.call (.create 2 0) rfl recoverable_createT htable) rfl
    recoverable_createU huser) rfl recoverable_createD hdatabase) 2 0

/-- An engine with one user. -/
def userEngine : StorageEngine :=
  ((Call.createUser (str "u") (str "p") (str "s")).exec.run (create Disk.empty 0 0)).2

/-- The user of a new engine without a checkpoint is gone after a crash. -/
theorem user_lost : ∃ e, Defined (fun _ _ => True) e ∧ ¬ ∀ checkpointInterval clock, ∃ e',
    load.run (create e.dir.disk checkpointInterval clock) = (.ok (), e') ∧ SameDefinitions e e' := by
  have hrun : (Call.createUser (str "u") (str "p") (str "s")).exec.run (create Disk.empty 0 0) =
      (.ok (), userEngine) := rfl
  refine ⟨userEngine, .call (.create 0 0) rfl trivial hrun, fun h => ?_⟩
  obtain ⟨e', hload, hsame⟩ := h 0 0
  set r : WALRecordV3 := ⟨1, 0, WalOp.createUser.toTag, str "u", 0, []⟩ with hr
  have hdisk : userEngine.dir.disk = { Disk.empty with walLog := encodeLog [r] } := rfl
  have hlog : (WriteAheadLogV3.replay ⟨0⟩ userEngine.dir.disk 0).1 = [r] := by
    rw [@WriteAheadLogV3.replay_encodeLog [r] (by decide) _ (.inl rfl) _
      (by rw [hdisk, List.append_nil])]
    rfl
  have hrun' := @run_load _ userEngine.dir.disk _ _ Checkpoint.empty rfl
    (run_restore_empty (create userEngine.dir.disk 0 0))
  rw [show Checkpoint.empty.lastSeq = 0 from rfl, hlog, hload] at hrun'
  have husers : e'.catalog.users = ∅ :=
    congrArg (fun p : Except Failure Unit × StorageEngine => p.2.catalog.users) hrun'
  have hmem : str "u" ∈ userEngine.catalog.users :=
    Std.ExtTreeMap.mem_insert_self (t := (∅ : StrMap UserInfo))
  rw [← hsame.users, husers] at hmem
  simp at hmem

end JiaMiaoDB
