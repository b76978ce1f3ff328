import JiaMiaoDB.Storage.Effects
import JiaMiaoDB.Storage.ManagerEffects
import JiaMiaoDB.Storage.ManagerFrame
import JiaMiaoDB.Storage.Restore

/-!
# Properties of the stored tuples

A property of tuples may depend on the columns of their table and on how far its row ids have been
handed out. It holds of all stored tuples when it holds of what is newly stored: rows that only get a
new stamp, rows that come back from an undo record and rows that a vacuum freezes have it already.
-/

set_option autoImplicit false

namespace JiaMiaoDB
open TransactionManager StorageEngine BinaryRowCodec

/-! ### Properties of tuples -/

/-- What the tuples of a table may depend on. The default values of the columns do not outlive a
checkpoint. -/
structure TableContext where
  present : Bool
  columns : List ColumnDef
  counter : Int64

namespace TableContext

/-- The same table, perhaps with more row ids handed out. -/
structure Le (c c' : TableContext) : Prop where
  present : c'.present = c.present
  columns : c'.columns = c.columns
  counter : c.counter ≤ c'.counter

theorem Le.refl (c : TableContext) : c.Le c := ⟨rfl, rfl, Int64.le_refl _⟩

end TableContext

/-- Whatever the row is stored as has the property. -/
def Admits (G : TableContext → Tuple → Prop) (c : TableContext) (id : Int64) (row : Row) : Prop :=
  ∀ q t, rowToTuple row (headerFromRow q id row) = .ok t → G c t

/-- The row id and the business columns decide whether a tuple has the property, and new row ids do
not matter. -/
structure TupleInvariant (G : TableContext → Tuple → Prop) : Prop where
  mono : ∀ {c c' : TableContext} {t : Tuple}, c.Le c' → G c t → G c' t
  restamp : ∀ {c : TableContext} {t : Tuple} {row row' : Row}, G c t → toRow t = .ok row →
    business row' = business row → Admits G c t.hdr.rowId.toInt64 row'

/-- The record puts its old row back. -/
def UndoRecord.Restores (r : UndoRecord) : Prop := ¬ (r.op = .insert ∨ r.oldRow.isEmpty = true)

instance (r : UndoRecord) : Decidable r.Restores := by
  unfold UndoRecord.Restores
  infer_instance

section Rows

theorem business_insert_system {row : Row} {k : Str} (hk : isSystemColumn k = true) (v : Value) :
    business (row.insert k v) = business row := by
  refine Std.ExtTreeMap.ext_getElem? fun k' => ?_
  rw [getElem?_business, getElem?_business]
  split
  · rfl
  · rename_i hk'
    rw [Std.ExtTreeMap.getElem?_insert, if_neg]
    intro he
    rw [← Std.LawfulEqOrd.eq_of_compare he] at hk'
    exact hk' hk

theorem business_stamp (row : Row) (xmin xmax : TransactionId) (cid : Int32) :
    business (stamp row xmin xmax cid) = business row := by
  rw [stamp, business_insert_system rfl, business_insert_system rfl, business_insert_system rfl]

theorem rowId_of_rowToTuple {q : Str} {id : Int64} {row : Row} {t : Tuple}
    (h : rowToTuple row (headerFromRow q id row) = .ok t) : t.hdr.rowId.toInt64 = id := by
  obtain ⟨bs, -, h⟩ := ExceptList.bind_ok_iff.mp h
  cases h
  exact Int64.toInt64_toUInt64 id

end Rows

/-! ### Tables -/

/-- Every version lies under its row id and has the property. -/
structure MemUpholds (G : TableContext → Tuple → Prop) (c : TableContext) (m : MemTable) : Prop where
  keyed : ∀ (k : InternalKey) (t : Tuple), m.entries[k]? = some t →
    k.userKey = makeUserKey m.name t.hdr.rowId.toInt64
  good : ∀ t ∈ m.scanAll, G c t

namespace MemUpholds
variable {G : TableContext → Tuple → Prop} {c : TableContext} {m : MemTable}

theorem create (name : Str) : MemUpholds G c (MemTable.create name) where
  keyed k t hk := by simp [MemTable.create] at hk
  good t ht := by simp at ht

theorem mono (hG : TupleInvariant G) (h : MemUpholds G c m) {c' : TableContext} (hc : c.Le c') :
    MemUpholds G c' m :=
  ⟨h.keyed, fun t ht => hG.mono hc (h.good t ht)⟩

theorem put (h : MemUpholds G c m) {q : Str} {id : Int64} {row : Row} {t : Tuple}
    (hrow : Admits G c id row) (ht : rowToTuple row (headerFromRow q id row) = .ok t) (seq : UInt64) :
    MemUpholds G c (m.put id t seq) := by
  have hnorm := normalize_rowToTuple ht
  constructor
  · intro k t' hk
    rcases MemTable.getElem?_put.mp hk with ⟨rfl, rfl⟩ | ⟨-, hk⟩
    · rw [hnorm, rowId_of_rowToTuple ht, MemTable.put_name]
    · exact h.keyed k t' hk
  · intro t' ht'
    obtain ⟨k, hk⟩ := MemTable.mem_scanAll.mp ht'
    rcases MemTable.getElem?_put.mp hk with ⟨-, rfl⟩ | ⟨-, hk⟩
    · rw [hnorm]
      exact hrow q t ht
    · exact h.good t' (MemTable.mem_scanAll.mpr ⟨k, hk⟩)

theorem eraseAllFor (h : MemUpholds G c m) (id : Int64) : MemUpholds G c (m.eraseAllFor id) := by
  constructor
  · intro k t hk
    exact h.keyed k t (MemTable.getElem?_eraseAllFor.mp hk).1
  · intro t ht
    obtain ⟨k, hk⟩ := MemTable.mem_scanAll.mp ht
    exact h.good t (MemTable.mem_scanAll.mpr ⟨k, (MemTable.getElem?_eraseAllFor.mp hk).1⟩)

/-- The newest version of a row is one of the row. -/
theorem latest (h : MemUpholds G c m) {id : Int64} {t : Tuple} (ht : m.getLatest id = some t) :
    G c t ∧ t.hdr.rowId.toInt64 = id := by
  obtain ⟨k, hk, hkey⟩ := MemTable.mem_getVersions.mp (List.mem_of_mem_head? ht)
  refine ⟨h.good t (MemTable.mem_scanAll.mpr ⟨k, hk⟩), ?_⟩
  exact makeUserKey_injective ((h.keyed k t hk).symm.trans hkey)

/-- A row that was read may be stored again, whatever its stamps become. -/
theorem restamp (hG : TupleInvariant G) (h : MemUpholds G c m) {rows : RowSet}
    (hrows : materializeAll m = .ok rows) {row row' : Row} (hrow : row ∈ rows)
    (hb : business row' = business row) {id : Int64} (hid : getRowId row = .ok id) :
    Admits G c id row' := by
  obtain ⟨t, ht, hread⟩ := (ExceptList.mem_of_mapM_ok hrows).mp hrow
  rw [getRowId_of_toRow hread] at hid
  cases hid
  exact hG.restamp (h.good t ht) hread hb

end MemUpholds

namespace StorageEngine

/-- What the tuples of the table may depend on, as it is now. -/
def tableContext (e : StorageEngine) (q : Str) : TableContext where
  present := e.data.contains q
  columns := ((e.tables[q]?).elim [] (·.columns)).map ColumnDef.withoutDefault
  counter := e.rowIds.getD q 0

/-- The tables are as `cur` says, and every stored tuple, and every row that an undo record can put
back, has the property in `ctx`. The two differ in the middle of a replayed insert only. -/
structure Upholds (G : TableContext → Tuple → Prop) (ctx cur : Str → TableContext)
    (e : StorageEngine) : Prop where
  now : e.tableContext = cur
  tables : ∀ (q : Str) (m : MemTable), e.data[q]? = some m → MemUpholds G (ctx q) m
  undo : ∀ r ∈ e.txnMgr.context.undoRecords, r.Restores → (ctx r.tableName).present = true →
    Admits G (ctx r.tableName) r.rowId r.oldRow
  named : ∀ (q : Str) (schema : TableSchema), e.tables[q]? = some schema → schema.name = q

/-- Between statements. -/
def Stored (G : TableContext → Tuple → Prop) (e : StorageEngine) : Prop :=
  Upholds G e.tableContext e.tableContext e

section Steps
variable {G : TableContext → Tuple → Prop} {ctx cur : Str → TableContext}
  {e e' : StorageEngine} {q : Str}

theorem Upholds.stored {c : Str → TableContext} (h : Upholds G c c e) : Stored G e := by
  obtain ⟨rfl, htables, hundo, hnamed⟩ := h
  exact ⟨rfl, htables, hundo, hnamed⟩

/-- A statement that changes no context. -/
theorem Stored.wp {α : Type} {p : EngineM α} (h : Stored G e)
    (hp : Prog.Keeps (Upholds G e.tableContext e.tableContext) p) :
    p.wp (fun _ => Stored G) (fun _ => Stored G) e :=
  Prog.wp_mono (hp e h) (fun _ _ h' => h'.stored) fun _ _ h' => h'.stored

theorem stored_of_upholds {α : Type} {p : EngineM α}
    (hp : ∀ c : Str → TableContext, Prog.Keeps (Upholds G c c) p) : Prog.Keeps (Stored G) p :=
  fun _ h => h.wp (hp _)

theorem Upholds.congr (h : Upholds G ctx cur e) (hnow : e'.tableContext = e.tableContext)
    (hdata : e'.data = e.data) (hm : e'.txnMgr = e.txnMgr)
    (hnamed : ∀ (q : Str) (schema : TableSchema), e'.tables[q]? = some schema → schema.name = q) :
    Upholds G ctx cur e' := by
  refine ⟨hnow.trans h.now, ?_, ?_, hnamed⟩
  · rw [hdata]
    exact h.tables
  · rw [hm]
    exact h.undo

/-- Tables, versions, counters and manager stay. -/
theorem Upholds.frame (h : Upholds G ctx cur e) (htables : e'.tables = e.tables)
    (hdata : e'.data = e.data) (hids : e'.rowIds = e.rowIds) (hm : e'.txnMgr = e.txnMgr) :
    Upholds G ctx cur e' := by
  refine h.congr ?_ hdata hm ?_
  · funext q
    simp only [tableContext, htables, hdata, hids]
  · rw [htables]
    exact h.named

theorem Stored.frame (h : Stored G e) (htables : e'.tables = e.tables) (hdata : e'.data = e.data)
    (hids : e'.rowIds = e.rowIds) (hm : e'.txnMgr = e.txnMgr) : Stored G e' :=
  (Upholds.frame h htables hdata hids hm).stored

theorem upholds_frame {f : StorageEngine → StorageEngine}
    (hf : ∀ e : StorageEngine, (f e).tables = e.tables ∧ (f e).data = e.data ∧
      (f e).rowIds = e.rowIds ∧ (f e).txnMgr = e.txnMgr) :
    Prog.Keeps (ε := Failure) (Upholds G ctx cur) (Prog.modify f) :=
  Prog.Keeps.modify fun e h => h.frame (hf e).1 (hf e).2.1 (hf e).2.2.1 (hf e).2.2.2

theorem upholds_inCatalog {α : Type} (p : CatalogM α) :
    Prog.Keeps (Upholds G ctx cur) (inCatalog p) := fun e h => by
  rw [inCatalog, Prog.wp_zoom]
  exact Prog.wp_mono (Prog.wp_true p) (fun _ _ _ => h.frame rfl rfl rfl rfl)
    fun _ _ _ => h.frame rfl rfl rfl rfl

theorem upholds_nextSeq : Prog.Keeps (Upholds G ctx cur) nextSeq := by
  refine Prog.Keeps.get_bind fun e h => ?_
  split
  · exact h
  · exact h.frame rfl rfl rfl rfl

theorem upholds_writeWal (op : WalOp) (table : Str) (payload : Bytes) (xid : TransactionId) :
    Prog.Keeps (Upholds G ctx cur) (writeWal op table payload xid) :=
  upholds_nextSeq.bind fun _ => upholds_frame fun _ => ⟨rfl, rfl, rfl, rfl⟩

theorem contains_data {m : MemTable} (hm : e.data[q]? = some m) : e.data.contains q = true := by
  rw [← Std.ExtTreeMap.mem_iff_contains, Std.ExtTreeMap.mem_iff_isSome_getElem?, hm]
  rfl

/-- A table that is there changes. -/
theorem Upholds.setTable (h : Upholds G ctx cur e) (hq : (cur q).present = true) {m : MemTable}
    (hm : MemUpholds G (ctx q) m) : Upholds G ctx cur (e.setTable q m) := by
  have hcontains : e.data.contains q = true := by
    rw [← h.now] at hq
    exact hq
  refine ⟨?_, fun q' m' hq' => ?_, h.undo, h.named⟩
  · rw [← h.now]
    funext q'
    have hsame : (e.data.insert q m).contains q' = e.data.contains q' := by
      rw [Std.ExtTreeMap.contains_insert]
      by_cases hqq : q = q'
      · subst hqq
        simp [hcontains]
      · simp [hqq]
    simp only [tableContext, StorageEngine.setTable, hsame]
  · rw [StorageEngine.setTable, Std.ExtTreeMap.getElem?_insert] at hq'
    split at hq'
    · rename_i hqq
      obtain rfl := Std.LawfulEqOrd.eq_of_compare hqq
      cases hq'
      exact hm
    · exact h.tables q' m' hq'

theorem upholds_modifyTable (q : Str) {f : MemTable → MemTable}
    (hf : ∀ m, MemUpholds G (ctx q) m → MemUpholds G (ctx q) (f m)) :
    Prog.Keeps (ε := Failure) (Upholds G ctx cur) (Prog.modify (modifyTable q f)) := by
  refine Prog.Keeps.modify fun e h => ?_
  rw [modifyTable]
  split
  · rename_i m hm
    refine h.setTable ?_ (hf m (h.tables q m hm))
    rw [← h.now]
    exact contains_data hm
  · exact h

theorem upholds_eraseVersions (q : Str) (id : Int64) :
    Prog.Keeps (Upholds G ctx cur) (eraseVersions q id) :=
  upholds_modifyTable q fun _ h => h.eraseAllFor id

theorem upholds_putVersion (q : Str) {id : Int64} {row : Row} (h : Admits G (ctx q) id row) :
    Prog.Keeps (Upholds G ctx cur) (putVersion q id row) := by
  intro e he
  rw [putVersion, Prog.wp_bind, Prog.wp_ofExcept]
  refine ⟨fun t ht => ?_, fun _ _ => he⟩
  exact (upholds_nextSeq.bind fun _ => upholds_modifyTable q fun _ hm => hm.put h ht _) e he

theorem upholds_setRowCount (q : Str) :
    Prog.Keeps (ε := Failure) (Upholds G ctx cur) (Prog.modify (setRowCount q)) := by
  refine Prog.Keeps.modify fun e h => ?_
  rw [setRowCount]
  split
  · rename_i schema m hschema hm
    refine h.congr ?_ rfl rfl fun q' schema' hq' => ?_
    · funext q'
      simp only [tableContext, Std.ExtTreeMap.getElem?_insert]
      split
      · rename_i hqq
        obtain rfl := Std.LawfulEqOrd.eq_of_compare hqq
        rw [hschema]
        rfl
      · rfl
    · rw [Std.ExtTreeMap.getElem?_insert] at hq'
      split at hq'
      · rename_i hqq
        obtain rfl := Std.LawfulEqOrd.eq_of_compare hqq
        cases hq'
        exact h.named q schema hschema
      · exact h.named q' schema' hq'
  · exact h

theorem upholds_updateIndexes (q : Str) (id : Int64) (row : Row) :
    Prog.Keeps (ε := Failure) (Upholds G ctx cur) (Prog.modify (updateIndexes q id row)) := by
  refine upholds_frame fun e => ?_
  rw [updateIndexes]
  split <;> exact ⟨rfl, rfl, rfl, rfl⟩

theorem upholds_rebuildIndexes (q : Str) : Prog.Keeps (Upholds G ctx cur) (rebuildIndexes q) := by
  refine Prog.Keeps.get_bind fun e h => ?_
  split
  · rw [Prog.wp_bind, Prog.wp_set]
    exact Prog.Keeps.ofExcept _ _ (h.frame rfl rfl rfl rfl)
  · exact h

theorem upholds_rebuildIf (affected : Bool) (q : Str) :
    Prog.Keeps (Upholds G ctx cur) (rebuildIf affected q) :=
  Prog.Keeps.ite (fun _ => upholds_rebuildIndexes q) fun _ => Prog.Keeps.pure ()

theorem upholds_createIndex (table column : Str) :
    Prog.Keeps (Upholds G ctx cur) (createIndex table column) := by
  refine Prog.Keeps.get_bind fun e h => ?_
  dsimp only
  split
  · exact h
  · split
    · exact h
    · split
      · exact h.frame rfl rfl rfl rfl
      · split
        · exact h.frame rfl rfl rfl rfl
        · exact h

theorem upholds_createKeyIndexes (q : Str) (columns : List ColumnDef) :
    Prog.Keeps (Upholds G ctx cur) (createKeyIndexes q columns) :=
  Prog.Keeps.forEach fun _ _ => Prog.Keeps.ite (fun _ => upholds_createIndex _ _) fun _ =>
    Prog.Keeps.pure ()

theorem upholds_storeInserted (q : Str) {id : Int64} {row : Row} (h : Admits G (ctx q) id row)
    (xid : TransactionId) : Prog.Keeps (Upholds G ctx cur) (storeInserted q id row xid) :=
  (upholds_writeWal _ _ _ _).bind fun _ => (upholds_putVersion q h).bind fun _ =>
    (upholds_updateIndexes _ _ _).bind fun _ => upholds_setRowCount _

/-! ### The manager -/

/-- The undo records stay or go. -/
def KeepsUndo {α : Type} (p : TxnM α) : Prop :=
  ∀ m : TransactionManager, ∀ r ∈ (p.run m).2.context.undoRecords, r ∈ m.context.undoRecords

theorem keepsUndo_of_affects {α : Type} {p : TxnM α} (hp : Affects p) : KeepsUndo p := by
  intro m r hr
  have hsame (hv : (p.run m).2.context.undoRecords = m.context.undoRecords) :
      r ∈ m.context.undoRecords := by
    rw [← hv]
    exact hr
  have hnone (hv : (p.run m).2.context.undoRecords = []) : r ∈ m.context.undoRecords := by
    rw [hv] at hr
    cases hr
  cases hp m with
  | same hv => exact hsame (congrArg XidView.undoRecords hv)
  | clear hv => exact hnone (congrArg XidView.undoRecords hv)
  | finish _ _ _ hv => exact hnone (congrArg XidView.undoRecords hv)
  | finishEmpty _ hv => exact hnone (congrArg XidView.undoRecords hv)
  | giveUp _ _ hv => exact hsame (congrArg XidView.undoRecords hv)
  | assign _ _ _ _ hv => exact hsame (congrArg XidView.undoRecords hv)
  | snapshot _ hv => exact hsame (congrArg XidView.undoRecords hv)

theorem keepsUndo_of_keeps {α : Type} {p : TxnM α}
    (hp : ∀ records, Prog.Keeps (fun m => m.context.undoRecords = records) p) : KeepsUndo p := by
  intro m r hr
  rw [(hp _).final (s := m) rfl] at hr
  exact hr

theorem keepsUndo_client {c : ManagerCall} (hc : c.client = true) : KeepsUndo c.run := by
  rcases ManagerCall.online_or_rebuild hc with honline | rfl
  · exact keepsUndo_of_affects (ManagerCall.affects_run honline)
  · exact fun _ _ hr => hr

/-- The manager loses undo records. -/
theorem Upholds.setTxnMgr (h : Upholds G ctx cur e) {m : TransactionManager}
    (hm : ∀ r ∈ m.context.undoRecords, r ∈ e.txnMgr.context.undoRecords) :
    Upholds G ctx cur (e.setTxnMgr m) :=
  ⟨h.now, h.tables, fun r hr => h.undo r (hm r hr), h.named⟩

theorem upholds_inTxn {α : Type} {p : TxnM α} (hp : KeepsUndo p) :
    Prog.Keeps (Upholds G ctx cur) (inTxn p) := by
  refine Prog.Keeps.of_final fun e h => ?_
  have hrun : ((inTxn p).run e).2 = e.setTxnMgr (p.run e.txnMgr).2 := by
    unfold inTxn Prog.zoom
    rfl
  rw [hrun]
  exact h.setTxnMgr (hp e.txnMgr)

theorem upholds_assignXid : Prog.Keeps (Upholds G ctx cur) (inTxn assignXid) :=
  upholds_inTxn (keepsUndo_of_affects affects_assignXid)

theorem upholds_registerWrite (key : RowKey) :
    Prog.Keeps (Upholds G ctx cur) (inTxn (Prog.modify (·.registerWrite key))) :=
  upholds_inTxn (keepsUndo_of_affects fun m => .same (m.view_registerWrite key))

theorem upholds_checkUnique (q : Str) (columns : List ColumnDef) (row : Row) (r : Reader)
    (all : List Tuple) : Prog.Keeps (Upholds G ctx cur) (inTxn (checkUnique q columns row r all)) :=
  upholds_inTxn (keepsUndo_of_keeps fun _ => ManagerInvariant.keeps_checkUnique _ _ _ _ _
    fun m key h => (congrArg XidView.undoRecords (m.view_registerSiread key)).trans h)

theorem upholds_checkUniqueUpdate (columns : List ColumnDef) (updates : Updates) (rowid : Int64)
    (r : Reader) (all : List Tuple) :
    Prog.Keeps (Upholds G ctx cur) (inTxn (checkUniqueUpdate columns updates rowid r all)) :=
  upholds_inTxn (keepsUndo_of_keeps fun _ => ManagerInvariant.keeps_checkUniqueUpdate _ _ _ _ _)

theorem upholds_addUndoRecord {r : UndoRecord}
    (hr : r.Restores → Admits G (ctx r.tableName) r.rowId r.oldRow) :
    Prog.Keeps (Upholds G ctx cur) (inTxn (Prog.modify (·.addUndoRecord r))) := by
  intro e h
  rw [inTxn, Prog.wp_zoom]
  refine ⟨h.now, h.tables, fun r' hr' hrestores hpresent => ?_, h.named⟩
  rcases List.mem_append.mp hr' with hr' | hr'
  · exact h.undo r' hr' hrestores hpresent
  · obtain rfl := List.mem_singleton.mp hr'
    exact hr hrestores

/-! ### Inserts -/

/-- The contexts with another counter for one table. -/
def withCounter (c : Str → TableContext) (q : Str) (n : Int64) : Str → TableContext :=
  fun q' => if q' = q then { c q with counter := n } else c q'

theorem present_withCounter (c : Str → TableContext) (q : Str) (n : Int64) (q' : Str) :
    (withCounter c q n q').present = (c q').present := by
  unfold withCounter
  split
  · rename_i hqq
    rw [hqq]
  · rfl

theorem tableContext_counter (e : StorageEngine) (q : Str) (n : Int64) :
    tableContext { e with rowIds := e.rowIds.insert q n } = withCounter e.tableContext q n := by
  funext q'
  simp only [tableContext, withCounter, Std.ExtTreeMap.getD_insert]
  by_cases hqq : q' = q
  · subst hqq
    simp
  · have hne : ¬ compare q q' = .eq := fun he => hqq (Std.LawfulEqOrd.eq_of_compare he).symm
    simp only [if_neg hqq, if_neg hne]

/-- What has the property with a higher counter may be stored before the counter is raised. -/
theorem Upholds.widen (hG : TupleInvariant G) (h : Upholds G cur cur e) (q : Str) {n : Int64}
    (hn : (cur q).counter ≤ n) : Upholds G (withCounter cur q n) cur e := by
  have hle (q' : Str) : (cur q').Le (withCounter cur q n q') := by
    unfold withCounter
    split
    · rename_i hqq
      rw [hqq]
      exact ⟨rfl, rfl, hn⟩
    · exact TableContext.Le.refl _
  refine ⟨h.now, fun q' m hm => (h.tables q' m hm).mono hG (hle q'), ?_, h.named⟩
  intro r hr hrestores hpresent q' t ht
  rw [present_withCounter] at hpresent
  exact hG.mono (hle r.tableName) (h.undo r hr hrestores hpresent q' t ht)

/-- Now the counter is raised. -/
theorem Upholds.counter {n : Int64} (h : Upholds G (withCounter cur q n) cur e) :
    Stored G { e with rowIds := e.rowIds.insert q n } := by
  have hctx : tableContext { e with rowIds := e.rowIds.insert q n } = withCounter cur q n := by
    rw [tableContext_counter, h.now]
  unfold Stored
  rw [hctx]
  exact ⟨hctx, h.tables, h.undo, h.named⟩

/-- The next row id of the table becomes its counter. -/
theorem wp_nextRowId_stored (hG : TupleInvariant G) (h : Stored G e) (q : Str) :
    (nextRowId q).wp (fun id e' => Stored G e' ∧ id = e.rowIds.getD q 0 + 1 ∧
        e'.tableContext q = { e.tableContext q with counter := e.rowIds.getD q 0 + 1 })
      (fun _ => Stored G) e := by
  rw [nextRowId, Prog.wp_bind, Prog.wp_get]
  dsimp only
  split
  · exact h
  rename_i hmax
  rw [Prog.wp_bind, Prog.wp_set, Prog.wp_pure]
  refine ⟨(h.widen hG q (Int64.le_of_lt (FixedWidth.lt_succ hmax))).counter, rfl, ?_⟩
  simp only [tableContext, Std.ExtTreeMap.getD_insert_self]

/-- The row that an insert makes of its values has the property under the next row id. -/
def InsertOk (G : TableContext → Tuple → Prop) (table : Str) (row : Row) (e : StorageEngine) :
    Prop :=
  ∀ schema validated row', e.tables[e.resolveTableName table]? = some schema →
    e.validate schema row = .ok validated → business row' = business validated →
      Admits G { e.tableContext (e.resolveTableName table) with
          counter := e.rowIds.getD (e.resolveTableName table) 0 + 1 }
        (e.rowIds.getD (e.resolveTableName table) 0 + 1) row'

theorem wp_insertBody_stored (hG : TupleInvariant G) (h : Stored G e) {table : Str} {row : Row}
    (hrow : InsertOk G table row e) :
    (insertBody table row).wp (fun _ => Stored G) (fun _ => Stored G) e := by
  rw [insertBody, Prog.wp_bind, Prog.wp_get]
  dsimp only
  split
  · exact h
  rename_i schema hschema
  rw [Prog.wp_bind, Prog.wp_ofExcept]
  refine ⟨fun validated hv => ?_, fun _ _ => h⟩
  rw [Prog.wp_bind]
  refine Prog.wp_mono (wp_nextRowId_stored hG h _) (fun id e' h' => ?_) fun _ _ h' => h'
  obtain ⟨h', rfl, hctx⟩ := h'
  refine h'.wp ((Prog.Keeps.ofExcept _).bind fun _ =>
    (upholds_storeInserted _ ?_ _).bind fun _ => Prog.Keeps.pure _)
  rw [hctx]
  refine hrow schema validated _ hschema hv ?_
  rw [business_insert_system rfl, business_insert_system rfl, business_insert_system rfl]

theorem wp_insertWithTxnBody_stored (hG : TupleInvariant G) (h : Stored G e) {table : Str}
    {row : Row} (hrow : InsertOk G table row e) :
    (insertWithTxnBody table row).wp (fun _ => Stored G) (fun _ => Stored G) e := by
  rw [insertWithTxnBody, Prog.wp_bind, Prog.wp_get]
  dsimp only
  split
  · exact h
  rename_i schema hschema
  rw [Prog.wp_bind, Prog.wp_ofExcept]
  refine ⟨fun validated hv => ?_, fun _ _ => h⟩
  rw [Prog.wp_bind]
  refine Prog.wp_mono (wp_nextRowId_stored hG h _) (fun id e' h' => ?_) fun _ _ h' => h'
  obtain ⟨h', rfl, hctx⟩ := h'
  refine h'.wp (upholds_assignXid.bind fun xid => Prog.Keeps.get.bind fun e₁ =>
    (Prog.Keeps.ofExcept _).bind fun _ => (upholds_checkUnique _ _ _ _ _).bind fun _ =>
      (upholds_addUndoRecord fun hr => absurd (.inl rfl) hr).bind fun _ =>
        (upholds_storeInserted _ ?_ _).bind fun _ => Prog.Keeps.pure _)
  rw [hctx]
  refine hrow schema validated _ hschema hv ?_
  rw [business_stamp, business_insert_system rfl]

/-! ### Updates and deletes -/

/-- A row that has the property keeps it when the columns are assigned. -/
def UpdateOk (G : TableContext → Tuple → Prop) (updates : Updates) (c : TableContext) : Prop :=
  ∀ t row row', G c t → toRow t = .ok row → business row' = business (applyUpdates row updates) →
    Admits G c t.hdr.rowId.toInt64 row'

/-- The tuples of a table that was found. -/
theorem Upholds.tableOf (h : Upholds G ctx cur e) {table : Str} {m : MemTable}
    (hm : e.tableOf table = .ok m) : MemUpholds G (ctx (e.resolveTableName table)) m :=
  h.tables _ m (tableOf_eq_ok.mp hm)

theorem upholds_updateRow (q : Str) {updates : Updates} {row : Row}
    (hrow : ∀ id row', getRowId row = .ok id → business row' = business (applyUpdates row updates) →
      Admits G (ctx q) id row') : Prog.Keeps (Upholds G ctx cur) (updateRow q updates row) := by
  intro e h
  rw [updateRow, Prog.wp_bind, Prog.wp_ofExcept]
  refine ⟨fun id hid => ?_, fun _ _ => h⟩
  refine ((upholds_writeWal _ _ _ _).bind fun _ => (upholds_eraseVersions _ _).bind fun _ =>
    upholds_putVersion q (hrow id _ hid ?_)) e h
  rw [business_insert_system rfl, business_insert_system rfl]

/-- What an assignment makes of a row that was read. -/
theorem UpdateOk.admits {c : TableContext} {updates : Updates} (hu : UpdateOk G updates c) {t : Tuple}
    (ht : G c t) {row row' : Row} (hread : toRow t = .ok row)
    (hb : business row' = business (applyUpdates row updates)) {id : Int64}
    (hid : getRowId row = .ok id) : Admits G c id row' := by
  rw [getRowId_of_toRow hread] at hid
  cases hid
  exact hu t row row' ht hread hb

theorem wp_updateBody_stored (h : Stored G e) {table : Str} (matches_ : Row → Bool)
    {updates : Updates} (hu : UpdateOk G updates (e.tableContext (e.resolveTableName table))) :
    (updateBody table matches_ updates).wp (fun _ => Stored G) (fun _ => Stored G) e := by
  rw [updateBody, Prog.wp_bind, Prog.wp_get, Prog.wp_bind, Prog.wp_ofExcept]
  refine ⟨fun m hm => ?_, fun _ _ => h⟩
  rw [Prog.wp_bind, Prog.wp_ofExcept]
  refine ⟨fun rows hrows => ?_, fun _ _ => h⟩
  refine h.wp ((Prog.Keeps.forEach fun row hrow => upholds_updateRow _ fun id row' hid hb => ?_).bind
    fun _ => (upholds_rebuildIf _ _).bind fun _ => Prog.Keeps.pure _)
  obtain ⟨t, ht, hread⟩ := (ExceptList.mem_of_mapM_ok hrows).mp (List.mem_of_mem_filter hrow)
  exact hu.admits ((h.tableOf hm).good t ht) hread hb hid

theorem upholds_updateRowWithTxn (hG : TupleInvariant G) {updates : Updates}
    (hu : UpdateOk G updates (ctx q)) (r : Reader) (all : List Tuple) {t : Tuple} (ht : G (ctx q) t)
    {row : Row} (hread : toRow t = .ok row) :
    Prog.Keeps (Upholds G ctx cur) (updateRowWithTxn q updates r all row) := by
  intro e h
  rw [updateRowWithTxn, Prog.wp_bind, Prog.wp_ofExcept]
  refine ⟨fun id hid => ?_, fun _ _ => h⟩
  have hold : Admits G (ctx q) id row := by
    rw [getRowId_of_toRow hread] at hid
    cases hid
    exact hG.restamp ht hread rfl
  refine ((upholds_registerWrite _).bind fun _ => Prog.Keeps.get.bind fun _ =>
    (upholds_checkUniqueUpdate _ _ _ _ _).bind fun _ => (upholds_addUndoRecord fun _ => hold).bind
      fun _ => (upholds_writeWal _ _ _ _).bind fun _ => (upholds_eraseVersions _ _).bind fun _ =>
        upholds_putVersion q (hu.admits ht hread ?_ hid)) e h
  exact business_stamp _ _ _ _

theorem upholds_removeRowWithTxn (hG : TupleInvariant G) (r : Reader) {t : Tuple} (ht : G (ctx q) t)
    {row : Row} (hread : toRow t = .ok row) :
    Prog.Keeps (Upholds G ctx cur) (removeRowWithTxn q r row) := by
  intro e h
  rw [removeRowWithTxn, Prog.wp_bind, Prog.wp_ofExcept]
  refine ⟨fun id hid => ?_, fun _ _ => h⟩
  have hagain (row' : Row) (hb : business row' = business row) : Admits G (ctx q) id row' := by
    rw [getRowId_of_toRow hread] at hid
    cases hid
    exact hG.restamp ht hread hb
  refine ((upholds_registerWrite _).bind fun _ => (upholds_addUndoRecord fun _ => hagain row rfl).bind
    fun _ => (upholds_eraseVersions _ _).bind fun _ => (upholds_putVersion q (hagain _ ?_)).bind fun _ =>
      upholds_writeWal _ _ _ _) e h
  rw [business_insert_system rfl, business_insert_system rfl]

theorem upholds_onVisible {body : Row → EngineM Unit} {t : Tuple}
    (hbody : ∀ row, toRow t = .ok row → Prog.Keeps (Upholds G ctx cur) (body row)) (r : Reader)
    (matches_ : Row → Bool) : Prog.Keeps (Upholds G ctx cur) (onVisible r matches_ body t) := by
  intro e h
  rw [onVisible, Prog.wp_bind, Prog.wp_ofExcept]
  refine ⟨fun row hrow => ?_, fun _ _ => h⟩
  exact (Prog.Keeps.get.bind fun _ => Prog.Keeps.ite (fun _ => (hbody row hrow).bind fun _ =>
    Prog.Keeps.pure _) fun _ => Prog.Keeps.pure _) e h

/-- The statements that scan a table under a snapshot. -/
theorem wp_scan_stored {table : Str} {β : Type} (h : Stored G e)
    {f : MemTable → StorageEngine → EngineM β}
    (hf : ∀ m e₁, MemUpholds G (e.tableContext (e.resolveTableName table)) m →
      Prog.Keeps (Upholds G e.tableContext e.tableContext) (f m e₁)) : Prog.wp (do
        let m ← Prog.ofExcept (e.tableOf table)
        let _ ← inTxn TransactionManager.assignXid
        let e₁ ← Prog.get
        f m e₁) (fun _ => Stored G) (fun _ => Stored G) e := by
  rw [Prog.wp_bind, Prog.wp_ofExcept]
  refine ⟨fun m hm => ?_, fun _ _ => h⟩
  exact h.wp (upholds_assignXid.bind fun _ => Prog.Keeps.get.bind fun e₁ => hf m e₁ (h.tableOf hm))

theorem wp_updateWithTxnBody_stored (hG : TupleInvariant G) (h : Stored G e) {table : Str}
    (matches_ : Row → Bool) {updates : Updates}
    (hu : UpdateOk G updates (e.tableContext (e.resolveTableName table))) :
    (updateWithTxnBody table matches_ updates).wp (fun _ => Stored G) (fun _ => Stored G) e := by
  rw [updateWithTxnBody, Prog.wp_bind, Prog.wp_get]
  exact wp_scan_stored h fun m e₁ hm => (Prog.Keeps.sumEach fun t ht => upholds_onVisible
    (fun row hread => upholds_updateRowWithTxn hG hu _ _ (hm.good t ht) hread) _ _).bind fun _ =>
      (upholds_rebuildIf _ _).bind fun _ => Prog.Keeps.pure _

theorem stored_removeWithTxnBody (hG : TupleInvariant G) (table : Str) (matches_ : Row → Bool) :
    Prog.Keeps (Stored G) (removeWithTxnBody table matches_) := by
  refine Prog.Keeps.get_bind fun e h => ?_
  exact wp_scan_stored h fun m e₁ hm => Prog.Keeps.sumEach fun t ht => upholds_onVisible
    (fun row hread => upholds_removeRowWithTxn hG _ (hm.good t ht) hread) _ _

theorem wp_copyRows_upholds (hG : TupleInvariant G) {q : Str} {all rows : RowSet} {m₀ m : MemTable}
    (hm₀ : MemUpholds G (ctx q) m₀) (hall : materializeAll m₀ = .ok all)
    (hrows : ∀ row ∈ rows, row ∈ all) (hm : MemUpholds G (ctx q) m) (h : Upholds G ctx cur e) :
    (rows.foldlM (copyRow q) m).wp (fun m' e' => MemUpholds G (ctx q) m' ∧ Upholds G ctx cur e')
      (fun _ => Upholds G ctx cur) e := by
  induction rows generalizing m e with
  | nil => exact ⟨hm, h⟩
  | cons row rows ih =>
    obtain ⟨hrow, hrows⟩ := List.forall_mem_cons.mp hrows
    rw [List.foldlM_cons, copyRow, Prog.wp_bind, Prog.wp_bind, Prog.wp_ofExcept]
    refine ⟨fun id hid => ?_, fun _ _ => h⟩
    rw [Prog.wp_bind, Prog.wp_ofExcept]
    refine ⟨fun t ht => ?_, fun _ _ => h⟩
    rw [Prog.wp_bind]
    refine Prog.wp_mono (upholds_nextSeq e h) (fun seq e' h' => ?_) fun _ _ h => h
    exact ih hrows (hm.put (hm₀.restamp hG hall hrow rfl hid) ht _) h'

theorem stored_removeBody (hG : TupleInvariant G) (table : Str) (matches_ : Row → Bool) :
    Prog.Keeps (Stored G) (removeBody table matches_) := by
  refine Prog.Keeps.get_bind fun e h => ?_
  rw [Prog.wp_bind, Prog.wp_ofExcept]
  refine ⟨fun m hm => ?_, fun _ _ => h⟩
  rw [Prog.wp_bind, Prog.wp_ofExcept]
  refine ⟨fun rows hrows => ?_, fun _ _ => h⟩
  have hpresent : (e.tableContext (e.resolveTableName table)).present = true :=
    contains_data (tableOf_eq_ok.mp hm)
  have hreplace (targets : RowSet) : Prog.Keeps (Upholds G e.tableContext e.tableContext)
      (removeRows (e.resolveTableName table) rows targets) := by
    refine Prog.Keeps.ite (fun _ => Prog.Keeps.pure _) fun _ => fun e₁ h₁ => ?_
    rw [replaceTable, Prog.wp_bind]
    refine Prog.wp_mono (wp_copyRows_upholds hG (h.tableOf hm) hrows
      (fun row hrow => List.mem_of_mem_filter hrow) (MemUpholds.create _) h₁)
      (fun m' e₂ h₂ => ?_) fun _ _ h₂ => h₂
    exact upholds_rebuildIndexes _ _ (h₂.2.setTable hpresent h₂.1)
  exact h.wp ((Prog.Keeps.forEach fun _ _ => (Prog.Keeps.ofExcept _).bind fun _ =>
    upholds_writeWal _ _ _ _).bind fun _ => (hreplace _).bind fun _ =>
      (upholds_setRowCount _).bind fun _ => Prog.Keeps.pure _)

/-! ### Undo and vacuum -/

theorem upholds_applyUndoRecord {r : UndoRecord} (hr : r.Restores → (ctx r.tableName).present = true →
    Admits G (ctx r.tableName) r.rowId r.oldRow) (hcur : ∀ q, (ctx q).present = (cur q).present) :
    Prog.Keeps (Upholds G ctx cur) (applyUndoRecord r) := by
  refine Prog.Keeps.get_bind fun e h => ?_
  split
  · exact h
  · rename_i m hm
    have hpresent : (ctx r.tableName).present = true := by
      rw [hcur, ← h.now]
      exact contains_data hm
    exact ((upholds_eraseVersions _ _).bind fun _ => Prog.Keeps.ite (fun _ => Prog.Keeps.pure _)
      fun hrestores => upholds_putVersion _ (hr hrestores hpresent)) e h

theorem stored_applyUndoTo (count : Nat) :
    Prog.Keeps (Stored G) (StorageEngine.applyUndoTo count) := by
  refine Prog.Keeps.get_bind fun e h => h.wp ?_
  refine (Prog.Keeps.forEach fun r hr => upholds_applyUndoRecord (h.undo r ?_) fun _ => rfl).bind
    fun _ => Prog.Keeps.forEach fun _ _ => upholds_rebuildIndexes _
  exact List.mem_of_mem_drop (List.mem_reverse.mp hr)

theorem upholds_freezeRow (hG : TupleInvariant G) (q : Str) (id : Int64) :
    Prog.Keeps (Upholds G ctx cur) (freezeRow q id) := by
  refine Prog.Keeps.get_bind fun e h => ?_
  split
  · exact h
  · rename_i t ht
    obtain ⟨m, hm, ht⟩ := Option.bind_eq_some_iff.mp ht
    obtain ⟨hgood, rfl⟩ := (h.tables q m hm).latest ht
    rw [Prog.wp_bind, Prog.wp_ofExcept]
    refine ⟨fun row hread => ?_, fun _ _ => h⟩
    exact ((upholds_eraseVersions _ _).bind fun _ =>
      upholds_putVersion q (hG.restamp hgood hread (business_insert_system rfl _))) e h

theorem upholds_vacuumTable (hG : TupleInvariant G) (oldest : TransactionId) (q : Str) :
    Prog.Keeps (Upholds G ctx cur) (vacuumTable oldest q) := by
  refine Prog.Keeps.get.bind fun e => ?_
  split
  · exact Prog.Keeps.pure _
  · exact (Prog.Keeps.ofExcept _).bind fun _ =>
      (Prog.Keeps.forEach fun _ _ => upholds_eraseVersions _ _).bind fun _ =>
        (Prog.Keeps.forEach fun _ _ => upholds_freezeRow hG _ _).bind fun _ =>
          (upholds_setRowCount _).bind fun _ => Prog.Keeps.get.bind fun _ =>
            (upholds_rebuildIf _ _).bind fun _ => Prog.Keeps.pure _

theorem upholds_vacuum (hG : TupleInvariant G) : Prog.Keeps (Upholds G ctx cur) vacuum :=
  Prog.Keeps.get.bind fun _ => (Prog.Keeps.sumEach fun _ _ => upholds_vacuumTable hG _ _).bind fun _ =>
    (upholds_inTxn (keepsUndo_of_affects (ManagerCall.affects_run (c := .maybeAntiWraparound) rfl))).bind
      fun _ => Prog.Keeps.pure _

/-! ### Definitions -/

theorem upholds_catalogBody (call : CatalogM Unit) (op : WalOp) (name : Str) (payload : Bytes) :
    Prog.Keeps (Upholds G ctx cur) (catalogBody call op name payload) :=
  (upholds_inCatalog _).bind fun _ => upholds_writeWal _ _ _ _

/-- The other tables are as they were. -/
theorem tableContext_of_ne {q q' : Str} (hqq : ¬ compare q q' = .eq) (schema : TableSchema)
    (m : MemTable) (n : Int64) (indexes : StrMap (List IndexInfo)) :
    tableContext { e with
      tables := e.tables.insert q schema
      data := e.data.insert q m
      rowIds := e.rowIds.insert q n
      indexes := indexes } q' = e.tableContext q' := by
  have hne : ¬ q = q' := fun he => hqq (by rw [he]; exact Std.ReflCmp.compare_self)
  simp only [tableContext, Std.ExtTreeMap.getElem?_insert, Std.ExtTreeMap.getD_insert, if_neg hqq,
    Std.ExtTreeMap.contains_insert]
  simp [hne]

/-- An empty table takes the place of what stood under the name, and no undo record is left over from
there. -/
theorem Stored.newTable (h : Stored G e) (schema : TableSchema) (hname : schema.name = q)
    (hundo : ∀ r ∈ e.txnMgr.context.undoRecords, r.Restores → r.tableName ≠ q)
    (indexes : StrMap (List IndexInfo)) : Stored G { e with
      tables := e.tables.insert q schema
      data := e.data.insert q (MemTable.create q)
      rowIds := e.rowIds.insert q 0
      indexes := indexes } := by
  refine ⟨rfl, fun q' m hm => ?_, fun r hr hrestores hpresent => ?_, fun q' schema' hq' => ?_⟩
  · rw [Std.ExtTreeMap.getElem?_insert] at hm
    split at hm
    · cases hm
      exact MemUpholds.create q
    · rename_i hqq
      rw [tableContext_of_ne hqq]
      exact h.tables q' m hm
  · have hne : ¬ compare q r.tableName = .eq := fun he =>
      hundo r hr hrestores (Std.LawfulEqOrd.eq_of_compare he).symm
    rw [tableContext_of_ne hne] at hpresent ⊢
    exact h.undo r hr hrestores hpresent
  · rw [Std.ExtTreeMap.getElem?_insert] at hq'
    split at hq'
    · rename_i hqq
      cases hq'
      exact hname.trans (Std.LawfulEqOrd.eq_of_compare hqq)
    · exact h.named q' schema' hq'

theorem Stored.eraseTable (h : Stored G e) (q : Str) : Stored G (eraseTable q e) := by
  have hother {q' : Str} (hqq : ¬ compare q q' = .eq) :
      (StorageEngine.eraseTable q e).tableContext q' = e.tableContext q' := by
    have hne : ¬ q = q' := fun he => hqq (by rw [he]; exact Std.ReflCmp.compare_self)
    simp only [tableContext, StorageEngine.eraseTable, Std.ExtTreeMap.getElem?_erase,
      Std.ExtTreeMap.getD_erase, if_neg hqq, Std.ExtTreeMap.contains_erase]
    simp [hne]
  refine ⟨rfl, fun q' m hm => ?_, fun r hr hrestores hpresent => ?_, fun q' schema hq' => ?_⟩
  · rw [StorageEngine.eraseTable, Std.ExtTreeMap.getElem?_erase] at hm
    split at hm
    · cases hm
    · rename_i hqq
      rw [hother hqq]
      exact h.tables q' m hm
  · have hne : ¬ compare q r.tableName = .eq := by
      intro he
      rw [← Std.LawfulEqOrd.eq_of_compare he] at hpresent
      simp [tableContext, StorageEngine.eraseTable] at hpresent
    rw [hother hne] at hpresent ⊢
    exact h.undo r hr hrestores hpresent
  · rw [StorageEngine.eraseTable, Std.ExtTreeMap.getElem?_erase] at hq'
    split at hq'
    · cases hq'
    · exact h.named q' schema hq'

/-- Where there is no such table yet, no undo record would put a row into one. -/
def CreateOk (name : Str) (e : StorageEngine) : Prop :=
  ¬ e.tables.contains (e.resolveTableName name) →
    ∀ r ∈ e.txnMgr.context.undoRecords, r.Restores → r.tableName ≠ e.resolveTableName name

instance (name : Str) (e : StorageEngine) : Decidable (CreateOk name e) := by
  unfold CreateOk
  infer_instance

theorem wp_createTableBody_stored (h : Stored G e) {name : Str} (hname : CreateOk name e)
    (columns : List ColumnDef) :
    (createTableBody name columns).wp (fun _ => Stored G) (fun _ => Stored G) e := by
  rw [createTableBody, Prog.wp_bind, Prog.wp_get]
  dsimp only
  rw [Prog.wp_ite]
  split
  · exact h
  have hname := hname ‹_›
  rw [Prog.wp_bind]
  refine wp_writeWal (fun _ => h) fun dir wal _ => ?_
  have hlogged : Stored G { e with walSeq := e.walSeq + 1, dir := dir, wal := wal } :=
    h.frame rfl rfl rfl rfl
  rw [Prog.wp_bind, Prog.wp_modify]
  exact (hlogged.newTable ⟨e.resolveTableName name, columns, 0⟩ rfl hname _).wp
    (upholds_createKeyIndexes _ _)

theorem stored_dropTableBody (name : Str) : Prog.Keeps (Stored G) (dropTableBody name) := by
  refine Prog.Keeps.get.bind fun e => Prog.Keeps.ite (fun _ => ?_) fun _ => Prog.Keeps.throw _
  exact (stored_of_upholds fun _ => upholds_writeWal _ _ _ _).bind fun _ =>
    Prog.Keeps.modify fun e h => h.eraseTable _

theorem stored_dropDatabaseBody (name : Str) : Prog.Keeps (Stored G) (dropDatabaseBody name) := by
  refine (stored_of_upholds fun _ => upholds_inCatalog _).bind fun _ =>
    Prog.Keeps.bind (Prog.Keeps.modify fun e h => ?_) fun _ =>
      stored_of_upholds fun _ => upholds_writeWal _ _ _ _
  exact List.foldlRecOn (motive := Stored G) _ _ h fun e h q _ => h.eraseTable q

end Steps
end StorageEngine
end JiaMiaoDB
