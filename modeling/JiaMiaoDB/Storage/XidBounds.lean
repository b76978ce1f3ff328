import JiaMiaoDB.Storage.Calls
import JiaMiaoDB.Storage.ReadCommitted
import JiaMiaoDB.Storage.StoredRow

/-!
# Transaction ids in use

Every id in a stamp, in the commit log, in the current transaction or in an undo record is below the
next one to be handed out. The calls keep this: an id gets into a row only from the current
transaction or from another row.
-/

set_option autoImplicit false

namespace JiaMiaoDB
open BinaryRowCodec

/-! ### Stamps -/

def TupleBelow (n : TransactionId) (t : Tuple) : Prop := t.hdr.xmin < n ∧ t.hdr.xmax < n

/-- The header that a row would get has ids below `n`. -/
def RowBelow (n : TransactionId) (row : Row) : Prop :=
  StorageEngine.headerField row (str "_xmin") < n ∧ StorageEngine.headerField row (str "_xmax") < n

instance (n : TransactionId) (row : Row) : Decidable (RowBelow n row) := by
  unfold RowBelow
  infer_instance

namespace StorageEngine

theorem headerField_insert_self (row : Row) (column : Str) (x : TransactionId) :
    headerField (row.insert column (.int x.toUInt64.toInt64)) column = x := by
  simp [headerField]

theorem headerField_insert_of_ne {row : Row} {column other : Str} (h : other ≠ column) (v : Value) :
    headerField (row.insert other v) column = headerField row column := by
  rw [headerField, headerField, Std.ExtTreeMap.getElem?_insert, if_neg]
  simpa using h

end StorageEngine

open StorageEngine

section Rows
variable {n k : TransactionId} {row : Row} {t : Tuple}

theorem TupleBelow.mono (h : TupleBelow n t) (hnk : n ≤ k) : TupleBelow k t :=
  ⟨UInt32.lt_of_lt_of_le h.1 hnk, UInt32.lt_of_lt_of_le h.2 hnk⟩

theorem RowBelow.mono (h : RowBelow n row) (hnk : n ≤ k) : RowBelow k row :=
  ⟨UInt32.lt_of_lt_of_le h.1 hnk, UInt32.lt_of_lt_of_le h.2 hnk⟩

theorem headerField_applyUpdates {updates : Updates} {column : Str}
    (h : headerField row column < n) (hu : headerField updates column < n) :
    headerField (applyUpdates row updates) column < n := by
  rw [applyUpdates, Std.ExtTreeMap.foldl_eq_foldl_toList]
  refine List.foldlRecOn (motive := fun r => headerField r column < n) _ _ h fun r hr p hp => ?_
  by_cases hc : p.1 = column
  · have hp := Std.ExtTreeMap.mem_toList_iff_getElem?_eq_some.mp hp
    rw [headerField, ← hc, hp] at hu
    rw [headerField, ← hc, Std.ExtTreeMap.getElem?_insert_self]
    exact hu
  · rw [headerField_insert_of_ne hc]
    exact hr

/-- Columns other than the two stamps do not matter. -/
theorem RowBelow.insert (h : RowBelow n row) {column : Str} (hmin : column ≠ str "_xmin")
    (hmax : column ≠ str "_xmax") (v : Value) : RowBelow n (row.insert column v) := by
  rw [RowBelow, headerField_insert_of_ne hmin, headerField_insert_of_ne hmax]
  exact h

theorem RowBelow.setXmax (h : RowBelow n row) {x : TransactionId} (hx : x < n) :
    RowBelow n (row.insert (str "_xmax") (.int x.toUInt64.toInt64)) := by
  rw [RowBelow, headerField_insert_of_ne (by decide), headerField_insert_self]
  exact ⟨h.1, hx⟩

theorem RowBelow.setXmin (h : RowBelow n row) {x : TransactionId} (hx : x < n) :
    RowBelow n (row.insert (str "_xmin") (.int x.toUInt64.toInt64)) := by
  have hmax : headerField (row.insert (str "_xmin") (.int x.toUInt64.toInt64)) (str "_xmax") =
      headerField row (str "_xmax") := headerField_insert_of_ne (by decide) _
  rw [RowBelow, hmax, headerField_insert_self]
  exact ⟨hx, h.2⟩

theorem rowBelow_stamp (row : Row) {x y : TransactionId} (hx : x < n) (hy : y < n) (cid : Int32) :
    RowBelow n (stamp row x y cid) := by
  refine RowBelow.insert ⟨?_, ?_⟩ (by decide) (by decide) _
  · rw [headerField_insert_of_ne (by decide), headerField_insert_self]
    exact hx
  · rw [headerField_insert_self]
    exact hy

theorem rowBelow_iff (h : toRow t = .ok row) : RowBelow n row ↔ TupleBelow n t := by
  obtain ⟨-, hxmin, hxmax, -⟩ := header_of_toRow h
  simp only [RowBelow, TupleBelow, headerField, hxmin, hxmax, toUInt32_widened]

theorem RowBelow.tuple {q : Str} {id : Int64} (h : RowBelow n row)
    (ht : rowToTuple row (headerFromRow q id row) = .ok t) : TupleBelow n t := by
  obtain ⟨bs, -, ht⟩ := ExceptList.bind_ok_iff.mp ht
  cases ht
  exact h

end Rows

/-- The versions of a table have ids below `n`. -/
def MemBelow (n : TransactionId) (m : MemTable) : Prop := ∀ t ∈ m.scanAll, TupleBelow n t

section Tables
variable {n : TransactionId} {m : MemTable}

theorem MemBelow.mono {k : TransactionId} (h : MemBelow n m) (hnk : n ≤ k) : MemBelow k m :=
  fun t ht => (h t ht).mono hnk

theorem memBelow_create (name : Str) : MemBelow n (MemTable.create name) := by
  intro t ht
  obtain ⟨k, hk⟩ := MemTable.mem_scanAll.mp ht
  simp [MemTable.create] at hk

theorem MemBelow.put (h : MemBelow n m) {t : Tuple} (ht : TupleBelow n t) (id : Int64)
    (seq : UInt64) : MemBelow n (m.put id t seq) := by
  intro t' ht'
  obtain ⟨k, hk⟩ := MemTable.mem_scanAll.mp ht'
  rcases MemTable.getElem?_put.mp hk with ⟨-, rfl⟩ | ⟨-, hk⟩
  · exact ht
  · exact h t' (MemTable.mem_scanAll.mpr ⟨k, hk⟩)

theorem MemBelow.eraseAllFor (h : MemBelow n m) (id : Int64) : MemBelow n (m.eraseAllFor id) := by
  intro t ht
  obtain ⟨k, hk⟩ := MemTable.mem_scanAll.mp ht
  exact h t (MemTable.mem_scanAll.mpr ⟨k, (MemTable.getElem?_eraseAllFor.mp hk).1⟩)

theorem MemBelow.rows {rows : RowSet} (h : MemBelow n m) (hrows : materializeAll m = .ok rows) :
    ∀ row ∈ rows, RowBelow n row := by
  intro row hrow
  obtain ⟨t, ht, hread⟩ := (ExceptList.mem_of_mapM_ok hrows).mp hrow
  exact (rowBelow_iff hread).mpr (h t ht)

theorem MemBelow.latest {id : Int64} {t : Tuple} (h : MemBelow n m) (ht : m.getLatest id = some t) :
    TupleBelow n t := by
  obtain ⟨k, hk, -⟩ := MemTable.mem_getVersions.mp (List.mem_of_mem_head? ht)
  exact h t (MemTable.mem_scanAll.mpr ⟨k, hk⟩)

end Tables

namespace StorageEngine

/-! ### Programs that leave the transaction manager alone -/

/-- The manager is `m`, and all stored versions have ids below `n`. -/
structure Sealed (m : TransactionManager) (n : TransactionId) (e : StorageEngine) : Prop where
  manager : e.txnMgr = m
  stamps : ∀ (q : Str) (mem : MemTable), e.data[q]? = some mem → MemBelow n mem

section Sealed
variable {m : TransactionManager} {n : TransactionId}

theorem Sealed.congr {e e' : StorageEngine} (h : Sealed m n e) (hm : e'.txnMgr = e.txnMgr)
    (hd : e'.data = e.data) : Sealed m n e' :=
  ⟨hm.trans h.manager, by rw [hd]; exact h.stamps⟩

theorem Sealed.setTable {e : StorageEngine} (h : Sealed m n e) (q : Str) {mem : MemTable}
    (hmem : MemBelow n mem) : Sealed m n (e.setTable q mem) := by
  refine ⟨h.manager, fun q' mem' hq => ?_⟩
  rw [StorageEngine.setTable, Std.ExtTreeMap.getElem?_insert] at hq
  split at hq
  · cases hq
    exact hmem
  · exact h.stamps q' mem' hq

theorem sealed_frame {f : StorageEngine → StorageEngine}
    (hf : ∀ e : StorageEngine, (f e).txnMgr = e.txnMgr ∧ (f e).data = e.data) :
    Prog.Keeps (ε := Failure) (Sealed m n) (Prog.modify f) :=
  Prog.Keeps.modify fun e h => h.congr (hf e).1 (hf e).2

theorem sealed_inCatalog {α : Type} (p : CatalogM α) : Prog.Keeps (Sealed m n) (inCatalog p) :=
  fun e h => by
    rw [inCatalog, Prog.wp_zoom]
    exact Prog.wp_mono (Prog.wp_true p) (fun _ _ _ => h.congr rfl rfl) fun _ _ _ => h.congr rfl rfl

theorem sealed_nextSeq : Prog.Keeps (Sealed m n) nextSeq := by
  refine Prog.Keeps.get_bind fun e h => ?_
  split
  · exact h
  · exact h.congr rfl rfl

theorem sealed_nextRowId (q : Str) : Prog.Keeps (Sealed m n) (nextRowId q) := by
  refine Prog.Keeps.get_bind fun e h => ?_
  dsimp only
  split
  · exact h
  · exact h.congr rfl rfl

theorem sealed_writeWal (op : WalOp) (table : Str) (payload : Bytes) (xid : TransactionId) :
    Prog.Keeps (Sealed m n) (writeWal op table payload xid) :=
  sealed_nextSeq.bind fun _ => sealed_frame fun _ => ⟨rfl, rfl⟩

theorem sealed_modifyTable (q : Str) {f : MemTable → MemTable}
    (hf : ∀ mem, MemBelow n mem → MemBelow n (f mem)) :
    Prog.Keeps (ε := Failure) (Sealed m n) (Prog.modify (modifyTable q f)) := by
  refine Prog.Keeps.modify fun e h => ?_
  rw [modifyTable]
  split
  · exact h.setTable q (hf _ (h.stamps q _ ‹_›))
  · exact h

theorem sealed_eraseVersions (q : Str) (id : Int64) :
    Prog.Keeps (Sealed m n) (eraseVersions q id) :=
  sealed_modifyTable q fun _ h => h.eraseAllFor id

theorem sealed_putVersion (q : Str) (id : Int64) {row : Row} (h : RowBelow n row) :
    Prog.Keeps (Sealed m n) (putVersion q id row) := by
  intro e he
  rw [putVersion, Prog.wp_bind, Prog.wp_ofExcept]
  refine ⟨fun t ht => ?_, fun _ _ => he⟩
  exact (sealed_nextSeq.bind fun _ => sealed_modifyTable q fun _ hm => hm.put (h.tuple ht) id _) e he

theorem sealed_setRowCount (q : Str) :
    Prog.Keeps (ε := Failure) (Sealed m n) (Prog.modify (setRowCount q)) :=
  sealed_frame fun e => by rw [setRowCount]; split <;> exact ⟨rfl, rfl⟩

theorem sealed_updateIndexes (q : Str) (id : Int64) (row : Row) :
    Prog.Keeps (ε := Failure) (Sealed m n) (Prog.modify (updateIndexes q id row)) :=
  sealed_frame fun e => by rw [updateIndexes]; split <;> exact ⟨rfl, rfl⟩

theorem sealed_rebuildIndexes (q : Str) : Prog.Keeps (Sealed m n) (rebuildIndexes q) := by
  refine Prog.Keeps.get_bind fun e h => ?_
  split
  · rw [Prog.wp_bind, Prog.wp_set]
    exact Prog.Keeps.ofExcept _ _ (h.congr rfl rfl)
  · exact h

theorem sealed_rebuildIf (affected : Bool) (q : Str) :
    Prog.Keeps (Sealed m n) (rebuildIf affected q) :=
  Prog.Keeps.ite (fun _ => sealed_rebuildIndexes q) fun _ => Prog.Keeps.pure ()

theorem sealed_createIndex (table column : Str) :
    Prog.Keeps (Sealed m n) (createIndex table column) := by
  refine Prog.Keeps.get_bind fun e h => ?_
  dsimp only
  split
  · exact h
  · split
    · exact h
    · split
      · exact h.congr rfl rfl
      · split
        · exact h.congr rfl rfl
        · exact h

theorem sealed_createKeyIndexes (q : Str) (columns : List ColumnDef) :
    Prog.Keeps (Sealed m n) (createKeyIndexes q columns) :=
  Prog.Keeps.forEach fun _ _ => Prog.Keeps.ite (fun _ => sealed_createIndex _ _) fun _ =>
    Prog.Keeps.pure ()

theorem sealed_storeInserted (q : Str) (id : Int64) {row : Row} (h : RowBelow n row)
    (xid : TransactionId) : Prog.Keeps (Sealed m n) (storeInserted q id row xid) :=
  (sealed_writeWal _ _ _ _).bind fun _ => (sealed_putVersion q id h).bind fun _ =>
    (sealed_updateIndexes _ _ _).bind fun _ => sealed_setRowCount _

/-- The rows of a table that is there have ids below `n`. -/
theorem Sealed.tableOf {e : StorageEngine} (h : Sealed m n e) {table : Str} {mem : MemTable}
    (hmem : e.tableOf table = .ok mem) : MemBelow n mem := by
  rw [StorageEngine.tableOf] at hmem
  split at hmem
  · cases hmem
    exact h.stamps _ _ ‹_›
  · cases hmem

/-- A statement that first reads the rows of a table. -/
theorem sealed_withRows {α : Type} (table : Str) {body : StorageEngine → RowSet → EngineM α}
    (hbody : ∀ e rows, (∀ row ∈ rows, RowBelow n row) → Prog.Keeps (Sealed m n) (body e rows)) :
    Prog.Keeps (Sealed m n) (do
      let e ← Prog.get
      let mem ← Prog.ofExcept (e.tableOf table)
      let rows ← Prog.ofExcept (materializeAll mem)
      body e rows) := by
  refine Prog.Keeps.get_bind fun e h => ?_
  rw [Prog.wp_bind, Prog.wp_ofExcept]
  refine ⟨fun mem hmem => ?_, fun _ _ => h⟩
  rw [Prog.wp_bind, Prog.wp_ofExcept]
  exact ⟨fun rows hrows => hbody e rows ((h.tableOf hmem).rows hrows) e h, fun _ _ => h⟩

/-! ### Rows without a transaction -/

/-- A row whose `_xmin` was given, with the stamps of a row outside a transaction. -/
theorem rowBelow_plain {row : Row} (h : headerField row (str "_xmin") < n) (h0 : 0 < n) :
    RowBelow n ((row.insert (str "_xmax") (.int 0)).insert (str "_cid") (.int 0)) := by
  refine RowBelow.insert ⟨?_, ?_⟩ (by decide) (by decide) _
  · rw [headerField_insert_of_ne (by decide)]
    exact h
  · exact (headerField_insert_self row (str "_xmax") 0).symm ▸ h0

/-- The value that an insert stores under `_xmin`, if any, is an id below the next one. -/
def InsertsBelow (table : Str) (row : Row) (e : StorageEngine) : Prop :=
  ∀ schema v, e.tables[e.resolveTableName table]? = some schema → e.validate schema row = .ok v →
    headerField v (str "_xmin") < e.txnMgr.nextXid

instance (table : Str) (row : Row) (e : StorageEngine) : Decidable (InsertsBelow table row e) :=
  decidable_of_iff _ ExceptList.all_ok_iff

theorem sealed_insertBody {table : Str} {row : Row} {e : StorageEngine} (h : Sealed m n e)
    (h0 : 0 < n) (hrow : InsertsBelow table row e) (hn : m.nextXid ≤ n) :
    (insertBody table row).wp (fun _ => Sealed m n) (fun _ => Sealed m n) e := by
  rw [insertBody, Prog.wp_bind, Prog.wp_get]
  dsimp only
  split
  · exact h
  · rename_i schema hschema
    rw [Prog.wp_bind, Prog.wp_ofExcept]
    refine ⟨fun v hv => ?_, fun _ _ => h⟩
    have hv : headerField v (str "_xmin") < n :=
      UInt32.lt_of_lt_of_le (hrow schema v hschema hv) (by rw [h.manager]; exact hn)
    refine ((sealed_nextRowId _).bind fun id => (Prog.Keeps.ofExcept _).bind fun _ =>
      (sealed_storeInserted _ id (rowBelow_plain ?_ h0) _).bind fun _ => Prog.Keeps.pure _) e h
    rw [headerField_insert_of_ne (by decide)]
    exact hv

theorem sealed_updateRow (q : Str) {updates : Updates} {row : Row} (h0 : 0 < n)
    (hu : headerField updates (str "_xmin") < n) (h : RowBelow n row) :
    Prog.Keeps (Sealed m n) (updateRow q updates row) :=
  (Prog.Keeps.ofExcept _).bind fun _ => (sealed_writeWal _ _ _ _).bind fun _ =>
    (sealed_eraseVersions _ _).bind fun _ =>
      sealed_putVersion q _ (rowBelow_plain (headerField_applyUpdates h.1 hu) h0)

theorem sealed_updateBody (table : Str) (matches_ : Row → Bool) {updates : Updates} (h0 : 0 < n)
    (hu : headerField updates (str "_xmin") < n) :
    Prog.Keeps (Sealed m n) (updateBody table matches_ updates) :=
  sealed_withRows table fun _ _ hrows =>
    (Prog.Keeps.forEach fun row hrow =>
      sealed_updateRow _ h0 hu (hrows row (List.mem_of_mem_filter hrow))).bind fun _ =>
        (sealed_rebuildIf _ _).bind fun _ => Prog.Keeps.pure _

theorem sealed_copyRows (q : Str) (rows : RowSet) (hrows : ∀ row ∈ rows, RowBelow n row) {mem : MemTable}
    (hmem : MemBelow n mem) {e : StorageEngine} (h : Sealed m n e) :
    (rows.foldlM (copyRow q) mem).wp (fun mem' e' => MemBelow n mem' ∧ Sealed m n e')
      (fun _ => Sealed m n) e := by
  induction rows generalizing mem e with
  | nil => exact ⟨hmem, h⟩
  | cons row rows ih =>
    obtain ⟨hrow, hrows⟩ := List.forall_mem_cons.mp hrows
    rw [List.foldlM_cons, copyRow, Prog.wp_bind, Prog.wp_bind, Prog.wp_ofExcept]
    refine ⟨fun id _ => ?_, fun _ _ => h⟩
    rw [Prog.wp_bind, Prog.wp_ofExcept]
    refine ⟨fun t ht => ?_, fun _ _ => h⟩
    rw [Prog.wp_bind]
    refine Prog.wp_mono (sealed_nextSeq e h) (fun seq e' h' => ?_) fun _ _ h => h
    exact ih hrows (hmem.put (hrow.tuple ht) id _) h'

theorem sealed_removeRows (q : Str) {rows : RowSet} (hrows : ∀ row ∈ rows, RowBelow n row)
    (targets : RowSet) : Prog.Keeps (Sealed m n) (removeRows q rows targets) := by
  refine Prog.Keeps.ite (fun _ => Prog.Keeps.pure _) fun _ => fun e h => ?_
  rw [replaceTable, Prog.wp_bind]
  refine Prog.wp_mono (sealed_copyRows q _ (fun row hrow => hrows row (List.mem_of_mem_filter hrow))
    (memBelow_create q) h) (fun mem e' ⟨hmem, h'⟩ => ?_) fun _ _ h => h
  exact sealed_rebuildIndexes q _ (h'.setTable q hmem)

theorem sealed_removeBody (table : Str) (matches_ : Row → Bool) :
    Prog.Keeps (Sealed m n) (removeBody table matches_) :=
  sealed_withRows table fun _ _ hrows =>
    (Prog.Keeps.forEach fun _ _ => (Prog.Keeps.ofExcept _).bind fun _ =>
      sealed_writeWal _ _ _ _).bind fun _ => (sealed_removeRows _ hrows _).bind fun _ =>
        (sealed_setRowCount _).bind fun _ => Prog.Keeps.pure _

/-! ### Definitions and vacuum -/

theorem Sealed.eraseTable {e : StorageEngine} (h : Sealed m n e) (q : Str) :
    Sealed m n (eraseTable q e) := by
  refine ⟨h.manager, fun q' mem hq => ?_⟩
  rw [StorageEngine.eraseTable, Std.ExtTreeMap.getElem?_erase] at hq
  split at hq
  · cases hq
  · exact h.stamps q' mem hq

theorem Sealed.resetTable {e : StorageEngine} (h : Sealed m n e) (q : Str)
    (columns : List ColumnDef) : Sealed m n (resetTable q columns e) :=
  (h.setTable q (memBelow_create q)).congr rfl rfl

theorem sealed_catalogBody (call : CatalogM Unit) (op : WalOp) (name : Str) (payload : Bytes) :
    Prog.Keeps (Sealed m n) (catalogBody call op name payload) :=
  (sealed_inCatalog _).bind fun _ => sealed_writeWal _ _ _ _

theorem sealed_dropDatabaseBody (name : Str) :
    Prog.Keeps (Sealed m n) (dropDatabaseBody name) := by
  refine (sealed_inCatalog _).bind fun _ => Prog.Keeps.bind (Prog.Keeps.modify fun e h => ?_) fun _ =>
    sealed_writeWal _ _ _ _
  exact List.foldlRecOn (motive := Sealed m n) _ _ h fun e h q _ => h.eraseTable q

theorem sealed_createTableBody (name : Str) (columns : List ColumnDef) :
    Prog.Keeps (Sealed m n) (createTableBody name columns) := by
  refine Prog.Keeps.get.bind fun e => Prog.Keeps.ite (fun _ => Prog.Keeps.throw _) fun _ => ?_
  exact (sealed_writeWal _ _ _ _).bind fun _ => (Prog.Keeps.modify fun e h => h.resetTable _ _).bind
    fun _ => sealed_createKeyIndexes _ _

theorem sealed_dropTableBody (name : Str) : Prog.Keeps (Sealed m n) (dropTableBody name) := by
  refine Prog.Keeps.get.bind fun e => Prog.Keeps.ite (fun _ => ?_) fun _ => Prog.Keeps.throw _
  exact (sealed_writeWal _ _ _ _).bind fun _ => Prog.Keeps.modify fun e h => h.eraseTable _

theorem sealed_freezeRow (q : Str) (id : Int64) (hn : FirstNormalTransactionId ≤ n) :
    Prog.Keeps (Sealed m n) (freezeRow q id) := by
  refine Prog.Keeps.get_bind fun e h => ?_
  split
  · exact h
  · rename_i t ht
    obtain ⟨mem, hmem, ht⟩ := Option.bind_eq_some_iff.mp ht
    rw [Prog.wp_bind, Prog.wp_ofExcept]
    refine ⟨fun row hrow => ?_, fun _ _ => h⟩
    have hbelow : RowBelow n row := (rowBelow_iff hrow).mpr ((h.stamps q mem hmem).latest ht)
    have hfrozen : FrozenTransactionId < n := UInt32.lt_of_lt_of_le (by decide) hn
    exact ((sealed_eraseVersions q id).bind fun _ =>
      sealed_putVersion q id (hbelow.setXmin hfrozen)) e h

theorem sealed_vacuumTable (oldest : TransactionId) (q : Str) (hn : FirstNormalTransactionId ≤ n) :
    Prog.Keeps (Sealed m n) (vacuumTable oldest q) := by
  refine Prog.Keeps.get.bind fun e => ?_
  split
  · exact Prog.Keeps.pure _
  · exact (Prog.Keeps.ofExcept _).bind fun _ =>
      (Prog.Keeps.forEach fun _ _ => sealed_eraseVersions _ _).bind fun _ =>
        (Prog.Keeps.forEach fun _ _ => sealed_freezeRow _ _ hn).bind fun _ =>
          (sealed_setRowCount _).bind fun _ => Prog.Keeps.get.bind fun _ =>
            (sealed_rebuildIf _ _).bind fun _ => Prog.Keeps.pure _

/-! ### Undo -/

theorem sealed_applyUndoRecord {r : UndoRecord} (h : RowBelow n r.oldRow) :
    Prog.Keeps (Sealed m n) (applyUndoRecord r) := by
  refine Prog.Keeps.get.bind fun e => ?_
  split
  · exact Prog.Keeps.pure _
  · exact (sealed_eraseVersions _ _).bind fun _ =>
      Prog.Keeps.ite (fun _ => Prog.Keeps.pure _) fun _ => sealed_putVersion _ _ h

theorem sealed_applyUndoTo (count : Nat) (h : ∀ r ∈ m.context.undoRecords, RowBelow n r.oldRow) :
    Prog.Keeps (Sealed m n) (applyUndoTo count) := by
  refine Prog.Keeps.get_bind fun e he => ?_
  refine ((Prog.Keeps.forEach fun r hr => sealed_applyUndoRecord (h r ?_)).bind fun _ =>
    Prog.Keeps.forEach fun _ _ => sealed_rebuildIndexes _) e he
  rw [List.mem_reverse, he.manager] at hr
  exact List.mem_of_mem_drop hr

end Sealed

end StorageEngine

/-! ### The transaction manager -/

/-- The ids that the manager knows are below the next one. -/
structure TransactionManager.Bounded (m : TransactionManager) : Prop where
  next : FirstNormalTransactionId ≤ m.nextXid
  clog : ∀ x ∈ m.clog.statusMap, x < m.nextXid
  context : m.context.xid < m.nextXid
  undo : ∀ r ∈ m.context.undoRecords, RowBelow m.nextXid r.oldRow

/-- A manager whose next id is at least `n`. -/
def TransactionManager.Grown (n : TransactionId) (m : TransactionManager) : Prop :=
  m.Bounded ∧ n ≤ m.nextXid

open TransactionManager

namespace TransactionManager.Bounded
variable {m : TransactionManager}

theorem initial : Bounded TransactionManager.initial where
  next := by decide
  clog x hx := by simp [TransactionManager.initial, CLog.empty] at hx
  context := by decide
  undo r hr := by cases hr

theorem pos (h : Bounded m) : 0 < m.nextXid := UInt32.lt_of_lt_of_le (by decide) h.next

/-- Neither the ids nor the undo records have changed. -/
theorem congr {m' : TransactionManager} (h : Bounded m) (hnext : m'.nextXid = m.nextXid)
    (hclog : m'.clog = m.clog) (hxid : m'.context.xid = m.context.xid)
    (hundo : m'.context.undoRecords = m.context.undoRecords) : Bounded m' where
  next := by rw [hnext]; exact h.next
  clog := by rw [hnext, hclog]; exact h.clog
  context := by rw [hnext, hxid]; exact h.context
  undo := by rw [hnext, hundo]; exact h.undo

/-- The context of a transaction without an id. -/
theorem clear (h : Bounded m) {c : TransactionContext} (hxid : c.xid = InvalidTransactionId)
    (hundo : c.undoRecords = []) : Bounded (m.setContext c) where
  next := h.next
  clog := h.clog
  context := by rw [setContext, hxid]; exact h.pos
  undo r hr := by
    rw [setContext, hundo] at hr
    cases hr

theorem setClog (h : Bounded m) {c : CLog} (hc : ∀ x ∈ c.statusMap, x < m.nextXid) :
    Bounded { m with clog := c } := ⟨h.next, hc, h.context, h.undo⟩

theorem setStatus_below {c : CLog} {n xid : TransactionId} (hc : ∀ x ∈ c.statusMap, x < n)
    (hxid : xid < n) (status : TransactionStatus) :
    ∀ x ∈ (c.setStatus xid status).statusMap, x < n := by
  intro x hx
  rw [CLog.setStatus, Std.ExtTreeMap.mem_insert] at hx
  rcases hx with hx | hx
  · rw [← Std.LawfulEqOrd.eq_of_compare hx]
    exact hxid
  · exact hc x hx

theorem finish (h : Bounded m) {xid : TransactionId} (hxid : xid < m.nextXid)
    (status : TransactionStatus) : Bounded (m.finish xid status) := by
  have hclog : Bounded { m with clog := m.clog.setStatus xid status } :=
    h.setClog (setStatus_below h.clog hxid status)
  exact (hclog.clear (c := finishContext m.context) rfl rfl).congr rfl rfl rfl rfl

theorem abortTransaction (h : Bounded m) : Bounded m.abortTransaction := by
  simp only [TransactionManager.abortTransaction]
  split
  · exact h.finish h.context _
  · exact h.clear rfl rfl

theorem freezeOldXids (h : Bounded m) : Bounded m.freezeOldXids := by
  refine h.setClog ?_
  refine List.foldlRecOn (motive := fun c : CLog => ∀ x ∈ c.statusMap, x < m.nextXid) _ _ h.clog ?_
  intro c hc xid hxid
  have hbelow : xid < m.nextXid := h.clog xid (Std.ExtTreeMap.mem_keys.mp hxid)
  split
  · exact hc
  · split
    · exact hc
    · split
      · exact setStatus_below hc hbelow _
      · exact hc

theorem maybeAntiWraparound (h : Bounded m) : Bounded m.maybeAntiWraparound := by
  unfold TransactionManager.maybeAntiWraparound
  split
  · exact h
  · split
    · exact h.freezeOldXids
    · exact h

theorem rebuildActiveFromClog (h : Bounded m) : Bounded m.rebuildActiveFromClog := by
  have hclog : ∀ x ∈ m.rebuildActiveFromClog.clog.statusMap, x < m.nextXid := by
    refine List.foldlRecOn (motive := fun c : CLog => ∀ x ∈ c.statusMap, x < m.nextXid) _ _
      h.clog ?_
    intro c hc xid hxid
    exact setStatus_below hc (h.clog xid (Std.ExtTreeMap.mem_keys.mp (List.mem_filter.mp hxid).1)) _
  exact ⟨h.next, hclog, h.context, h.undo⟩

theorem registerSiread (h : Bounded m) (key : RowKey) : Bounded (m.registerSiread key) := by
  unfold TransactionManager.registerSiread
  split
  · exact h.congr rfl rfl rfl rfl
  · exact h

theorem registerWrite (h : Bounded m) (key : RowKey) : Bounded (m.registerWrite key) := by
  unfold TransactionManager.registerWrite
  split
  · exact h.congr rfl rfl rfl rfl
  · exact h

theorem addUndoRecord (h : Bounded m) {r : UndoRecord} (hr : RowBelow m.nextXid r.oldRow) :
    Bounded (m.addUndoRecord r) where
  next := h.next
  clog := h.clog
  context := h.context
  undo r' hr' := by
    rcases List.mem_append.mp hr' with hr' | hr'
    · exact h.undo r' hr'
    · rw [List.mem_singleton.mp hr']
      exact hr

end TransactionManager.Bounded

theorem nextXid_maybeAntiWraparound (m : TransactionManager) :
    m.maybeAntiWraparound.nextXid = m.nextXid := by
  unfold TransactionManager.maybeAntiWraparound
  split
  · rfl
  · split <;> rfl

section Manager
variable {n : TransactionId}

/-- A program that keeps the bounds and the next id. -/
theorem grown_modify {f : TransactionManager → TransactionManager}
    (hf : ∀ m, m.Bounded → (f m).Bounded) (hnext : ∀ m, (f m).nextXid = m.nextXid) :
    Prog.Keeps (ε := Failure) (Grown n) (Prog.modify f) :=
  Prog.Keeps.modify fun m h => ⟨hf m h.1, by rw [hnext]; exact h.2⟩

/-- A new id is below the next one. -/
theorem wp_allocateXid {m : TransactionManager} (h : m.Grown n) :
    allocateXid.wp (fun xid m' => m'.Grown n ∧ xid < m'.nextXid ∧ m.nextXid ≤ m'.nextXid)
      (fun _ => Grown n) m := by
  have hm : m.maybeAntiWraparound.Grown n :=
    ⟨h.1.maybeAntiWraparound, by rw [nextXid_maybeAntiWraparound]; exact h.2⟩
  rw [allocateXid, Prog.wp_bind, Prog.wp_modify, Prog.wp_bind, Prog.wp_get]
  split
  · exact hm
  · rename_i hstop
    have hroom : m.maybeAntiWraparound.nextXid.toNat + 1 < 2 ^ 32 := by
      have : XIDEmergencyStop = 2146483648 := rfl
      omega
    have hlt : m.maybeAntiWraparound.nextXid < m.maybeAntiWraparound.nextXid + 1 := by
      rw [UInt32.lt_iff_toNat_lt, UInt32.toNat_add]
      have : (1 : UInt32).toNat = 1 := rfl
      omega
    have hle := UInt32.le_of_lt hlt
    rw [Prog.wp_bind, Prog.wp_set, Prog.wp_pure]
    refine ⟨⟨⟨UInt32.le_trans hm.1.next hle, ?_, UInt32.lt_of_lt_of_le hm.1.context hle, ?_⟩,
      UInt32.le_trans hm.2 hle⟩, hlt, ?_⟩
    · refine TransactionManager.Bounded.setStatus_below (fun x hx => ?_) hlt _
      exact UInt32.lt_of_lt_of_le (hm.1.clog x hx) hle
    · exact fun r hr => (hm.1.undo r hr).mono hle
    · rw [← nextXid_maybeAntiWraparound m]
      exact hle

theorem wp_assignXid {m : TransactionManager} (h : m.Grown n) :
    assignXid.wp (fun xid m' => m'.Grown n ∧ xid < m'.nextXid ∧ m.nextXid ≤ m'.nextXid)
      (fun _ => Grown n) m := by
  rw [assignXid, Prog.wp_bind, Prog.wp_get]
  split
  · rw [Prog.wp_bind]
    refine Prog.wp_mono (wp_allocateXid h) (fun xid m' h' => ?_) fun _ _ h => h
    obtain ⟨⟨hb, hn⟩, hxid, hle⟩ := h'
    exact ⟨⟨⟨hb.next, hb.clog, hxid, hb.undo⟩, hn⟩, hxid, hle⟩
  · exact ⟨h, h.1.context, UInt32.le_refl _⟩

theorem grown_assignXid : Prog.Keeps (Grown n) assignXid := fun _ h =>
  Prog.wp_mono (wp_assignXid h) (fun _ _ h => h.1) fun _ _ h => h

end Manager

end JiaMiaoDB
