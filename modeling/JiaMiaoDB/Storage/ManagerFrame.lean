import JiaMiaoDB.Storage.Recovery
import JiaMiaoDB.Storage.Calls

/-! The calls reach the transaction manager in few ways: a statement takes an id, registers what it
reads and writes and adds undo records, and vacuum guards against the wrap-around. What these keep,
every call keeps. -/

set_option autoImplicit false

namespace JiaMiaoDB
open StorageEngine

/-- A property of the manager that the statements of the engine keep. -/
structure ManagerInvariant (J : TransactionManager → Prop) : Prop where
  assignXid : Prog.Keeps J TransactionManager.assignXid
  registerSiread : ∀ m key, J m → J (m.registerSiread key)
  registerWrite : ∀ m key, J m → J (m.registerWrite key)
  addUndoRecord : ∀ m r, J m → J (m.addUndoRecord r)
  maybeAntiWraparound : ∀ m, J m → J m.maybeAntiWraparound

namespace ManagerInvariant
variable {J : TransactionManager → Prop}

def On (J : TransactionManager → Prop) (e : StorageEngine) : Prop := J e.txnMgr

/-! ### Steps that leave the manager alone -/

theorem keeps_modify {f : StorageEngine → StorageEngine} (hf : ∀ e, (f e).txnMgr = e.txnMgr) :
    Prog.Keeps (ε := Failure) (On J) (Prog.modify f) := by
  refine Prog.Keeps.modify fun e h => ?_
  unfold On
  rw [hf e]
  exact h

theorem keeps_inTxn {α : Type} {p : TxnM α} (hp : Prog.Keeps J p) :
    Prog.Keeps (On J) (inTxn p) := by
  intro e h
  rw [inTxn, Prog.wp_zoom]
  exact hp e.txnMgr h

theorem keeps_inCatalog {α : Type} (p : CatalogM α) : Prog.Keeps (On J) (inCatalog p) := by
  intro e h
  rw [inCatalog, Prog.wp_zoom]
  exact Prog.wp_mono (Prog.wp_true p) (fun _ _ _ => h) fun _ _ _ => h

theorem keeps_nextSeq : Prog.Keeps (On J) nextSeq := by
  refine Prog.Keeps.get_bind fun e h => ?_
  split <;> exact h

theorem keeps_writeWal (op : WalOp) (table : Str) (payload : Bytes) (xid : TransactionId) :
    Prog.Keeps (On J) (writeWal op table payload xid) :=
  keeps_nextSeq.bind fun _ => keeps_modify fun _ => rfl

theorem txnMgr_modifyTable (q : Str) (f : MemTable → MemTable) (e : StorageEngine) :
    (modifyTable q f e).txnMgr = e.txnMgr := by
  rw [modifyTable]
  split <;> rfl

theorem keeps_eraseVersions (q : Str) (id : Int64) : Prog.Keeps (On J) (eraseVersions q id) :=
  keeps_modify (txnMgr_modifyTable q _)

theorem keeps_putVersion (q : Str) (id : Int64) (row : Row) :
    Prog.Keeps (On J) (putVersion q id row) :=
  (Prog.Keeps.ofExcept _).bind fun _ => keeps_nextSeq.bind fun _ =>
    keeps_modify (txnMgr_modifyTable q _)

theorem keeps_setRowCount (q : Str) :
    Prog.Keeps (ε := Failure) (On J) (Prog.modify (setRowCount q)) := by
  refine keeps_modify fun e => ?_
  rw [setRowCount]
  split <;> rfl

theorem keeps_updateIndexes (q : Str) (id : Int64) (row : Row) :
    Prog.Keeps (ε := Failure) (On J) (Prog.modify (updateIndexes q id row)) := by
  refine keeps_modify fun e => ?_
  rw [updateIndexes]
  split <;> rfl

theorem keeps_rebuildIndexes (q : Str) : Prog.Keeps (On J) (rebuildIndexes q) := by
  refine Prog.Keeps.get_bind fun e h => ?_
  split
  · rw [Prog.wp_bind, Prog.wp_set]
    exact Prog.Keeps.ofExcept _ _ h
  · exact h

theorem keeps_rebuildIf (affected : Bool) (q : Str) : Prog.Keeps (On J) (rebuildIf affected q) :=
  Prog.Keeps.ite (fun _ => keeps_rebuildIndexes q) fun _ => Prog.Keeps.pure ()

theorem keeps_createIndex (table column : Str) : Prog.Keeps (On J) (createIndex table column) := by
  refine Prog.Keeps.get_bind fun e h => ?_
  dsimp only
  split
  · exact h
  · split
    · exact h
    · split
      · exact h
      · split <;> exact h

theorem keeps_createKeyIndexes (q : Str) (columns : List ColumnDef) :
    Prog.Keeps (On J) (createKeyIndexes q columns) :=
  Prog.Keeps.forEach fun _ _ =>
    Prog.Keeps.ite (fun _ => keeps_createIndex _ _) fun _ => Prog.Keeps.pure _

theorem keeps_nextRowId (q : Str) : Prog.Keeps (On J) (nextRowId q) := by
  refine Prog.Keeps.get_bind fun e h => ?_
  dsimp only
  split <;> exact h

theorem keeps_checkpoint : Prog.Keeps (On J) checkpoint := by
  refine Prog.Keeps.get_bind fun e h => ?_
  rw [Prog.wp_bind, Prog.wp_ofExcept]
  exact ⟨fun _ _ => h, fun _ _ => h⟩

theorem keeps_thenCheckpoint {α : Type} {p : EngineM α} (hp : Prog.Keeps (On J) p) :
    Prog.Keeps (On J) (thenCheckpoint p) :=
  hp.bind fun _ => (Prog.Keeps.get.bind fun _ =>
    Prog.Keeps.ite (fun _ => keeps_checkpoint) fun _ => Prog.Keeps.pure _).bind fun _ =>
      Prog.Keeps.pure _

/-! ### Calls without a transaction -/

theorem keeps_storeInserted (q : Str) (id : Int64) (row : Row) (xid : TransactionId) :
    Prog.Keeps (On J) (storeInserted q id row xid) :=
  (keeps_writeWal _ _ _ _).bind fun _ => (keeps_putVersion _ _ _).bind fun _ =>
    (keeps_updateIndexes _ _ _).bind fun _ => keeps_setRowCount _

theorem keeps_insertBody (table : Str) (row : Row) : Prog.Keeps (On J) (insertBody table row) := by
  refine Prog.Keeps.get.bind fun e => ?_
  dsimp only
  split
  · exact Prog.Keeps.throw _
  · exact (Prog.Keeps.ofExcept _).bind fun _ => (keeps_nextRowId _).bind fun _ =>
      (Prog.Keeps.ofExcept _).bind fun _ => (keeps_storeInserted _ _ _ _).bind fun _ =>
        Prog.Keeps.pure _

theorem keeps_updateRow (q : Str) (updates : Updates) (row : Row) :
    Prog.Keeps (On J) (updateRow q updates row) :=
  (Prog.Keeps.ofExcept _).bind fun _ => (keeps_writeWal _ _ _ _).bind fun _ =>
    (keeps_eraseVersions _ _).bind fun _ => keeps_putVersion _ _ _

theorem keeps_updateBody (table : Str) (matches_ : Row → Bool) (updates : Updates) :
    Prog.Keeps (On J) (updateBody table matches_ updates) :=
  Prog.Keeps.get.bind fun _ => (Prog.Keeps.ofExcept _).bind fun _ =>
    (Prog.Keeps.ofExcept _).bind fun _ =>
      (Prog.Keeps.forEach fun _ _ => keeps_updateRow _ _ _).bind fun _ =>
        (keeps_rebuildIf _ _).bind fun _ => Prog.Keeps.pure _

theorem keeps_copyRows (q : Str) (rows : List Row) (m : MemTable) :
    Prog.Keeps (On J) (rows.foldlM (copyRow q) m) := by
  induction rows generalizing m with
  | nil => exact Prog.Keeps.pure m
  | cons row rows ih =>
    rw [List.foldlM_cons]
    exact ((Prog.Keeps.ofExcept _).bind fun _ => (Prog.Keeps.ofExcept _).bind fun _ =>
      keeps_nextSeq.bind fun _ => Prog.Keeps.pure _).bind fun m' => ih m'

theorem keeps_removeRows (q : Str) (rows targets : RowSet) :
    Prog.Keeps (On J) (removeRows q rows targets) :=
  Prog.Keeps.ite (fun _ => Prog.Keeps.pure _) fun _ => (keeps_copyRows _ _ _).bind fun _ =>
    (keeps_modify (f := (·.setTable q _)) fun _ => rfl).bind fun _ => keeps_rebuildIndexes _

theorem keeps_removeBody (table : Str) (matches_ : Row → Bool) :
    Prog.Keeps (On J) (removeBody table matches_) :=
  Prog.Keeps.get.bind fun _ => (Prog.Keeps.ofExcept _).bind fun _ =>
    (Prog.Keeps.ofExcept _).bind fun _ =>
      (Prog.Keeps.forEach fun _ _ => (Prog.Keeps.ofExcept _).bind fun _ =>
        keeps_writeWal _ _ _ _).bind fun _ => (keeps_removeRows _ _ _).bind fun _ =>
          (keeps_setRowCount _).bind fun _ => Prog.Keeps.pure _

theorem txnMgr_eraseTables (names : List Str) (e : StorageEngine) :
    (names.foldl (fun e t => eraseTable t e) e).txnMgr = e.txnMgr := by
  induction names generalizing e with
  | nil => rfl
  | cons t names ih => exact ih (eraseTable t e)

theorem keeps_catalogBody (call : CatalogM Unit) (op : WalOp) (name : Str) (payload : Bytes) :
    Prog.Keeps (On J) (catalogBody call op name payload) :=
  (keeps_inCatalog _).bind fun _ => keeps_writeWal _ _ _ _

theorem keeps_createTableBody (name : Str) (columns : List ColumnDef) :
    Prog.Keeps (On J) (createTableBody name columns) := by
  refine Prog.Keeps.get.bind fun e => Prog.Keeps.ite (fun _ => Prog.Keeps.throw _) fun _ => ?_
  exact (keeps_writeWal _ _ _ _).bind fun _ =>
    (keeps_modify (f := resetTable _ columns) fun _ => rfl).bind fun _ =>
      keeps_createKeyIndexes _ _

theorem keeps_dropTableBody (name : Str) : Prog.Keeps (On J) (dropTableBody name) := by
  refine Prog.Keeps.get.bind fun e => Prog.Keeps.ite (fun _ => ?_) fun _ => Prog.Keeps.throw _
  exact (keeps_writeWal _ _ _ _).bind fun _ => keeps_modify (f := eraseTable _) fun _ => rfl

/-! ### Calls of a transaction -/

section Calls
variable (h : ManagerInvariant J)
include h

omit h in
theorem keeps_checkUnique (q : Str) (columns : List ColumnDef) (row : Row) (r : Reader)
    (all : List Tuple) (hread : ∀ m key, J m → J (m.registerSiread key)) :
    Prog.Keeps J (checkUnique q columns row r all) := by
  refine Prog.Keeps.forEach fun col _ => Prog.Keeps.ite (fun _ => Prog.Keeps.pure _) fun _ => ?_
  split
  · exact Prog.Keeps.pure _
  · refine Prog.Keeps.forEach fun t _ => (Prog.Keeps.ofExcept _).bind fun _ =>
      Prog.Keeps.get.bind fun _ => Prog.Keeps.ite (fun _ => Prog.Keeps.pure _) fun _ =>
        Prog.Keeps.ite (fun _ => Prog.Keeps.throw _) fun _ => ?_
    split
    · exact Prog.Keeps.modify fun m hm => hread m _ hm
    · exact Prog.Keeps.pure _

omit h in
theorem keeps_checkUniqueUpdate (columns : List ColumnDef) (updates : Updates) (rowid : Int64)
    (r : Reader) (all : List Tuple) :
    Prog.Keeps J (checkUniqueUpdate columns updates rowid r all) := by
  refine Prog.Keeps.forEach fun col _ => Prog.Keeps.ite (fun _ => Prog.Keeps.pure _) fun _ => ?_
  split
  · exact Prog.Keeps.pure _
  · exact Prog.Keeps.forEach fun t _ => (Prog.Keeps.ofExcept _).bind fun _ =>
      Prog.Keeps.get.bind fun _ => Prog.Keeps.ite (fun _ => Prog.Keeps.pure _) fun _ =>
        (Prog.Keeps.ofExcept _).bind fun _ => Prog.Keeps.ite (fun _ => Prog.Keeps.pure _) fun _ =>
          Prog.Keeps.ite (fun _ => Prog.Keeps.throw _) fun _ => Prog.Keeps.pure _

omit h in
theorem keeps_registerWrite (hwrite : ∀ m key, J m → J (m.registerWrite key)) (key : RowKey) :
    Prog.Keeps (On J) (inTxn (Prog.modify (·.registerWrite key))) :=
  keeps_inTxn (Prog.Keeps.modify fun m hm => hwrite m key hm)

omit h in
theorem keeps_addUndoRecord (hundo : ∀ m r, J m → J (m.addUndoRecord r)) (r : UndoRecord) :
    Prog.Keeps (On J) (inTxn (Prog.modify (·.addUndoRecord r))) :=
  keeps_inTxn (Prog.Keeps.modify fun m hm => hundo m r hm)

theorem keeps_insertWithTxnBody (table : Str) (row : Row) :
    Prog.Keeps (On J) (insertWithTxnBody table row) := by
  refine Prog.Keeps.get.bind fun e => ?_
  dsimp only
  split
  · exact Prog.Keeps.throw _
  · exact (Prog.Keeps.ofExcept _).bind fun _ => (keeps_nextRowId _).bind fun _ =>
      (keeps_inTxn h.assignXid).bind fun _ => Prog.Keeps.get.bind fun _ =>
        (Prog.Keeps.ofExcept _).bind fun _ =>
          (keeps_inTxn (keeps_checkUnique _ _ _ _ _ h.registerSiread)).bind fun _ =>
            (keeps_addUndoRecord h.addUndoRecord _).bind fun _ =>
              (keeps_storeInserted _ _ _ _).bind fun _ =>
              Prog.Keeps.pure _

section Row
variable (hwrite : ∀ m key, J m → J (m.registerWrite key))
  (hundo : ∀ m r, J m → J (m.addUndoRecord r))
include hwrite hundo

omit h in
theorem keeps_updateRowWithTxn (q : Str) (updates : Updates) (r : Reader) (all : List Tuple)
    (row : Row) : Prog.Keeps (On J) (updateRowWithTxn q updates r all row) :=
  (Prog.Keeps.ofExcept _).bind fun _ => (keeps_registerWrite hwrite _).bind fun _ =>
    Prog.Keeps.get.bind fun _ => (keeps_inTxn (keeps_checkUniqueUpdate _ _ _ _ _)).bind fun _ =>
      (keeps_addUndoRecord hundo _).bind fun _ => (keeps_writeWal _ _ _ _).bind fun _ =>
        (keeps_eraseVersions _ _).bind fun _ => keeps_putVersion _ _ _

omit h in
theorem keeps_removeRowWithTxn (q : Str) (r : Reader) (row : Row) :
    Prog.Keeps (On J) (removeRowWithTxn q r row) :=
  (Prog.Keeps.ofExcept _).bind fun _ => (keeps_registerWrite hwrite _).bind fun _ =>
    (keeps_addUndoRecord hundo _).bind fun _ => (keeps_eraseVersions _ _).bind fun _ =>
      (keeps_putVersion _ _ _).bind fun _ => keeps_writeWal _ _ _ _

end Row

omit h in
theorem keeps_onVisible {body : Row → EngineM Unit} (hbody : ∀ row, Prog.Keeps (On J) (body row))
    (r : Reader) (matches_ : Row → Bool) (t : Tuple) :
    Prog.Keeps (On J) (onVisible r matches_ body t) :=
  (Prog.Keeps.ofExcept _).bind fun row => Prog.Keeps.get.bind fun _ =>
    Prog.Keeps.ite (fun _ => (hbody row).bind fun _ => Prog.Keeps.pure _) fun _ => Prog.Keeps.pure _

theorem keeps_updateWithTxnBody (table : Str) (matches_ : Row → Bool) (updates : Updates) :
    Prog.Keeps (On J) (updateWithTxnBody table matches_ updates) :=
  Prog.Keeps.get.bind fun _ => (Prog.Keeps.ofExcept _).bind fun _ =>
    (keeps_inTxn h.assignXid).bind fun _ => Prog.Keeps.get.bind fun _ =>
      (Prog.Keeps.sumEach fun _ _ => keeps_onVisible
        (keeps_updateRowWithTxn h.registerWrite h.addUndoRecord _ _ _ _) _ _ _).bind
        fun _ => (keeps_rebuildIf _ _).bind fun _ => Prog.Keeps.pure _

theorem keeps_removeWithTxnBody (table : Str) (matches_ : Row → Bool) :
    Prog.Keeps (On J) (removeWithTxnBody table matches_) :=
  Prog.Keeps.get.bind fun _ => (Prog.Keeps.ofExcept _).bind fun _ =>
    (keeps_inTxn h.assignXid).bind fun _ => Prog.Keeps.get.bind fun _ =>
      Prog.Keeps.sumEach fun _ _ => keeps_onVisible
        (keeps_removeRowWithTxn h.registerWrite h.addUndoRecord _ _) _ _ _

omit h in
theorem keeps_applyUndoTo (count : Nat) : Prog.Keeps (On J) (StorageEngine.applyUndoTo count) := by
  refine Prog.Keeps.get.bind fun _ => (Prog.Keeps.forEach fun r _ => ?_).bind fun _ =>
    Prog.Keeps.forEach fun _ _ => keeps_rebuildIndexes _
  refine Prog.Keeps.get.bind fun e => ?_
  split
  · exact Prog.Keeps.pure _
  · exact (keeps_eraseVersions _ _).bind fun _ =>
      Prog.Keeps.ite (fun _ => Prog.Keeps.pure _) fun _ => keeps_putVersion _ _ _

omit h in
theorem keeps_vacuumTable (oldest : TransactionId) (q : Str) :
    Prog.Keeps (On J) (vacuumTable oldest q) := by
  have hfreeze (id : Int64) : Prog.Keeps (On J) (freezeRow q id) := by
    refine Prog.Keeps.get.bind fun e => ?_
    split
    · exact Prog.Keeps.pure _
    · exact (Prog.Keeps.ofExcept _).bind fun _ => (keeps_eraseVersions _ _).bind fun _ =>
        keeps_putVersion _ _ _
  refine Prog.Keeps.get.bind fun e => ?_
  split
  · exact Prog.Keeps.pure _
  · exact (Prog.Keeps.ofExcept _).bind fun _ =>
      (Prog.Keeps.forEach fun _ _ => keeps_eraseVersions _ _).bind fun _ =>
        (Prog.Keeps.forEach fun id _ => hfreeze id).bind fun _ =>
          (keeps_setRowCount _).bind fun _ => Prog.Keeps.get.bind fun _ =>
            (keeps_rebuildIf _ _).bind fun _ => Prog.Keeps.pure _

/-- Every call keeps the invariant, when a call of the manager itself does. -/
theorem keeps_body (c : Call) (htxn : ∀ p, c = .txn p → Prog.Keeps J p) :
    Prog.Keeps (On J) c.body := by
  have discard {α : Type} {p : EngineM α} (hp : Prog.Keeps (On J) p) :
      Prog.Keeps (On J) (Call.discard p) := hp.bind fun _ => Prog.Keeps.pure _
  cases c with
  | createDatabase name => exact keeps_catalogBody _ _ _ _
  | dropDatabase name =>
    exact (keeps_inCatalog _).bind fun _ =>
      (keeps_modify fun e => txnMgr_eraseTables _ e).bind fun _ => keeps_writeWal _ _ _ _
  | createSchema dbName schemaName => exact keeps_catalogBody _ _ _ _
  | createUser name password salt => exact keeps_catalogBody _ _ _ _
  | dropUser name => exact keeps_catalogBody _ _ _ _
  | setCurrentDb name => exact keeps_inCatalog (Catalog.setCurrentDatabase name)
  | createTable name columns => exact keeps_createTableBody name columns
  | dropTable name => exact keeps_dropTableBody name
  | createIndex table column => exact keeps_createIndex table column
  | insert table row => exact discard (keeps_insertBody table row)
  | update table matches_ updates => exact discard (keeps_updateBody _ _ _)
  | remove table matches_ => exact discard (keeps_removeBody _ _)
  | insertWithTxn table row => exact discard (h.keeps_insertWithTxnBody _ _)
  | updateWithTxn table matches_ updates => exact discard (h.keeps_updateWithTxnBody _ _ _)
  | removeWithTxn table matches_ => exact discard (h.keeps_removeWithTxnBody _ _)
  | applyUndo => exact Prog.Keeps.get.bind fun _ => keeps_applyUndoTo _
  | applyUndoTo count => exact keeps_applyUndoTo count
  | writeXactCommit xid => exact keeps_writeWal _ _ _ _
  | writeXactAbort xid => exact keeps_writeWal _ _ _ _
  | vacuum =>
    exact discard (Prog.Keeps.get.bind fun _ =>
      (Prog.Keeps.sumEach fun _ _ => keeps_vacuumTable _ _).bind fun _ =>
        (keeps_inTxn (Prog.Keeps.modify fun m hm => h.maybeAntiWraparound m hm)).bind fun _ =>
          Prog.Keeps.pure _)
  | txn p => exact keeps_inTxn (htxn p rfl)
  | setClock clock => exact keeps_modify fun _ => rfl

theorem keeps_exec (c : Call) (htxn : ∀ p, c = .txn p → Prog.Keeps J p) :
    Prog.Keeps (On J) c.exec := by
  rw [Call.exec_eq]
  exact Prog.Keeps.ite (fun _ => keeps_thenCheckpoint (h.keeps_body c htxn)) fun _ =>
    h.keeps_body c htxn

end Calls

/-! ### Loading -/

theorem keeps_replayRow (r : WALRecordV3) {body : MemTable → EngineM Unit}
    (hbody : ∀ m, Prog.Keeps (On J) (body m)) : Prog.Keeps (On J) (replayRow r body) := by
  refine Prog.Keeps.get.bind fun e => Prog.Keeps.ite (fun _ => ?_) fun _ => Prog.Keeps.pure _
  split
  · exact Prog.Keeps.pure _
  · exact hbody _

theorem keeps_replayInsert (r : WALRecordV3) : Prog.Keeps (On J) (replayInsert r) := by
  rw [replayInsert]
  split
  · exact Prog.Keeps.pure _
  · exact (keeps_putVersion _ _ _).bind fun _ => (keeps_updateIndexes _ _ _).bind fun _ =>
      (keeps_setRowCount _).bind fun _ => keeps_modify fun _ => rfl

theorem keeps_replayUpdate (r : WALRecordV3) : Prog.Keeps (On J) (replayUpdate r) := by
  rw [replayUpdate]
  split
  · exact Prog.Keeps.pure _
  · exact (keeps_putVersion _ _ _).bind fun _ => Prog.Keeps.get.bind fun _ =>
      (keeps_rebuildIf _ _).bind fun _ => (keeps_rebuildIndexes _).bind fun _ =>
        keeps_setRowCount _

theorem keeps_replayDelete (r : WALRecordV3) (m : MemTable) :
    Prog.Keeps (On J) (replayDelete r m) := by
  rw [replayDelete]
  split
  · exact Prog.Keeps.pure _
  · split
    · split
      · exact Prog.Keeps.pure _
      · exact (Prog.Keeps.ofExcept _).bind fun _ => keeps_putVersion _ _ _
    · exact (keeps_eraseVersions _ _).bind fun _ => (keeps_rebuildIndexes _).bind fun _ =>
        keeps_setRowCount _

section Load
variable (hclog : ∀ m c, J m → J { m with clog := c })
include hclog

theorem keeps_setStatus (xid : TransactionId) (status : TransactionStatus) :
    Prog.Keeps (ε := Failure) (On J) (Prog.modify (setStatus xid status)) := by
  refine Prog.Keeps.modify fun e h => ?_
  rw [setStatus]
  split
  · exact h
  · exact hclog _ _ h

theorem keeps_replayRecord (r : WALRecordV3) : Prog.Keeps (On J) (replayRecord r) := by
  rw [replayRecord]
  split
  · exact keeps_inCatalog _
  · exact Prog.Keeps.get.bind fun _ =>
      Prog.Keeps.ite (fun _ => keeps_inCatalog _) fun _ => Prog.Keeps.pure _
  · split
    · exact Prog.Keeps.pure _
    · exact keeps_inCatalog _
  · exact Prog.Keeps.pure _
  · exact Prog.Keeps.get.bind fun _ =>
      Prog.Keeps.ite (fun _ => keeps_inCatalog _) fun _ => Prog.Keeps.pure _
  · split
    · exact Prog.Keeps.pure _
    · exact (keeps_modify (f := resetTable _ _) fun _ => rfl).bind fun _ =>
        keeps_createKeyIndexes _ _
  · exact keeps_modify (f := eraseTable _) fun _ => rfl
  · exact keeps_setStatus hclog _ _
  · exact keeps_setStatus hclog _ _
  · exact keeps_replayRow r fun _ => keeps_replayInsert r
  · exact keeps_replayRow r fun _ => keeps_replayUpdate r
  · exact keeps_replayRow r fun m => keeps_replayDelete r m
  · exact Prog.Keeps.pure _

/-- A load keeps what the restored manager keeps and what does not depend on the commit log. -/
theorem keeps_load (hrestore : ∀ ckp, Prog.Keeps J (restoreTransactions ckp)) :
    Prog.Keeps (On J) load := by
  have htable (ckp : Checkpoint) (isOld : Bool) (t : TableSchema) :
      Prog.Keeps (On J) (restoreTable ckp isOld t) :=
    (keeps_modify (f := addTable _ _) fun _ => rfl).bind fun _ =>
      (Prog.Keeps.forEach fun _ _ => keeps_putVersion _ _ _).bind fun _ => keeps_modify fun _ => rfl
  refine Prog.Keeps.get.bind fun e => ?_
  refine Prog.Keeps.bind ?_ fun _ => (Prog.Keeps.get_bind fun e h => h).bind fun _ =>
    Prog.Keeps.forEach fun r _ => keeps_replayRecord hclog r
  rw [restore]
  exact Prog.Keeps.bind (Prog.Keeps.modify fun _ h => h) fun _ => (keeps_inCatalog _).bind fun _ =>
    (Prog.Keeps.forEach fun t _ => htable _ _ t).bind fun _ => keeps_inTxn (hrestore _)

end Load

end ManagerInvariant
end JiaMiaoDB
