import JiaMiaoDB.Storage.Effects

/-!
# What a load depends on

A load restores a checkpoint and replays records; neither looks at the files, the log writer or the
settings of the engine. So two directories load alike when they hold the same checkpoint and the
same records above it.
-/

set_option autoImplicit false

namespace JiaMiaoDB

namespace StorageEngine

/-- The engine with other files and settings. -/
def moved (dir : Dir) (wal : WriteAheadLogV3) (checkpointInterval : Int32) (clock : Int64)
    (e : StorageEngine) : StorageEngine :=
  { e with dir := dir, wal := wal, checkpointInterval := checkpointInterval, clock := clock }

section Commutes
variable {dir : Dir} {wal : WriteAheadLogV3} {checkpointInterval : Int32} {clock : Int64}

theorem commutes_nextSeq : nextSeq.Commutes (moved dir wal checkpointInterval clock) := by
  refine Prog.Commutes.get_bind fun e => ?_
  rw [show (moved dir wal checkpointInterval clock e).walSeq = e.walSeq from rfl]
  by_cases hmax : e.walSeq = Int64.maxValue
  · rw [if_pos hmax, if_pos hmax]
    rfl
  · rw [if_neg hmax, if_neg hmax]
    rfl

theorem commutes_modifyTable (q : Str) (f : MemTable → MemTable) :
    (Prog.modify (modifyTable q f) : EngineM Unit).Commutes
      (moved dir wal checkpointInterval clock) := by
  refine Prog.Commutes.modify fun e => ?_
  rw [modifyTable, modifyTable, show (moved dir wal checkpointInterval clock e).data = e.data from rfl]
  cases e.data[q]? <;> rfl

theorem commutes_putVersion (q : Str) (id : Int64) (row : Row) :
    (putVersion q id row).Commutes (moved dir wal checkpointInterval clock) :=
  (Prog.Commutes.ofExcept _).bind fun _ => commutes_nextSeq.bind fun _ => commutes_modifyTable q _

theorem commutes_setRowCount (q : Str) : (Prog.modify (setRowCount q) : EngineM Unit).Commutes
    (moved dir wal checkpointInterval clock) := by
  refine Prog.Commutes.modify fun e => ?_
  rw [setRowCount, setRowCount, show (moved dir wal checkpointInterval clock e).data = e.data from rfl,
    show (moved dir wal checkpointInterval clock e).tables = e.tables from rfl]
  cases e.tables[q]? <;> cases e.data[q]? <;> rfl

theorem commutes_updateIndexes (q : Str) (id : Int64) (row : Row) :
    (Prog.modify (updateIndexes q id row) : EngineM Unit).Commutes
      (moved dir wal checkpointInterval clock) := by
  refine Prog.Commutes.modify fun e => ?_
  rw [updateIndexes, updateIndexes,
    show (moved dir wal checkpointInterval clock e).indexes = e.indexes from rfl]
  cases e.indexes[q]? <;> rfl

theorem commutes_rebuildIndexes (q : Str) :
    (rebuildIndexes q).Commutes (moved dir wal checkpointInterval clock) := by
  refine Prog.Commutes.get_bind fun e => ?_
  rw [show (moved dir wal checkpointInterval clock e).indexes = e.indexes from rfl,
    show (moved dir wal checkpointInterval clock e).data = e.data from rfl]
  cases e.indexes[q]? <;> cases e.data[q]? <;> rfl

theorem commutes_createIndex (table column : Str) :
    (createIndex table column).Commutes (moved dir wal checkpointInterval clock) := by
  refine Prog.Commutes.get_bind fun e => ?_
  simp only [show (moved dir wal checkpointInterval clock e).resolveTableName table =
      e.resolveTableName table from rfl,
    show (moved dir wal checkpointInterval clock e).indexes = e.indexes from rfl,
    show (moved dir wal checkpointInterval clock e).data = e.data from rfl]
  cases e.indexes[e.resolveTableName table]? with
  | none => rfl
  | some idxs =>
    simp only
    by_cases hany : (idxs.any fun idx => decide (idx.column = column)) = true
    · rw [if_pos hany, if_pos hany]
      rfl
    · rw [if_neg hany, if_neg hany]
      cases e.data[e.resolveTableName table]? with
      | none => rfl
      | some m =>
        simp only
        rcases (collectEntries column m.scanAll).run ∅ with ⟨_ | _, entries⟩ <;> rfl

theorem commutes_inCatalog {α : Type} (p : CatalogM α) :
    (inCatalog p).Commutes (moved dir wal checkpointInterval clock) :=
  @Prog.Commutes.zoom _ _ _ _ (moved dir wal checkpointInterval clock) (·.catalog)
    (fun c e => e.setCatalog c) (fun _ => rfl) (fun _ _ => rfl) p

theorem commutes_inTxn {α : Type} (p : TxnM α) :
    (inTxn p).Commutes (moved dir wal checkpointInterval clock) :=
  @Prog.Commutes.zoom _ _ _ _ (moved dir wal checkpointInterval clock) (·.txnMgr)
    (fun m e => e.setTxnMgr m) (fun _ => rfl) (fun _ _ => rfl) p

theorem commutes_rebuildIf (affected : Bool) (q : Str) :
    (rebuildIf affected q).Commutes (moved dir wal checkpointInterval clock) :=
  Prog.Commutes.ite (commutes_rebuildIndexes q) (Prog.Commutes.pure ())

theorem commutes_createKeyIndexes (q : Str) (columns : List ColumnDef) :
    (createKeyIndexes q columns).Commutes (moved dir wal checkpointInterval clock) :=
  Prog.Commutes.forEach (fun c => Prog.Commutes.ite (commutes_createIndex q c.name)
    (Prog.Commutes.pure ())) columns

/-! ### Replay -/

theorem commutes_replayRow (r : WALRecordV3) {body : MemTable → EngineM Unit}
    (h : ∀ m, (body m).Commutes (moved dir wal checkpointInterval clock)) :
    (replayRow r body).Commutes (moved dir wal checkpointInterval clock) := by
  refine Prog.Commutes.get_bind fun e => ?_
  rw [show (moved dir wal checkpointInterval clock e).replayed r.xid = e.replayed r.xid from rfl,
    show (moved dir wal checkpointInterval clock e).data = e.data from rfl]
  refine Prog.Commutes.ite ?_ (Prog.Commutes.pure ()) e
  cases e.data[r.table]? with
  | none => exact Prog.Commutes.pure ()
  | some m => exact h m

theorem commutes_replayInsert (r : WALRecordV3) :
    (replayInsert r).Commutes (moved dir wal checkpointInterval clock) := by
  unfold replayInsert
  split
  · exact Prog.Commutes.pure ()
  · exact (commutes_putVersion _ _ _).bind fun _ => (commutes_updateIndexes _ _ _).bind fun _ =>
      (commutes_setRowCount _).bind fun _ => Prog.Commutes.modify fun _ => rfl

theorem commutes_replayUpdate (r : WALRecordV3) :
    (replayUpdate r).Commutes (moved dir wal checkpointInterval clock) := by
  unfold replayUpdate
  split
  · exact Prog.Commutes.pure ()
  · refine (commutes_putVersion _ _ _).bind fun _ => Prog.Commutes.get_bind fun e => ?_
    exact ((commutes_rebuildIf _ _).bind fun _ => (commutes_rebuildIndexes _).bind fun _ =>
      commutes_setRowCount _) e

theorem commutes_replayDelete (r : WALRecordV3) (m : MemTable) :
    (replayDelete r m).Commutes (moved dir wal checkpointInterval clock) := by
  unfold replayDelete
  split
  · exact Prog.Commutes.pure ()
  · split
    · split
      · exact Prog.Commutes.pure ()
      · exact (Prog.Commutes.ofExcept _).bind fun _ => commutes_putVersion _ _ _
    · exact (commutes_modifyTable _ _).bind fun _ => (commutes_rebuildIndexes _).bind fun _ =>
        commutes_setRowCount _

theorem commutes_setStatus (xid : TransactionId) (status : TransactionStatus) :
    (Prog.modify (setStatus xid status) : EngineM Unit).Commutes
      (moved dir wal checkpointInterval clock) := by
  refine Prog.Commutes.modify fun e => ?_
  rw [setStatus, setStatus]
  by_cases hxid : xid = InvalidTransactionId
  · rw [if_pos hxid, if_pos hxid]
  · rw [if_neg hxid, if_neg hxid]
    rfl

theorem commutes_replayRecord (r : WALRecordV3) :
    (replayRecord r).Commutes (moved dir wal checkpointInterval clock) := by
  unfold replayRecord
  cases WalOp.ofTag r.op with
  | createDatabase => exact commutes_inCatalog _
  | dropDatabase =>
    refine Prog.Commutes.get_bind fun e => ?_
    exact Prog.Commutes.ite (commutes_inCatalog _) (Prog.Commutes.pure ()) e
  | createSchema =>
    simp only
    cases walDecodeCreateSchema r.data with
    | none => exact Prog.Commutes.pure ()
    | some schema => exact commutes_inCatalog _
  | createUser => exact Prog.Commutes.pure ()
  | dropUser =>
    refine Prog.Commutes.get_bind fun e => ?_
    exact Prog.Commutes.ite (commutes_inCatalog _) (Prog.Commutes.pure ()) e
  | createTable =>
    simp only
    cases walDecodeCreateTable r.data with
    | none => exact Prog.Commutes.pure ()
    | some columns =>
      have hreset : (Prog.modify (resetTable r.table columns) : EngineM Unit).Commutes
          (moved dir wal checkpointInterval clock) := Prog.Commutes.modify fun _ => rfl
      exact hreset.bind fun _ => commutes_createKeyIndexes _ _
  | dropTable => exact Prog.Commutes.modify fun _ => rfl
  | xactCommit => exact commutes_setStatus _ _
  | xactAbort => exact commutes_setStatus _ _
  | insert => exact commutes_replayRow r fun _ => commutes_replayInsert r
  | update => exact commutes_replayRow r fun _ => commutes_replayUpdate r
  | delete => exact commutes_replayRow r (commutes_replayDelete r)
  | unknown => exact Prog.Commutes.pure ()

/-! ### Restoring -/

theorem commutes_restoreTable (ckp : Checkpoint) (isOld : Bool) (t : TableSchema) :
    (restoreTable ckp isOld t).Commutes (moved dir wal checkpointInterval clock) := by
  have hadd (q : Str) : (Prog.modify (addTable q { t with name := q }) : EngineM Unit).Commutes
      (moved dir wal checkpointInterval clock) := Prog.Commutes.modify fun _ => rfl
  exact (hadd _).bind fun _ => (Prog.Commutes.forEach (fun _ => commutes_putVersion _ _ _) _).bind
    fun _ => Prog.Commutes.modify fun _ => rfl

theorem commutes_restore (ckp : Checkpoint) :
    (restore ckp).Commutes (moved dir wal checkpointInterval clock) := by
  have hseq : (Prog.modify fun e => { e with walSeq := ckp.lastSeq } : EngineM Unit).Commutes
      (moved dir wal checkpointInterval clock) := Prog.Commutes.modify fun _ => rfl
  exact hseq.bind fun _ => (commutes_inCatalog _).bind fun isOld =>
    (Prog.Commutes.forEach (commutes_restoreTable ckp isOld) _).bind fun _ => commutes_inTxn _

end Commutes

/-! ### A load without its files -/

/-- The engine before anything was loaded. -/
def blank : StorageEngine := create Disk.empty 0 0

def rebuild (ckp : Checkpoint) (records : List WALRecordV3) : EngineM Unit := do
  restore ckp
  Prog.forEach replayRecord records

/-- The records of the log that a load from the checkpoint replays. -/
def recordsAbove (d : Disk) (ckp : Checkpoint) : List WALRecordV3 :=
  (WriteAheadLogV3.replay ⟨0⟩ d ckp.lastSeq).1

/-- A load ends like the rebuild from checkpoint and records, in the same state but for the files. -/
theorem run_load_rebuild {d : Disk} {ckp : Checkpoint}
    (hckp : CheckpointManager.load d.checkpointBin d.checkpointJson = ckp)
    (checkpointInterval : Int32) (clock : Int64) : ∃ wal,
    load.run (create d checkpointInterval clock) =
      (((rebuild ckp (recordsAbove d ckp)).run blank).1,
        moved (Dir.create d) wal checkpointInterval clock
          ((rebuild ckp (recordsAbove d ckp)).run blank).2) := by
  have hrestore : (restore ckp).run (create d checkpointInterval clock) =
      (((restore ckp).run blank).1,
        moved (Dir.create d) ⟨0⟩ checkpointInterval clock ((restore ckp).run blank).2) :=
    commutes_restore ckp blank
  rw [rebuild]
  rcases hrun : (restore ckp).run blank with ⟨f | ⟨⟩, e⟩
  · refine ⟨⟨0⟩, ?_⟩
    rw [hrun] at hrestore
    rw [load, Prog.bind_ok (Prog.run_get _)]
    simp only [show CheckpointManager.load (create d checkpointInterval clock).dir.disk.checkpointBin
      (create d checkpointInterval clock).dir.disk.checkpointJson = ckp from hckp]
    rw [Prog.bind_error hrestore, Prog.bind_error hrun]
  · rw [hrun] at hrestore
    refine ⟨((⟨0⟩ : WriteAheadLogV3).replay d ckp.lastSeq).2, (run_load hckp hrestore).trans ?_⟩
    rw [Prog.bind_ok hrun]
    exact Prog.Commutes.forEach commutes_replayRecord (recordsAbove d ckp) e

end StorageEngine
end JiaMiaoDB
