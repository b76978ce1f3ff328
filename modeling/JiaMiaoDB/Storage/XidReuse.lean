import JiaMiaoDB.Storage.CheckpointCrash
import JiaMiaoDB.Storage.XidCalls

/-!
# Transaction ids after a crash

The next id comes from the checkpoint alone: no log record raises it. It is above all ids that come
back when the log, too, holds only ids below it.
-/

set_option autoImplicit false

namespace JiaMiaoDB
open TransactionManager StorageEngine BinaryRowCodec

/-! ### Checkpoints -/

/-- The ids in the checkpoint are below the next one that it names. -/
structure Checkpoint.Bounded (ckp : Checkpoint) : Prop where
  next : FirstNormalTransactionId ≤ ckp.nextXid
  clog : ∀ x ∈ (clogDecode ckp.clogBytes CLog.empty).2.statusMap, x < ckp.nextXid
  entries : ckp.clogBytes = [] → ckp.clogEntries.items = []
  rows : ∀ q, ∀ p ∈ rowsOf ckp q, RowBelow ckp.nextXid p.2

theorem Checkpoint.bounded_empty : Checkpoint.empty.Bounded where
  next := by decide
  clog x hx := by
    have h : (clogDecode Checkpoint.empty.clogBytes CLog.empty).2.statusMap = ∅ := rfl
    rw [h] at hx
    exact absurd hx Std.ExtTreeMap.not_mem_empty
  entries _ := rfl
  rows q p hp := by
    simp [rowsOf, Checkpoint.empty] at hp

/-- What was saved is read again. -/
theorem Checkpoint.Bounded.reloaded {ckp : Checkpoint} (h : ckp.Bounded) (hb : ckp.Binary) :
    ckp.reloaded.Bounded where
  next := h.next
  clog := h.clog
  entries he := absurd he hb.clog_ne_nil
  rows := h.rows

namespace StorageEngine
variable {n : TransactionId} {e : StorageEngine} {ckp : Checkpoint}

/-- The checkpoint of the engine can be written to its file format. -/
def Savable (e : StorageEngine) : Prop := ∀ ckp, e.toCheckpoint = .ok ckp → ckp.Fits

theorem binary_toCheckpoint (h : e.toCheckpoint = .ok ckp) : ckp.Binary where
  clog := by
    rw [(takenFrom_toCheckpoint h).clogBytes, List.isPrefixOf_iff_prefix]
    exact List.prefix_append _ _
  catalog := by
    rw [(takenFrom_toCheckpoint h).catalogBytes]
    exact catalogEncode_ne_nil e.catalog

theorem Bounded.rows_toCheckpoint (h : Bounded n e) (hckp : e.toCheckpoint = .ok ckp) (q : Str) :
    ∀ p ∈ rowsOf ckp q, RowBelow e.txnMgr.nextXid p.2 := by
  by_cases hq : q ∈ e.tables
  · have htable := (takenFrom_toCheckpoint hckp).rows q hq
    rw [tableCheckpoint] at htable
    split at htable
    · rename_i mem hmem
      obtain ⟨l, hl, heq⟩ := ExceptList.map_ok_iff.mp htable
      obtain ⟨rows, hrows, rfl⟩ := ExceptList.map_ok_iff.mp hl
      rw [← (Prod.mk.inj heq).2]
      intro p hp
      obtain ⟨row, hrow, rfl⟩ := List.mem_map.mp hp
      exact (h.stamps q mem hmem).rows hrows row hrow
    · rw [← (Prod.mk.inj (Except.ok.inj htable)).2]
      intro p hp
      cases hp
  · have hnone : ckp.tableRows[q]? = none :=
      Std.ExtTreeMap.getElem?_eq_none fun hmem => hq ((mem_tableRows hckp).mp hmem)
    rw [rowsOf, Std.ExtTreeMap.getD_eq_getD_getElem?, hnone]
    intro p hp
    cases hp

theorem Bounded.toCheckpoint (h : Bounded n e) (hckp : e.toCheckpoint = .ok ckp)
    (hfits : ckp.Fits) : ckp.Bounded := by
  have htaken := takenFrom_toCheckpoint hckp
  have hsize : e.txnMgr.clog.statusMap.size < 2 ^ 32 := by
    have := hfits.clogBytes
    rw [htaken.clogBytes] at this
    exact Nat.lt_of_le_of_lt (size_le_length_clogEncode e.txnMgr.clog) this
  constructor
  · rw [htaken.nextXid]
    exact h.manager.1.next
  · rw [htaken.clogBytes, clogDecode_encode hsize, htaken.nextXid]
    exact h.manager.1.clog
  · exact fun he => absurd he (binary_toCheckpoint hckp).clog_ne_nil
  · rw [htaken.nextXid]
    exact h.rows_toCheckpoint hckp

end StorageEngine

/-! ### Directories -/

/-- Whatever a crash leaves loads as a checkpoint with the property. -/
def Dir.Leaves (P : Checkpoint → Prop) (dir : Dir) : Prop := ∀ k n, P (dir.crash k n).checkpoint

namespace Dir.Leaves
variable {P : Checkpoint → Prop} {dir : Dir}

theorem disk (h : dir.Leaves P) : P dir.disk.checkpoint := by
  rw [← Dir.crash_of_le (Nat.le_refl _) 0]
  exact h _ _

theorem create {d : Disk} (h : P d.checkpoint) : (Dir.create d).Leaves P := by
  intro k n
  rw [Dir.crash_of_le (Nat.zero_le _)]
  exact h

theorem push (h : dir.Leaves P) {ev : DiskEvent}
    (hev : ∀ n, P (ev.write (ev.bytes.take n) dir.disk).checkpoint) : (dir.push ev).Leaves P := by
  intro k n
  rcases Nat.lt_trichotomy k dir.journal.length with hk | rfl | hk
  · rw [Dir.crash_push_of_lt hk]
    exact h k n
  · rw [Dir.crash_push_last]
    exact hev n
  · have hk : (dir.push ev).journal.length ≤ k := by
      rw [Dir.push_journal, List.length_append]
      exact hk
    rw [Dir.crash_of_le hk, Dir.disk_push, DiskEvent.apply]
    have := hev ev.bytes.length
    rwa [List.take_length] at this

theorem append (h : dir.Leaves P) (r : WALRecordV3) : (dir.push (.append r)).Leaves P :=
  h.push fun _ => h.disk

theorem rewriteWal (h : dir.Leaves P) (kept : List WALRecordV3) :
    (dir.push (.rewriteWal kept)).Leaves P := h.push fun _ => h.disk

/-- A file that was cut off counts as an empty checkpoint. -/
theorem saveCheckpoint (h : dir.Leaves P) {ckp : Checkpoint} (hfits : ckp.Fits) (hb : ckp.Binary)
    (hempty : P Checkpoint.empty) (hckp : P ckp.reloaded) :
    (dir.push (.saveCheckpoint ckp)).Leaves P := by
  refine h.push fun n => ?_
  change P (CheckpointManager.ofFile ((CheckpointManager.save ckp).take n))
  by_cases hn : n < (CheckpointManager.save ckp).length
  · rw [CheckpointManager.ofFile_take hfits hb hn]
    exact hempty
  · rw [List.take_of_length_le (Nat.le_of_not_lt hn), CheckpointManager.ofFile_save hfits hb]
    exact hckp

end Dir.Leaves

theorem logInvariant_leaves (P : Checkpoint → Prop) : LogInvariant fun dir _ => dir.Leaves P where
  bump _ _ _ h := h
  write _ _ _ _ _ _ _ _ h := h.append _

/-! ### Restoring -/

/-- The ids in a record: that of its transaction and those that it brings into a row. -/
def WALRecordV3.Below (n : TransactionId) (r : WALRecordV3) : Prop :=
  r.xid < n ∧ match WalOp.ofTag r.op with
    | .insert => (walDecodeInsert r.data).all fun p => RowBelow n p.row
    | .update => (walDecodeUpdate r.data).all fun p => RowBelow n p.newRow
    | .delete => (walDecodeDelete r.data).all fun p => p.xmax.all (· < n)
    | _ => True

instance (n : TransactionId) (r : WALRecordV3) : Decidable (r.Below n) := by
  unfold WALRecordV3.Below
  split <;> infer_instance

namespace StorageEngine

/-- An engine on the way back: its next id is `n`, above all ids in it. -/
structure Recovering (n : TransactionId) (e : StorageEngine) : Prop where
  manager : e.txnMgr.Bounded
  next : e.txnMgr.nextXid = n
  stamps : ∀ (q : Str) (mem : MemTable), e.data[q]? = some mem → MemBelow n mem

section Restore
variable {m : TransactionManager} {n : TransactionId} {e : StorageEngine} {ckp : Checkpoint}

theorem sealed_restoreTable (h : ckp.Bounded) (isOld : Bool) (t : TableSchema) :
    Prog.Keeps (Sealed m ckp.nextXid) (restoreTable ckp isOld t) := by
  refine Prog.Keeps.bind (Prog.Keeps.modify fun e he => ?_) fun _ => ?_
  · exact (he.setTable _ (memBelow_create _)).congr rfl rfl
  · exact (Prog.Keeps.forEach fun p hp => sealed_putVersion _ _ (h.rows t.name p hp)).bind fun _ =>
      sealed_frame fun _ => ⟨rfl, rfl⟩

/-- The commit log of the checkpoint, with what was in progress aborted, and its next id. -/
theorem wp_restoreTransactions (h : ckp.Bounded) : (restoreTransactions ckp).wp
    (fun _ m => m.Bounded ∧ m.nextXid = ckp.nextXid) (fun _ _ => True)
    TransactionManager.initial := by
  have hnext : restoreNextXid ckp TransactionManager.initial =
      { TransactionManager.initial with nextXid := ckp.nextXid } := if_pos h.next
  have hstart : TransactionManager.Bounded
      { TransactionManager.initial with nextXid := ckp.nextXid } := by
    have hzero : (0 : TransactionId) < FirstNormalTransactionId := by decide
    refine ⟨h.next, fun x hx => ?_, UInt32.lt_of_lt_of_le hzero h.next, fun r hr => ?_⟩
    · simp [TransactionManager.initial, CLog.empty] at hx
    · cases hr
  have hfinish (m : TransactionManager) (hm : m.Bounded ∧ m.nextXid = ckp.nextXid) :
      (m.rebuildActiveFromClog.resetContext).Bounded ∧
        (m.rebuildActiveFromClog.resetContext).nextXid = ckp.nextXid :=
    ⟨hm.1.rebuildActiveFromClog.clear rfl rfl, hm.2⟩
  rw [restoreTransactions, Prog.wp_bind, Prog.wp_modify, Prog.wp_bind, hnext, restoreClog]
  split
  · exact hfinish _ ⟨hstart.setClog h.clog, rfl⟩
  · rename_i he
    rw [h.entries (not_not.mp he)]
    exact hfinish _ ⟨hstart, rfl⟩

theorem wp_restore (h : ckp.Bounded) (d : Disk) (checkpointInterval : Int32) (clock : Int64) :
    (restore ckp).wp (fun _ => Recovering ckp.nextXid) (fun _ _ => True)
      (create d checkpointInterval clock) := by
  have hsealed : Sealed TransactionManager.initial ckp.nextXid
      { create d checkpointInterval clock with walSeq := ckp.lastSeq } :=
    ⟨rfl, fun q mem hq => by simp [create] at hq⟩
  rw [restore, Prog.wp_bind, Prog.wp_modify, Prog.wp_bind]
  refine Prog.wp_mono (sealed_inCatalog _ _ hsealed) (fun isOld e he => ?_) fun _ _ _ => trivial
  rw [Prog.wp_bind]
  refine Prog.wp_mono (Prog.Keeps.forEach (fun t _ => sealed_restoreTable h isOld t) e he)
    (fun _ e he => ?_) fun _ _ _ => trivial
  rw [inTxn, Prog.wp_zoom, he.manager]
  exact Prog.wp_mono (wp_restoreTransactions h)
    (fun _ m hm => ⟨hm.1, hm.2, he.stamps⟩) fun _ _ _ => trivial

end Restore

/-! ### Replaying -/

section Replay
variable {m : TransactionManager} {n : TransactionId} {e : StorageEngine} {r : WALRecordV3}

theorem recovering_of_sealed {α : Type} {p : EngineM α}
    (hp : ∀ m : TransactionManager, Prog.Keeps (Sealed m n) p) :
    Prog.Keeps (Recovering n) p := fun e h => by
  have hback (e' : StorageEngine) (h' : Sealed e.txnMgr n e') : Recovering n e' :=
    ⟨by rw [h'.manager]; exact h.manager, by rw [h'.manager]; exact h.next, h'.stamps⟩
  exact Prog.wp_mono (hp _ e ⟨rfl, h.stamps⟩) (fun _ e' h' => hback e' h') fun _ e' h' => hback e' h'

theorem recovering_setStatus {xid : TransactionId} (hxid : xid < n) (status : TransactionStatus) :
    Prog.Keeps (ε := Failure) (Recovering n) (Prog.modify (setStatus xid status)) := by
  refine Prog.Keeps.modify fun e h => ?_
  rw [setStatus]
  split
  · exact h
  · refine ⟨h.manager.setClog ?_, h.next, h.stamps⟩
    exact Bounded.setStatus_below h.manager.clog (by rw [h.next]; exact hxid) status

theorem sealed_replayRow {body : MemTable → EngineM Unit}
    (hbody : ∀ mem, MemBelow n mem → Prog.Keeps (Sealed m n) (body mem)) :
    Prog.Keeps (Sealed m n) (replayRow r body) := by
  refine Prog.Keeps.get_bind fun e h => ?_
  split
  · split
    · exact h
    · exact hbody _ (h.stamps _ _ ‹_›) e h
  · exact h

theorem sealed_replayInsert (h : ∀ p, walDecodeInsert r.data = some p → RowBelow n p.row) :
    Prog.Keeps (Sealed m n) (replayInsert r) := by
  rw [replayInsert]
  split
  · exact Prog.Keeps.pure _
  · exact (sealed_putVersion _ _ (h _ ‹_›)).bind fun _ => (sealed_updateIndexes _ _ _).bind fun _ =>
      (sealed_setRowCount _).bind fun _ => sealed_frame fun _ => ⟨rfl, rfl⟩

theorem sealed_replayUpdate (h : ∀ p, walDecodeUpdate r.data = some p → RowBelow n p.newRow) :
    Prog.Keeps (Sealed m n) (replayUpdate r) := by
  rw [replayUpdate]
  split
  · exact Prog.Keeps.pure _
  · exact (sealed_putVersion _ _ (h _ ‹_›)).bind fun _ => Prog.Keeps.get.bind fun _ =>
      (sealed_rebuildIf _ _).bind fun _ => (sealed_rebuildIndexes _).bind fun _ =>
        sealed_setRowCount _

theorem sealed_replayDelete
    (h : ∀ p, walDecodeDelete r.data = some p → ∀ x, p.xmax = some x → x < n) {mem : MemTable}
    (hmem : MemBelow n mem) : Prog.Keeps (Sealed m n) (replayDelete r mem) := by
  rw [replayDelete]
  split
  · exact Prog.Keeps.pure _
  · rename_i p hp
    split
    · rename_i x hx
      split
      · exact Prog.Keeps.pure _
      · rename_i t ht
        intro e he
        rw [Prog.wp_bind, Prog.wp_ofExcept]
        refine ⟨fun row hrow => ?_, fun _ _ => he⟩
        have hbelow : RowBelow n row := (rowBelow_iff hrow).mpr (hmem.latest ht)
        exact sealed_putVersion _ _ (hbelow.setXmax (h p hp x hx)) e he
    · exact (sealed_eraseVersions _ _).bind fun _ => (sealed_rebuildIndexes _).bind fun _ =>
        sealed_setRowCount _

theorem recovering_replayRecord (h : r.Below n) : Prog.Keeps (Recovering n) (replayRecord r) := by
  obtain ⟨hxid, hdata⟩ := h
  rw [replayRecord]
  cases hop : WalOp.ofTag r.op with
  | createDatabase => exact recovering_of_sealed fun _ => sealed_inCatalog _
  | dropDatabase =>
    exact Prog.Keeps.get.bind fun _ => Prog.Keeps.ite
      (fun _ => recovering_of_sealed fun _ => sealed_inCatalog _) fun _ => Prog.Keeps.pure _
  | createSchema =>
    dsimp only
    split
    · exact Prog.Keeps.pure _
    · exact recovering_of_sealed fun _ => sealed_inCatalog _
  | createUser => exact Prog.Keeps.pure _
  | dropUser =>
    exact Prog.Keeps.get.bind fun _ => Prog.Keeps.ite
      (fun _ => recovering_of_sealed fun _ => sealed_inCatalog _) fun _ => Prog.Keeps.pure _
  | createTable =>
    dsimp only
    split
    · exact Prog.Keeps.pure _
    · exact recovering_of_sealed fun _ => (Prog.Keeps.modify fun e he => he.resetTable _ _).bind
        fun _ => sealed_createKeyIndexes _ _
  | dropTable => exact recovering_of_sealed fun _ => Prog.Keeps.modify fun e he => he.eraseTable _
  | xactCommit => exact recovering_setStatus hxid _
  | xactAbort => exact recovering_setStatus hxid _
  | insert =>
    rw [hop] at hdata
    refine recovering_of_sealed fun _ => sealed_replayRow fun _ _ => sealed_replayInsert ?_
    intro p hp
    simpa [hp] using hdata
  | update =>
    rw [hop] at hdata
    refine recovering_of_sealed fun _ => sealed_replayRow fun _ _ => sealed_replayUpdate ?_
    intro p hp
    simpa [hp] using hdata
  | delete =>
    rw [hop] at hdata
    refine recovering_of_sealed fun _ => sealed_replayRow fun _ hmem => sealed_replayDelete ?_ hmem
    intro p hp x hx
    simpa [hp, hx] using hdata
  | unknown => exact Prog.Keeps.pure _

end Replay

/-! ### Loading -/

/-- The log holds nothing of a transaction whose id the checkpoint does not know. -/
def LogBelow (d : Disk) : Prop :=
  ∀ r ∈ recordsAbove d d.checkpoint, r.Below d.checkpoint.nextXid

instance (d : Disk) : Decidable (LogBelow d) := by
  unfold LogBelow
  infer_instance

theorem recovering_load {d : Disk} (hckp : d.checkpoint.Bounded) (hlog : LogBelow d)
    {checkpointInterval : Int32} {clock : Int64} {e : StorageEngine}
    (hload : load.run (create d checkpointInterval clock) = (.ok (), e)) :
    Recovering d.checkpoint.nextXid e := by
  have hrestore := wp_restore hckp d checkpointInterval clock
  rcases hrun : (restore d.checkpoint).run (create d checkpointInterval clock) with ⟨f | ⟨⟩, e₀⟩
  · rw [load, Prog.bind_ok (Prog.run_get _)] at hload
    have hload : ((.error f, e₀) : Except Failure Unit × StorageEngine) = (.ok (), e) :=
      (Prog.bind_error hrun).symm.trans hload
    cases hload
  · have h₀ := Prog.wp_ok hrestore hrun
    rw [run_load rfl hrun] at hload
    have hreplay : Prog.Keeps (Recovering d.checkpoint.nextXid)
        (Prog.forEach replayRecord (recordsAbove d d.checkpoint)) :=
      Prog.Keeps.forEach fun r hr => recovering_replayRecord (hlog r hr)
    have h := hreplay { e₀ with wal := (e₀.wal.replay d d.checkpoint.lastSeq).2 }
      ⟨h₀.manager, h₀.next, h₀.stamps⟩
    have hrec := Prog.wp_ok h hload
    exact hrec

theorem Recovering.bounded {n : TransactionId} {e : StorageEngine} (h : Recovering n e) :
    Bounded 0 e := ⟨⟨h.manager, UInt32.zero_le⟩, by rw [h.next]; exact h.stamps⟩

end StorageEngine

/-! ### Runs -/

namespace Session

/-- The id that a new transaction gets is above all ids that the load of `d` has brought back. -/
structure Fresh (xid : TransactionId) (d : Disk) (e : StorageEngine) : Prop where
  clog : ∀ x ∈ e.txnMgr.clog.allXids, x < xid
  tuples : ∀ (q : Str) (mem : MemTable), e.data[q]? = some mem → ∀ t ∈ mem.scanAll,
    t.hdr.xmin < xid ∧ t.hdr.xmax < xid
  records : ∀ r ∈ recordsAbove d d.checkpoint, r.xid < xid

/-- A client makes its own calls only, checkpoints fit their file, and at a restart the ids in the
log are ids that the checkpoint knows. -/
def XidSafe (s : Session) : Action → Prop
  | .call c => ClientCall s.engine c ∧ (c.checksCheckpoint → ∀ e,
      c.body.run s.engine = (.ok (), e) → e.checkpointDue → Savable e)
  | .save => Savable s.engine
  | .close => Savable s.engine
  | .restart k n _ _ => LogBelow (s.engine.dir.crash k n)

end Session

namespace StorageEngine
variable {n : TransactionId} {e : StorageEngine}

theorem Bounded.congr {e' : StorageEngine} (h : Bounded n e) (hm : e'.txnMgr = e.txnMgr)
    (hd : e'.data = e.data) : Bounded n e' :=
  ⟨by rw [hm]; exact h.manager, by rw [hm, hd]; exact h.stamps⟩

/-- The state and all that a crash can leave of the directory. -/
structure XidInvariant (e : StorageEngine) : Prop where
  engine : Bounded 0 e
  dir : e.dir.Leaves Checkpoint.Bounded

theorem XidInvariant.checkpoint (h : XidInvariant e) (hs : Savable e) :
    XidInvariant (checkpoint.run e).2 := by
  rw [run_checkpoint]
  cases hckp : e.toCheckpoint with
  | error f => exact h
  | ok ckp =>
    have hfits := hs ckp hckp
    have hbounded := (h.engine.toCheckpoint hckp hfits).reloaded (binary_toCheckpoint hckp)
    have hsaved := h.dir.saveCheckpoint hfits (binary_toCheckpoint hckp)
      Checkpoint.bounded_empty hbounded
    exact ⟨h.engine.congr rfl rfl, hsaved.rewriteWal _⟩

theorem XidInvariant.call (h : XidInvariant e) {c : Call} (hc : ClientCall e c)
    (hs : c.checksCheckpoint → ∀ e', c.body.run e = (.ok (), e') → e'.checkpointDue → Savable e') :
    XidInvariant (c.exec.run e).2 := by
  refine exec_of_body ?_ fun hcheck e' hrun hdue h' => h'.checkpoint (hs hcheck e' hrun hdue)
  have hengine := h.engine.wp_body hc
  have hdir := (LogInvariant.keeps_body (logInvariant_leaves Checkpoint.Bounded) c).final h.dir
  rcases hrun : c.body.run e with ⟨f | ⟨⟩, e'⟩ <;> rw [hrun] at hdir
  · have hbounded := Prog.wp_error hengine hrun
    exact ⟨hbounded, hdir⟩
  · have hbounded := Prog.wp_ok hengine hrun
    exact ⟨hbounded, hdir⟩

theorem XidInvariant.load (h : XidInvariant e) {k n : Nat} (hlog : LogBelow (e.dir.crash k n))
    {checkpointInterval : Int32} {clock : Int64} {e' : StorageEngine}
    (hload : load.run (create (e.dir.crash k n) checkpointInterval clock) = (.ok (), e')) :
    XidInvariant e' := by
  refine ⟨(recovering_load (h.dir k n) hlog hload).bounded, ?_⟩
  rw [dir_of_load hload]
  exact Dir.Leaves.create (h.dir k n)

end StorageEngine

theorem xidInvariant_next {s : Session} {a : Action} {e : StorageEngine} (h : XidInvariant s.engine)
    (ha : s.XidSafe a) (hs : Session.Moves s.engine e a) : XidInvariant e := by
  cases a with
  | call c =>
    subst hs
    exact h.call ha.1 ha.2
  | save =>
    subst hs
    exact h.checkpoint ha
  | close =>
    subst hs
    exact h.checkpoint ha
  | restart k n checkpointInterval clock => exact h.load ha hs

theorem xidInvariant_of_reached {s : Session} (h : Session.Reached Session.XidSafe s) :
    XidInvariant s.engine := by
  refine h.engine (fun checkpointInterval clock => ?_) fun s a e ha ih hs => ?_
  · refine ⟨⟨⟨TransactionManager.Bounded.initial, UInt32.zero_le⟩, fun q mem hq => ?_⟩, ?_⟩
    · simp [create] at hq
    · exact Dir.Leaves.create Checkpoint.bounded_empty
  · exact xidInvariant_next ih ha hs

theorem run_allocateXid {m m' : TransactionManager} {xid : TransactionId}
    (h : allocateXid.run m = (.ok xid, m')) : xid = m.nextXid := by
  rw [allocateXid, Prog.bind_ok (Prog.run_modify _ _), Prog.bind_ok (Prog.run_get _)] at h
  rw [← nextXid_maybeAntiWraparound m]
  split at h
  · cases h
  · cases h
    rfl

/-- After safe runs and a crash anywhere, the next id is above all that has come back. -/
theorem fresh_of_xidSafe {s : Session} (h : Session.Reached Session.XidSafe s) {k n : Nat}
    {checkpointInterval : Int32} {clock : Int64} {e : StorageEngine} {xid : TransactionId}
    {m : TransactionManager} (hsafe : s.XidSafe (.restart k n checkpointInterval clock))
    (hload : load.run (create (s.engine.dir.crash k n) checkpointInterval clock) = (.ok (), e))
    (hnext : allocateXid.run e.txnMgr = (.ok xid, m)) :
    Session.Fresh xid (s.engine.dir.crash k n) e := by
  have hrec := recovering_load ((xidInvariant_of_reached h).dir k n) hsafe hload
  have hxid : xid = (s.engine.dir.crash k n).checkpoint.nextXid :=
    (run_allocateXid hnext).trans hrec.next
  rw [hxid]
  constructor
  · intro x hx
    rw [← hrec.next]
    exact hrec.manager.clog x (Std.ExtTreeMap.mem_keys.mp hx)
  · exact fun q mem hq t ht => hrec.stamps q mem hq t ht
  · exact fun r hr => (hsafe r hr).1

/-! ### One committed transaction -/

/-- A table, and a transaction that inserts a row and commits. -/
def transaction : List Call :=
  [.createTable (str "t") [⟨str "a", .integer, true, false, none⟩], .insertWithTxn (str "t") oneRow,
    .txn ManagerCall.commitTransaction.run, .writeXactCommit 3]

def transactedEngine : StorageEngine :=
  transaction.foldl (fun e c => (c.exec.run e).2) (create Disk.empty 0 0)

def transactedRecords : List WALRecordV3 :=
  transactedEngine.dir.journal.filterMap DiskEvent.appended

/-- What one evaluation of the run shows of its files and of the checkpoint that a save would write. -/
theorem transactedEngine_state :
    transactedEngine.dir.disk.checkpointBin = none ∧
      transactedEngine.dir.disk.checkpointJson = none ∧
      transactedEngine.dir.journal.length ≤ 3 ∧ LogTail transactedEngine 0 0 ∧
      transactedEngine.toCheckpoint.isOk = true ∧
      transactedEngine.toCheckpoint.toOption.all (fun ckp => decide ckp.Fits) = true := by
  decide +kernel

theorem logHolds_transactedEngine : LogHolds transactedEngine 0 transactedRecords :=
  logHolds_of_tail transactedEngine_state.2.2.2.1

theorem checkpoint_transactedEngine : transactedEngine.dir.disk.checkpoint = Checkpoint.empty := by
  obtain ⟨hbin, hjson, -⟩ := transactedEngine_state
  rw [Disk.checkpoint, hbin, hjson]
  rfl

theorem Session.Reached.mono {P Q : Session → Action → Prop} (hPQ : ∀ s a, P s a → Q s a)
    {s : Session} (h : Session.Reached P s) : Session.Reached Q s := by
  induction h with
  | start checkpointInterval clock => exact .start checkpointInterval clock
  | step _ ha hs ih => exact .step ih (hPQ _ _ ha) hs

def transactedCheckpoint : Checkpoint :=
  transactedEngine.toCheckpoint.toOption.getD Checkpoint.empty

def savedEngine : StorageEngine :=
  { transactedEngine with
    dir := (transactedEngine.dir.push (.saveCheckpoint transactedCheckpoint)).push (.rewriteWal [])
    walSeq := transactedEngine.wal.seq }

/-- After the checkpoint a row of no transaction and a database. -/
def continuedEngine : StorageEngine :=
  ((Call.createDatabase (str "d")).exec.run ((Call.insert (str "t") oneRow).exec.run savedEngine).2).2

/-- The records above the checkpoint. -/
def continuedRecords : List WALRecordV3 :=
  (continuedEngine.dir.journal.drop 5).filterMap DiskEvent.appended

section Run
variable {P : Session → Action → Prop} {C : StorageEngine → Call → Prop}
  (hcall : ∀ s c, C s.engine c → (c.checksCheckpoint → ∀ e, c.body.run s.engine = (.ok (), e) →
    e.checkpointDue → Savable e) → P s (.call c))
  (htable : C (create Disk.empty 0 0) (.createTable (str "t") [⟨str "a", .integer, true, false, none⟩]))
  (htransacted : C emptyTable (.insertWithTxn (str "t") oneRow))
  (hcommit : ∀ e, C e (.txn ManagerCall.commitTransaction.run)) (hstatus : ∀ e, C e (.writeXactCommit 3))
include hcall htable htransacted hcommit hstatus

/-- The runs that lead there, under any condition on their calls. -/
theorem reached_transactedEngine : Session.Reached P ⟨transactedEngine, [], false⟩ := by
  refine .step (a := .call (.writeXactCommit 3)) (.step
    (a := .call (.txn ManagerCall.commitTransaction.run)) (.step
    (a := .call (.insertWithTxn (str "t") oneRow)) (.step
    (a := .call (.createTable (str "t") [⟨str "a", .integer, true, false, none⟩])) (.start 0 0)
    (hcall _ _ htable fun _ e hrun hdue => ?_) rfl) (hcall _ _ htransacted fun _ e hrun hdue => ?_) rfl)
    (hcall _ _ (hcommit _) fun h => nomatch h) rfl) (hcall _ _ (hstatus _) fun h => nomatch h) rfl
  · exact absurd hdue (not_due (by decide +kernel) hrun)
  · exact absurd hdue (not_due (by decide +kernel) hrun)

theorem reached_continuedEngine (hsave : ∀ s, Savable s.engine → P s .save)
    (hplain : C savedEngine (.insert (str "t") oneRow)) (hdatabase : ∀ e, C e (.createDatabase (str "d"))) :
    Session.Reached P ⟨continuedEngine, [], false⟩ := by
  obtain ⟨-, -, -, htail, hok, hfits⟩ := transactedEngine_state
  have hsaved : Session.Reached P ⟨savedEngine, [], false⟩ := by
    refine .step (a := .save) (reached_transactedEngine hcall htable htransacted hcommit hstatus)
      (hsave _ fun ckp hckp => ?_) ?_
    · exact ExceptList.of_all_ok hfits hckp
    · rw [Session.next, if_neg Bool.false_ne_true, StorageEngine.save, checkpoint_appended hok htail]
      rfl
  refine .step (a := .call (.createDatabase (str "d"))) (.step (a := .call (.insert (str "t") oneRow)) hsaved
    (hcall _ _ hplain fun _ e hrun hdue => ?_) rfl) (hcall _ _ (hdatabase _) fun _ e hrun hdue => ?_) rfl
  · exact absurd hdue (not_due (by decide +kernel) hrun)
  · exact absurd hdue (not_due (by decide +kernel) hrun)

end Run

/-- What a load of its directory gives, but for the files. -/
def recoveredEngine : StorageEngine :=
  ((rebuild continuedEngine.dir.disk.checkpoint continuedRecords).run blank).2

/-- What one evaluation shows of the files and of that engine. -/
theorem recoveredEngine_state : continuedEngine.dir.journal.length ≤ 7 ∧
    LogTail continuedEngine continuedEngine.dir.disk.checkpoint.lastSeq 5 ∧
    (∀ r ∈ continuedRecords, r.Below continuedEngine.dir.disk.checkpoint.nextXid) ∧
    ((rebuild continuedEngine.dir.disk.checkpoint continuedRecords).run blank).1 = .ok () ∧
    (allocateXid.run recoveredEngine.txnMgr).1 = .ok 4 ∧ recoveredEngine.txnMgr.clog.allXids = [3] := by
  decide +kernel

theorem recordsAbove_continuedEngine :
    recordsAbove continuedEngine.dir.disk continuedEngine.dir.disk.checkpoint = continuedRecords :=
  (logHolds_of_tail recoveredEngine_state.2.1).recordsAbove_eq rfl

theorem crash_continuedEngine : continuedEngine.dir.crash 7 0 = continuedEngine.dir.disk :=
  Dir.crash_of_le recoveredEngine_state.1 0

theorem load_continuedEngine : ∃ wal, load.run (create (continuedEngine.dir.crash 7 0) 0 0) =
    (.ok (), moved (Dir.create continuedEngine.dir.disk) wal 0 0 recoveredEngine) := by
  obtain ⟨wal, hload⟩ := run_load_rebuild
    (show _ = continuedEngine.dir.disk.checkpoint from rfl) 0 0
  rw [recordsAbove_continuedEngine, recoveredEngine_state.2.2.2.1] at hload
  rw [crash_continuedEngine]
  exact ⟨wal, hload⟩

/-- The checkpoint and the log together: the next id is 4, and the commit log names 3. -/
theorem fresh_recoveredEngine : ∃ e, load.run (create (continuedEngine.dir.crash 7 0) 0 0) = (.ok (), e) ∧
    e.txnMgr.clog.allXids = [3] ∧ Session.Fresh 4 (continuedEngine.dir.crash 7 0) e := by
  obtain ⟨-, -, hbelow, -, hxid, hclog⟩ := recoveredEngine_state
  have hreached : Session.Reached Session.XidSafe ⟨continuedEngine, [], false⟩ :=
    reached_continuedEngine (C := ClientCall) (fun _ _ hc hs => ⟨hc, hs⟩) trivial trivial
      (fun _ => ⟨.commitTransaction, rfl, rfl⟩) (fun _ => trivial) (fun _ hs => hs)
      (by decide +kernel : InsertsBelow (str "t") oneRow savedEngine) fun _ => trivial
  have hsafe : LogBelow (continuedEngine.dir.crash 7 0) := by
    rw [crash_continuedEngine, LogBelow, recordsAbove_continuedEngine]
    exact hbelow
  obtain ⟨wal, hload⟩ := load_continuedEngine
  exact ⟨_, hload, hclog, fresh_of_xidSafe hreached hsafe hload (Prod.ext hxid rfl)⟩

/-- What a load of its directory gives, but for the files. -/
def reloadedEngine : StorageEngine := ((rebuild Checkpoint.empty transactedRecords).run blank).2

/-- What one evaluation shows of that engine. -/
theorem reloadedEngine_state :
    ((rebuild Checkpoint.empty transactedRecords).run blank).1 = .ok () ∧
      (allocateXid.run reloadedEngine.txnMgr).1 = .ok 3 ∧
      3 ∈ reloadedEngine.txnMgr.clog.allXids := by
  decide +kernel

theorem load_transactedEngine : ∃ wal, load.run (create transactedEngine.dir.disk 0 0) =
    (.ok (), moved (Dir.create transactedEngine.dir.disk) wal 0 0 reloadedEngine) := by
  obtain ⟨wal, hload⟩ := run_load_rebuild checkpoint_transactedEngine 0 0
  rw [logHolds_transactedEngine.recordsAbove_eq rfl] at hload
  rw [reloadedEngine_state.1] at hload
  exact ⟨wal, hload⟩

theorem allocateXid_reloadedEngine :
    ∃ m, allocateXid.run reloadedEngine.txnMgr = (.ok 3, m) := by
  obtain ⟨-, hxid, -⟩ := reloadedEngine_state
  exact ⟨_, Prod.ext hxid rfl⟩

/-- A crash after the last write to the directory. -/
theorem exists_reused {e x : StorageEngine} {wal : WriteAheadLogV3} {m : TransactionManager}
    {xid : TransactionId} {k : Nat} (hreached : Session.Reached (fun _ _ => True) ⟨e, [], false⟩)
    (hcrash : e.dir.crash k 0 = e.dir.disk)
    (hload : load.run (create e.dir.disk 0 0) = (.ok (), moved (Dir.create e.dir.disk) wal 0 0 x))
    (hnext : allocateXid.run x.txnMgr = (.ok xid, m)) (hclog : xid ∈ x.txnMgr.clog.allXids) :
    ∃ (s : Session) (k n : Nat) (e : StorageEngine) (xid : TransactionId)
      (m : TransactionManager), Session.Reached (fun _ _ => True) s ∧
      load.run (create (s.engine.dir.crash k n) 0 0) = (.ok (), e) ∧
      allocateXid.run e.txnMgr = (.ok xid, m) ∧ ¬ Session.Fresh xid (s.engine.dir.crash k n) e := by
  refine ⟨⟨e, [], false⟩, k, 0, moved (Dir.create e.dir.disk) wal 0 0 x, xid, m, hreached, ?_, hnext,
    fun hfresh => UInt32.lt_irrefl xid (hfresh.clog xid hclog)⟩
  rw [hcrash]
  exact hload

/-- No checkpoint knows the transaction: its commit is read from the log and its id handed out
again. -/
theorem xid_reused : ∃ (s : Session) (k n : Nat) (e : StorageEngine) (xid : TransactionId)
    (m : TransactionManager), Session.Reached (fun _ _ => True) s ∧
    load.run (create (s.engine.dir.crash k n) 0 0) = (.ok (), e) ∧
    allocateXid.run e.txnMgr = (.ok xid, m) ∧ ¬ Session.Fresh xid (s.engine.dir.crash k n) e := by
  obtain ⟨-, -, hlen, -⟩ := transactedEngine_state
  obtain ⟨-, -, hclog⟩ := reloadedEngine_state
  have hcrash : transactedEngine.dir.crash 3 0 = transactedEngine.dir.disk := Dir.crash_of_le hlen 0
  obtain ⟨wal, hload⟩ := load_transactedEngine
  obtain ⟨m, hnext⟩ := allocateXid_reloadedEngine
  exact exists_reused (Session.reached_calls (.start 0 0) transaction) hcrash hload hnext hclog

end JiaMiaoDB
