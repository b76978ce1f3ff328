import JiaMiaoDB.Storage.FreshView
import JiaMiaoDB.Storage.TornCheckpoint
import JiaMiaoDB.Storage.WalDamage

/-!
# Crashes inside a checkpoint

A checkpoint writes its file in place and then rewrites the log. Whatever a crash leaves of the two
is again a checkpoint and a list of records: a file that was cut off counts as an empty checkpoint,
and a log that was cut off loses its last records. The state is recovered when what is left still
gives it.
-/

set_option autoImplicit false

namespace JiaMiaoDB
open WALRecordV3 ByteFormat

/-! ### Records that were read from a file -/

namespace WALRecordV3

theorem wp_decodeBody (buf : Bytes) : decodeBody.wp (fun r _ => r.Fits) (fun _ _ => True) buf := by
  have skip {α β : Type} {p : Reader DecodeError α} {f : α → Reader DecodeError β} {P : β → Prop}
      {s : Bytes} (h : ∀ a s', (f a).wp (fun b _ => P b) (fun _ _ => True) s') :
      (p >>= f).wp (fun b _ => P b) (fun _ _ => True) s :=
    Prog.wp_bind.mpr (Prog.wp_mono (Prog.wp_true p) (fun a s' _ => h a s') fun _ _ h => h)
  unfold decodeBody
  refine skip fun _ _ => skip fun _ _ => skip fun _ _ => skip fun _ _ => skip fun _ _ =>
    skip fun _ _ => skip fun _ _ => skip fun _ s => ?_
  refine Prog.wp_bind.mpr (Prog.wp_mono (wp_readLE 2 _ s) (fun tlen s htlen => ?_) fun _ _ h => h)
  refine skip fun _ s => ?_
  refine Prog.wp_bind.mpr (Prog.wp_mono (wp_readBytes tlen _ s) (fun table s htable => ?_)
    fun _ _ h => h)
  refine skip fun _ s => ?_
  refine Prog.wp_bind.mpr (Prog.wp_mono (wp_readLE 4 _ s) (fun dlen s hdlen => ?_) fun _ _ h => h)
  refine skip fun _ s => ?_
  refine Prog.wp_bind.mpr (Prog.wp_mono (wp_readBytes dlen _ s) (fun data s hdata => ?_)
    fun _ _ h => h)
  rw [Prog.wp_pure]
  constructor
  · simp only [htable]
    exact htlen
  · simp only [hdata]
    exact hdlen

theorem fits_of_decode {buf rest : Bytes} {r : WALRecordV3} (h : decode buf = .ok (r, rest)) :
    r.Fits := by
  simp only [decode] at h
  rcases hbody : decodeBody.run buf with ⟨e | r', mid⟩
  · rw [hbody] at h
    cases h
  · have hfits := Prog.wp_ok (wp_decodeBody buf) hbody
    rw [hbody] at h
    simp only at h
    split at h
    · cases h
    · split at h
      · cases h
      · cases h
        exact hfits

end WALRecordV3

theorem fits_of_mem_scanRecords {fuel : Nat} {buf : Bytes} {r : WALRecordV3}
    (h : r ∈ scanRecords fuel buf) : r.Fits := by
  induction fuel generalizing buf with
  | zero => cases h
  | succ fuel ih =>
    rw [scanRecords] at h
    split at h
    · cases h
    · split at h
      · cases h
      · split at h
        · cases h
        · exact ih h
      · rename_i r' rest hd
        rcases List.mem_cons.mp h with rfl | h
        · exact fits_of_decode hd
        · exact ih h

theorem fits_of_mem_readLog {file : Bytes} {r : WALRecordV3} (h : r ∈ readLog file) : r.Fits := by
  rw [readLog] at h
  split at h
  · exact fits_of_mem_scanRecords h
  · cases h

theorem fits_of_mem_replay {w : WriteAheadLogV3} {d : Disk} {fromSeq : Int64} {r : WALRecordV3}
    (h : r ∈ (w.replay d fromSeq).1) : r.Fits :=
  fits_of_mem_readLog (List.mem_filter.mp h).1

namespace StorageEngine

/-! ### The crash points -/

/-- A checkpoint file that cannot be opened is left as it is, and the checkpoint goes on. -/
def checkpointTo (opened : Bool) : EngineM Unit := do
  let e ← Prog.get
  let ckp ← Prog.ofExcept e.toCheckpoint
  Prog.set ((if opened then e.saveCheckpoint ckp else e).truncateWal ckp.lastSeq)

/-- Before the first write, or `n` bytes into the `k`-th one. -/
inductive CrashPoint where
  | before
  | during (opened : Bool) (k n : Nat)

def CrashPoint.disk (e : StorageEngine) : CrashPoint → Disk
  | before => e.dir.disk
  | during opened k n => ((checkpointTo opened).run e).2.dir.crash (e.dir.journal.length + k) n

/-- The checkpoint that a load finds now. -/
def oldCheckpoint (e : StorageEngine) : Checkpoint :=
  CheckpointManager.load e.dir.disk.checkpointBin e.dir.disk.checkpointJson

/-- The records that a checkpoint leaves in the log. -/
def keptRecords (e : StorageEngine) : List WALRecordV3 :=
  (WriteAheadLogV3.replay ⟨0⟩ e.dir.disk e.walSeq).1

variable {e x : StorageEngine} {ckp : Checkpoint} {checkpointInterval : Int32} {clock : Int64}

theorem run_checkpointTo (h : e.toCheckpoint = .ok ckp) (opened : Bool) :
    (checkpointTo opened).run e =
      (.ok (), (if opened then e.saveCheckpoint ckp else e).truncateWal ckp.lastSeq) := by
  rw [checkpointTo, Prog.bind_ok (Prog.run_get e), h]
  rfl

example : checkpointTo true = checkpoint := rfl

theorem dir_truncateWal (e : StorageEngine) (cutoff : Int64) : (e.truncateWal cutoff).dir =
    e.dir.push (.rewriteWal (WriteAheadLogV3.replay ⟨0⟩ e.dir.disk cutoff).1) := rfl

theorem dir_checkpointTo (h : e.toCheckpoint = .ok ckp) (opened : Bool) :
    ((checkpointTo opened).run e).2.dir =
      (if opened then e.dir.push (.saveCheckpoint ckp) else e.dir).push
        (.rewriteWal e.keptRecords) := by
  rw [run_checkpointTo h, dir_truncateWal, lastSeq_toCheckpoint h, keptRecords]
  cases opened with
  | false => rfl
  | true =>
    simp only [if_true, saveCheckpoint, Dir.disk_push]
    rfl

/-! ### What is left of the files -/

theorem disk_file (h : e.toCheckpoint = .ok ckp) (n : Nat) : (CrashPoint.during true 0 n).disk e =
    { e.dir.disk with checkpointBin := some ((CheckpointManager.save ckp).take n) } := by
  rw [CrashPoint.disk, dir_checkpointTo h, if_pos rfl, Nat.add_zero,
    Dir.crash_push_of_lt (by simp), Dir.crash_push_last]
  rfl

theorem disk_log (h : e.toCheckpoint = .ok ckp) (n : Nat) : (CrashPoint.during true 1 n).disk e =
    { e.dir.disk with
      checkpointBin := some (CheckpointManager.save ckp)
      walLog := (encodeLog e.keptRecords).take n } := by
  have hlength : e.dir.journal.length + 1 = (e.dir.push (.saveCheckpoint ckp)).journal.length := by
    simp
  rw [CrashPoint.disk, dir_checkpointTo h, if_pos rfl, hlength, Dir.crash_push_last, Dir.disk_push]
  rfl

theorem disk_done (h : e.toCheckpoint = .ok ckp) (k n : Nat) :
    (CrashPoint.during true (k + 2) n).disk e =
      { e.dir.disk with
        checkpointBin := some (CheckpointManager.save ckp)
        walLog := encodeLog e.keptRecords } := by
  rw [CrashPoint.disk, dir_checkpointTo h, if_pos rfl, Dir.crash_of_le (by simp),
    Dir.disk_push, Dir.disk_push]
  rfl

theorem disk_unopened (h : e.toCheckpoint = .ok ckp) (n : Nat) :
    (CrashPoint.during false 0 n).disk e =
      { e.dir.disk with walLog := (encodeLog e.keptRecords).take n } := by
  rw [CrashPoint.disk, dir_checkpointTo h, if_neg (by simp), Nat.add_zero, Dir.crash_push_last]
  rfl

theorem disk_unopened_done (h : e.toCheckpoint = .ok ckp) (k n : Nat) :
    (CrashPoint.during false (k + 1) n).disk e =
      { e.dir.disk with walLog := encodeLog e.keptRecords } := by
  rw [CrashPoint.disk, dir_checkpointTo h, if_neg (by simp), Dir.crash_of_le (by simp),
    Dir.disk_push]
  rfl

/-- The checkpoint could not be taken, so nothing was written. -/
theorem disk_failed {f : Failure} (h : e.toCheckpoint = .error f) (p : CrashPoint) :
    p.disk e = e.dir.disk := by
  cases p with
  | before => rfl
  | during opened k n =>
    have hrun : (checkpointTo opened).run e = (.error f, e) := by
      rw [checkpointTo, Prog.bind_ok (Prog.run_get e), h]
      rfl
    rw [CrashPoint.disk, hrun, Dir.crash_of_le (Nat.le_add_right _ _)]

theorem recordsAbove_cut {n : Nat} {d : Disk} (hd : d.walLog = (encodeLog e.keptRecords).take n)
    (ckp : Checkpoint) : recordsAbove d ckp =
      (wholeBefore n e.keptRecords).filter fun r => ckp.lastSeq < r.seq :=
  replay_cut (fun _ hr => fits_of_mem_replay hr) n ckp.lastSeq ⟨0⟩ hd

theorem recordsAbove_kept {d : Disk} (hd : d.walLog = encodeLog e.keptRecords) (ckp : Checkpoint) :
    recordsAbove d ckp = e.keptRecords.filter fun r => ckp.lastSeq < r.seq := by
  have hfits : ∀ r ∈ e.keptRecords, r.Fits := fun _ hr => fits_of_mem_replay hr
  rw [recordsAbove, WriteAheadLogV3.replay_encodeLog hfits (.inl rfl) (by rw [hd, List.append_nil])]

/-- Above the checkpoint it belongs to, the whole log is replayed. -/
theorem LogHolds.recordsAbove_eq {lastSeq : Int64} {records : List WALRecordV3}
    (h : LogHolds e lastSeq records) (hckp : ckp.lastSeq = lastSeq) : recordsAbove e.dir.disk ckp = records := by
  rw [recordsAbove, WriteAheadLogV3.replay_encodeLog h.fits (.inl rfl)
    (by rw [h.walLog, List.append_nil]), hckp]
  exact List.filter_eq_self.mpr fun r hr => decide_eq_true (h.above r hr)

theorem lastSeq_reloaded (h : e.toCheckpoint = .ok ckp) : ckp.reloaded.lastSeq = e.walSeq :=
  (show ckp.reloaded.lastSeq = ckp.lastSeq from rfl).trans (lastSeq_toCheckpoint h)

theorem filter_above_counter {records : List WALRecordV3} (h : ∀ r ∈ records, r ∈ e.keptRecords) :
    records.filter (fun r => e.walSeq < r.seq) = records :=
  List.filter_eq_self.mpr fun r hr => by simpa using mem_replay (h r hr)

/-! ### When the state is recovered -/

/-- A load of the directory shows what `x` shows. -/
def RecoversAs (x : StorageEngine) (d : Disk) (checkpointInterval : Int32) (clock : Int64) : Prop :=
  ∃ x', load.run (create d checkpointInterval clock) = (.ok (), x') ∧ SameRecovered x x'

/-- The records on top of the checkpoint give what `x` shows. -/
def Rebuilds (x : StorageEngine) (ckp : Checkpoint) (records : List WALRecordV3) : Prop :=
  ∃ x', (rebuild ckp records).run blank = (.ok (), x') ∧ SameRecovered x x'

theorem recoversAs_iff {d : Disk}
    (hckp : CheckpointManager.load d.checkpointBin d.checkpointJson = ckp) :
    RecoversAs x d checkpointInterval clock ↔ Rebuilds x ckp (recordsAbove d ckp) := by
  obtain ⟨wal, hload⟩ := run_load_rebuild hckp checkpointInterval clock
  rw [RecoversAs, Rebuilds, hload]
  rcases hrun : (rebuild ckp (recordsAbove d ckp)).run blank with ⟨f | ⟨⟩, x₁⟩
  · constructor
    · rintro ⟨_, h, -⟩
      cases h
    · rintro ⟨_, h, -⟩
      cases h
  · constructor
    · rintro ⟨_, h, hsame⟩
      cases h
      exact ⟨x₁, rfl, hsame.catalog, hsame.tables, hsame.rows⟩
    · rintro ⟨_, h, hsame⟩
      cases h
      exact ⟨_, rfl, hsame.catalog, hsame.tables, hsame.rows⟩

/-- What the engine holds fits the files, and its rows can be read back. -/
structure Storable (e : StorageEngine) : Prop where
  named : e.Named
  columns : ∀ (q : Str) (m : MemTable), e.data[q]? = some m → HasColumns m
  regular : e.catalog.Regular
  fits : FitsCheckpoint e
  room : ∀ c, e.toCheckpoint = .ok c → e.walSeq.toInt + rowCountOf c c.tables < 2 ^ 63

theorem Storable.restorable (h : Storable e) (hckp : e.toCheckpoint = .ok ckp) :
    ∃ tuples, Restorable ckp e.catalog.reopened e.txnMgr.clog tuples ∧
      ∀ (q : Str) (m : MemTable) (rows : RowSet), q ∈ e.tables → e.data[q]? = some m →
        materializeAll m = .ok rows → (tuples q).mapM toRow = .ok rows := by
  have hroom := h.room ckp hckp
  rw [← lastSeq_toCheckpoint hckp] at hroom
  exact h.named.restorable hckp h.fits h.regular h.columns hroom

/-- The saved state alone. -/
theorem Storable.rebuilds_nil (h : Storable e) (hckp : e.toCheckpoint = .ok ckp) :
    Rebuilds x ckp.reloaded [] ↔ Holds e x := by
  obtain ⟨tuples, hres, htuples⟩ := h.restorable hckp
  obtain ⟨e₀, hrun, hrestored⟩ := run_restore hres.reloaded Disk.empty 0 0
  have hholds := holds_of_restored h.named hckp htuples hrestored
  have hrebuild : (rebuild ckp.reloaded []).run blank = (.ok (), e₀) := by
    rw [rebuild, blank, Prog.bind_ok hrun]
    rfl
  rw [← hholds.sameRecovered_iff, Rebuilds, hrebuild]
  constructor
  · rintro ⟨_, hx, hsame⟩
    cases hx
    exact hsame
  · intro hsame
    exact ⟨e₀, rfl, hsame⟩

/-- The new checkpoint with records above it: without any, the engine itself has to hold the state. -/
def Continues (e : StorageEngine) (ckp : Checkpoint) (x : StorageEngine) :
    List WALRecordV3 → Prop
  | [] => Holds e x
  | r :: records => Rebuilds x ckp.reloaded (r :: records)

theorem Storable.continues_iff (h : Storable e) (hckp : e.toCheckpoint = .ok ckp)
    (records : List WALRecordV3) :
    Rebuilds x ckp.reloaded records ↔ Continues e ckp x records := by
  cases records with
  | nil => exact h.rebuilds_nil hckp
  | cons r records => exact Iff.rfl

/-- The files that a crash leaves cover the state `x`. -/
def Covered (e : StorageEngine) (ckp : Checkpoint) (x : StorageEngine) : CrashPoint → Prop
  | .before => True
  | .during true 0 n =>
    -- A file that was cut off counts as empty: the log must hold everything.
    if n < (CheckpointManager.save ckp).length then
      Rebuilds x Checkpoint.empty (recordsAbove e.dir.disk Checkpoint.empty)
    else Continues e ckp x e.keptRecords
  | .during true 1 n => Continues e ckp x (wholeBefore n e.keptRecords)
  | .during true (_ + 2) _ => Continues e ckp x e.keptRecords
  -- The old checkpoint stays, the log is cut all the same.
  | .during false 0 n => Rebuilds x e.oldCheckpoint
    ((wholeBefore n e.keptRecords).filter fun r => e.oldCheckpoint.lastSeq < r.seq)
  | .during false (_ + 1) _ => Rebuilds x e.oldCheckpoint
    (e.keptRecords.filter fun r => e.oldCheckpoint.lastSeq < r.seq)

theorem Storable.recoversAs_saved (h : Storable e) (hckp : e.toCheckpoint = .ok ckp) {d : Disk}
    (hd : d.checkpointBin = some (CheckpointManager.save ckp)) {records : List WALRecordV3}
    (hsub : ∀ r ∈ records, r ∈ e.keptRecords)
    (hrecords : recordsAbove d ckp.reloaded =
      records.filter fun r => ckp.reloaded.lastSeq < r.seq) :
    RecoversAs x d checkpointInterval clock ↔ Continues e ckp x records := by
  obtain ⟨tuples, hres, -⟩ := h.restorable hckp
  have hload : CheckpointManager.load d.checkpointBin d.checkpointJson = ckp.reloaded := by
    rw [hd]
    exact CheckpointManager.ofFile_save (h.fits.file ckp hckp) hres.binary
  rw [recoversAs_iff hload, hrecords, lastSeq_reloaded hckp, filter_above_counter hsub,
    h.continues_iff hckp]

/-- A crash in a checkpoint loses nothing exactly when what it leaves of the two files covers the
state that they held before. -/
theorem recoversAs_iff_covered (h : Storable e)
    (hx : load.run (create e.dir.disk checkpointInterval clock) = (.ok (), x)) (p : CrashPoint) :
    RecoversAs x (p.disk e) checkpointInterval clock ↔
      ∀ ckp, e.toCheckpoint = .ok ckp → Covered e ckp x p := by
  have hself : RecoversAs x e.dir.disk checkpointInterval clock :=
    ⟨x, hx, rfl, fun _ => rfl, fun _ => SameRows.refl _⟩
  cases hckp : e.toCheckpoint with
  | error f =>
    rw [disk_failed hckp]
    exact ⟨fun _ _ hc => (by cases hc), fun _ => hself⟩
  | ok ckp =>
    suffices H : RecoversAs x (p.disk e) checkpointInterval clock ↔ Covered e ckp x p by
      refine H.trans ⟨fun hc c hc' => ?_, fun hc => hc ckp rfl⟩
      cases hc'
      exact hc
    have hmem : ∀ r ∈ e.keptRecords, r ∈ e.keptRecords := fun _ hr => hr
    cases p with
    | before => exact ⟨fun _ => trivial, fun _ => hself⟩
    | during opened k n =>
      cases opened with
      | true =>
        rcases k with _ | _ | k
        · rw [disk_file hckp, Covered]
          by_cases hn : n < (CheckpointManager.save ckp).length
          · rw [if_pos hn]
            obtain ⟨tuples, hres, -⟩ := h.restorable hckp
            refine recoversAs_iff ?_
            exact CheckpointManager.ofFile_take (h.fits.file ckp hckp) hres.binary hn
          · rw [if_neg hn, List.take_of_length_le (Nat.le_of_not_lt hn)]
            refine h.recoversAs_saved hckp rfl hmem ?_
            rw [lastSeq_reloaded hckp, filter_above_counter hmem, recordsAbove, lastSeq_reloaded hckp]
            rfl
        · rw [disk_log hckp, Covered]
          exact h.recoversAs_saved hckp rfl (fun r hr => mem_wholeBefore hr)
            (recordsAbove_cut rfl ckp.reloaded)
        · rw [disk_done hckp, Covered]
          exact h.recoversAs_saved hckp rfl hmem (recordsAbove_kept rfl ckp.reloaded)
      | false =>
        rcases k with _ | k
        · rw [disk_unopened hckp, Covered]
          refine (recoversAs_iff rfl).trans ?_
          rw [recordsAbove_cut rfl]
          exact Iff.rfl
        · rw [disk_unopened_done hckp, Covered]
          refine (recoversAs_iff rfl).trans ?_
          rw [recordsAbove_kept rfl]
          exact Iff.rfl

/-! ### Tables that a log does not create -/

section NotCreated
variable {q : Str}

def Untabled (q : Str) (e : StorageEngine) : Prop := q ∉ e.tables

theorem keepsUntabled_frame {f : StorageEngine → StorageEngine}
    (hf : ∀ e : StorageEngine, (f e).tables = e.tables) :
    Prog.Keeps (ε := Failure) (Untabled q) (Prog.modify f) :=
  Prog.Keeps.modify fun e h => by rwa [Untabled, hf e]

theorem keepsUntabled_modifyTable (table : Str) (f : MemTable → MemTable) :
    Prog.Keeps (ε := Failure) (Untabled q) (Prog.modify (modifyTable table f)) := by
  refine keepsUntabled_frame fun e => ?_
  rw [modifyTable]
  split <;> rfl

theorem keepsUntabled_putVersion (table : Str) (id : Int64) (row : Row) :
    Prog.Keeps (Untabled q) (putVersion table id row) := by
  refine (Prog.Keeps.ofExcept _).bind fun _ => Prog.Keeps.bind ?_ fun _ =>
    keepsUntabled_modifyTable table _
  refine Prog.Keeps.get_bind fun e h => ?_
  split <;> exact h

theorem keepsUntabled_setRowCount (table : Str) :
    Prog.Keeps (ε := Failure) (Untabled q) (Prog.modify (setRowCount table)) := by
  refine Prog.Keeps.modify fun e h => ?_
  rw [setRowCount]
  split
  · rename_i schema m hschema hm
    have hne : table ≠ q := by
      rintro rfl
      exact h (Std.ExtTreeMap.mem_iff_isSome_getElem?.mpr (by rw [hschema]; rfl))
    have hold : q ∉ e.tables := h
    rw [Untabled, Std.ExtTreeMap.mem_insert]
    simp [hne, hold]
  · exact h

theorem keepsUntabled_updateIndexes (table : Str) (id : Int64) (row : Row) :
    Prog.Keeps (ε := Failure) (Untabled q) (Prog.modify (updateIndexes table id row)) := by
  refine keepsUntabled_frame fun e => ?_
  rw [updateIndexes]
  split <;> rfl

theorem keepsUntabled_rebuildIndexes (table : Str) :
    Prog.Keeps (Untabled q) (rebuildIndexes table) := by
  refine Prog.Keeps.get_bind fun e h => ?_
  split
  · rw [Prog.wp_bind, Prog.wp_set]
    exact Prog.Keeps.ofExcept _ _ h
  · exact h

theorem keepsUntabled_createKeyIndexes (table : Str) (columns : List ColumnDef) :
    Prog.Keeps (Untabled q) (createKeyIndexes table columns) := by
  refine Prog.Keeps.forEach fun c _ => Prog.Keeps.ite (fun _ => ?_) fun _ => Prog.Keeps.pure ()
  refine Prog.Keeps.get_bind fun e h => ?_
  dsimp only
  split
  · exact h
  · split
    · exact h
    · split
      · exact h
      · split <;> exact h

theorem keepsUntabled_inCatalog {α : Type} (p : CatalogM α) :
    Prog.Keeps (Untabled q) (inCatalog p) := fun e h => by
  rw [inCatalog, Prog.wp_zoom]
  exact Prog.wp_mono (Prog.wp_true p) (fun _ _ _ => h) fun _ _ _ => h

theorem keepsUntabled_replayRow (r : WALRecordV3) {body : MemTable → EngineM Unit}
    (h : ∀ m, Prog.Keeps (Untabled q) (body m)) : Prog.Keeps (Untabled q) (replayRow r body) := by
  refine Prog.Keeps.get.bind fun e => Prog.Keeps.ite (fun _ => ?_) fun _ => Prog.Keeps.pure ()
  split
  · exact Prog.Keeps.pure ()
  · exact h _

theorem keepsUntabled_replayInsert (r : WALRecordV3) :
    Prog.Keeps (Untabled q) (replayInsert r) := by
  unfold replayInsert
  split
  · exact Prog.Keeps.pure ()
  · exact (keepsUntabled_putVersion _ _ _).bind fun _ =>
      (keepsUntabled_updateIndexes _ _ _).bind fun _ =>
        (keepsUntabled_setRowCount _).bind fun _ => keepsUntabled_frame fun _ => rfl

theorem keepsUntabled_replayUpdate (r : WALRecordV3) :
    Prog.Keeps (Untabled q) (replayUpdate r) := by
  unfold replayUpdate
  split
  · exact Prog.Keeps.pure ()
  · exact (keepsUntabled_putVersion _ _ _).bind fun _ => Prog.Keeps.get.bind fun _ =>
      (Prog.Keeps.ite (fun _ => keepsUntabled_rebuildIndexes _) fun _ => Prog.Keeps.pure ()).bind
        fun _ => (keepsUntabled_rebuildIndexes _).bind fun _ => keepsUntabled_setRowCount _

theorem keepsUntabled_replayDelete (r : WALRecordV3) (m : MemTable) :
    Prog.Keeps (Untabled q) (replayDelete r m) := by
  unfold replayDelete
  split
  · exact Prog.Keeps.pure ()
  · split
    · split
      · exact Prog.Keeps.pure ()
      · exact (Prog.Keeps.ofExcept _).bind fun _ => keepsUntabled_putVersion _ _ _
    · exact (keepsUntabled_modifyTable _ _).bind fun _ =>
        (keepsUntabled_rebuildIndexes _).bind fun _ => keepsUntabled_setRowCount _

/-- Only a table's own record creates it. -/
theorem keepsUntabled_replayRecord {r : WALRecordV3}
    (h : WalOp.ofTag r.op = .createTable → r.table ≠ q) :
    Prog.Keeps (Untabled q) (replayRecord r) := by
  unfold replayRecord
  cases hop : WalOp.ofTag r.op with
  | createDatabase => exact keepsUntabled_inCatalog _
  | dropDatabase =>
    exact Prog.Keeps.get.bind fun _ => Prog.Keeps.ite (fun _ => keepsUntabled_inCatalog _) fun _ =>
      Prog.Keeps.pure ()
  | createSchema =>
    simp only
    cases walDecodeCreateSchema r.data with
    | none => exact Prog.Keeps.pure ()
    | some schema => exact keepsUntabled_inCatalog _
  | createUser => exact Prog.Keeps.pure ()
  | dropUser =>
    exact Prog.Keeps.get.bind fun _ => Prog.Keeps.ite (fun _ => keepsUntabled_inCatalog _) fun _ =>
      Prog.Keeps.pure ()
  | createTable =>
    simp only
    cases walDecodeCreateTable r.data with
    | none => exact Prog.Keeps.pure ()
    | some columns =>
      refine Prog.Keeps.bind (Prog.Keeps.modify fun e he => ?_) fun _ =>
        keepsUntabled_createKeyIndexes _ _
      have hold : q ∉ e.tables := he
      rw [Untabled, resetTable, Std.ExtTreeMap.mem_insert]
      simp [h hop, hold]
  | dropTable =>
    refine Prog.Keeps.modify fun e he => ?_
    exact fun hmem => he (Std.ExtTreeMap.mem_of_mem_erase hmem)
  | xactCommit | xactAbort =>
    refine keepsUntabled_frame fun e => ?_
    rw [setStatus]
    split <;> rfl
  | insert => exact keepsUntabled_replayRow r fun _ => keepsUntabled_replayInsert r
  | update => exact keepsUntabled_replayRow r fun _ => keepsUntabled_replayUpdate r
  | delete => exact keepsUntabled_replayRow r (keepsUntabled_replayDelete r)
  | unknown => exact Prog.Keeps.pure ()

/-- When the file is cut off, every table is lost that the log does not create. -/
theorem Storable.not_recoversAs_torn (h : Storable e) (hckp : e.toCheckpoint = .ok ckp) {n : Nat}
    (hn : n < (CheckpointManager.save ckp).length) (hq : (x.tables[q]?).isSome = true)
    (hlog : ∀ r ∈ recordsAbove e.dir.disk Checkpoint.empty,
      WalOp.ofTag r.op = .createTable → r.table ≠ q) :
    ¬ RecoversAs x ((CrashPoint.during true 0 n).disk e) checkpointInterval clock := by
  obtain ⟨tuples, hres, -⟩ := h.restorable hckp
  set d : Disk :=
    { e.dir.disk with checkpointBin := some ((CheckpointManager.save ckp).take n) } with hd
  have hempty : CheckpointManager.load d.checkpointBin d.checkpointJson = Checkpoint.empty :=
    CheckpointManager.ofFile_take (h.fits.file ckp hckp) hres.binary hn
  rw [disk_file hckp, recoversAs_iff hempty]
  rintro ⟨x', hrun, hsame⟩
  rw [rebuild, Prog.bind_ok (run_restore_empty blank)] at hrun
  have hkeeps : Prog.Keeps (Untabled q) (Prog.forEach replayRecord
      (recordsAbove e.dir.disk Checkpoint.empty)) :=
    Prog.Keeps.forEach fun r hr => keepsUntabled_replayRecord (hlog r hr)
  have hstart : Untabled q blank := Std.ExtTreeMap.not_mem_empty
  have hx' : Untabled q x' := by
    have := Prog.wp_ok (hkeeps _ hstart) hrun
    exact this
  have htable := hsame.tables q
  rw [Std.ExtTreeMap.getElem?_eq_none hx', Option.map_none, eq_comm,
    Option.map_eq_none_iff] at htable
  rw [htable] at hq
  cases hq

end NotCreated

/-! ### A table with one row -/

theorem storable_checkpointedEngine : Storable checkpointedEngine where
  named := by decide +kernel
  columns _ m hm :=
    have h : ∀ m ∈ checkpointedEngine.data.values, HasColumns m := by decide +kernel
    h m (OrderedMap.mem_values hm)
  regular := by decide +kernel
  fits := ⟨fun _ hc => ExceptList.of_all_ok (by decide +kernel) hc, by decide +kernel⟩
  room _ hc := ExceptList.of_all_ok
    (P := fun c => checkpointedEngine.walSeq.toInt + rowCountOf c c.tables < 2 ^ 63) (by decide +kernel) hc

theorem storable_prunedEngine : Storable prunedEngine where
  named := by decide +kernel
  columns _ m hm :=
    have h : ∀ m ∈ prunedEngine.data.values, HasColumns m := by decide +kernel
    h m (OrderedMap.mem_values hm)
  regular := by decide +kernel
  fits := ⟨fun _ hc => ExceptList.of_all_ok (by decide +kernel) hc, by decide +kernel⟩
  room _ hc := ExceptList.of_all_ok
    (P := fun c => prunedEngine.walSeq.toInt + rowCountOf c c.tables < 2 ^ 63) (by decide +kernel) hc

/-- What a load of its directory gives. -/
def reopenedEngine : StorageEngine := (load.run (create checkpointedEngine.dir.disk 0 0)).2

theorem load_checkpointedEngine :
    load.run (create checkpointedEngine.dir.disk 0 0) = (.ok (), reopenedEngine) := by
  have hok : (load.run (create checkpointedEngine.dir.disk 0 0)).1 = .ok () := by decide +kernel
  rw [← hok]
  rfl

/-- Five bytes into its first checkpoint, the log of an engine still holds everything. -/
theorem recoversAs_first : ∃ x, load.run (create prunedEngine.dir.disk 0 0) = (.ok (), x) ∧
    RecoversAs x ((CrashPoint.during true 0 5).disk prunedEngine) 0 0 := by
  have hlog : LogHolds prunedEngine 0 (prunedEngine.dir.journal.filterMap DiskEvent.appended) :=
    logHolds_of_tail (n := 0) (by decide +kernel)
  have hempty : CheckpointManager.load prunedEngine.dir.disk.checkpointBin
      prunedEngine.dir.disk.checkpointJson = Checkpoint.empty := by
    rw [show prunedEngine.dir.disk.checkpointBin = none by decide +kernel,
      show prunedEngine.dir.disk.checkpointJson = none by decide +kernel]
    rfl
  obtain ⟨wal, hload⟩ := run_load_rebuild hempty 0 0
  have hok : ((rebuild Checkpoint.empty (recordsAbove prunedEngine.dir.disk Checkpoint.empty)).run
      blank).1 = .ok () := by
    rw [hlog.recordsAbove_eq rfl]
    decide +kernel
  rw [hok] at hload
  refine ⟨_, hload, (recoversAs_iff_covered storable_prunedEngine hload _).mpr fun ckp _ => ?_⟩
  have hshort : 5 < (CheckpointManager.save ckp).length := by
    simp only [CheckpointManager.save, CheckpointManager.magic, List.length_append, List.length_cons]
    omega
  rw [Covered, if_pos hshort]
  exact (recoversAs_iff hempty).mp ⟨_, hload, rfl, fun _ => rfl, fun _ => SameRows.refl _⟩

/-- The first byte of the new file has not been written: the table of the old one is gone. -/
theorem checkpoint_crash_loses_table : ¬ ∀ (e x : StorageEngine) (p : CrashPoint)
    (checkpointInterval : Int32) (clock : Int64), Storable e →
    e.dir.disk.checkpointBin.isSome = true →
    load.run (create e.dir.disk checkpointInterval clock) = (.ok (), x) →
    RecoversAs x (p.disk e) checkpointInterval clock := by
  intro h
  have hckp : checkpointedEngine.toCheckpoint.isOk = true := by decide +kernel
  cases hc : checkpointedEngine.toCheckpoint with
  | error f =>
    rw [hc] at hckp
    cases hckp
  | ok ckp =>
    have hlog : recordsAbove checkpointedEngine.dir.disk Checkpoint.empty = [] := by
      rw [recordsAbove, WriteAheadLogV3.replay, show checkpointedEngine.dir.disk.walLog = [] by
        decide +kernel]
      rfl
    refine storable_checkpointedEngine.not_recoversAs_torn (x := reopenedEngine) (n := 0)
      (q := str "defaultdb.public.t") hc (by simp [CheckpointManager.save, CheckpointManager.magic])
      (by decide +kernel) (by simp [hlog]) (h checkpointedEngine reopenedEngine (.during true 0 0) 0 0
        storable_checkpointedEngine (by decide +kernel) load_checkpointedEngine)

end StorageEngine
end JiaMiaoDB
