import JiaMiaoDB.Storage.Restore
import JiaMiaoDB.Storage.WalSequence

/-!
# Directories that load as the engine that wrote them

`Durable S e` says that the checkpoint file of `e`, with the log records above it replayed, gives an
engine in the relation `S` to `e`. A call keeps this by logging what it does, a checkpoint by saving
everything.
-/

set_option autoImplicit false

namespace JiaMiaoDB
open ByteFormat

namespace StorageEngine

/-- The log holds `records`, all of them above the checkpoint and not above the counter. -/
structure LogHolds (e : StorageEngine) (lastSeq : Int64) (records : List WALRecordV3) : Prop where
  walLog : e.dir.disk.walLog = encodeLog records
  fits : ∀ r ∈ records, r.Fits
  above : ∀ r ∈ records, lastSeq < r.seq
  counted : ∀ r ∈ records, r.seq ≤ e.walSeq
  covered : lastSeq ≤ e.walSeq

/-- Loading the checkpoint and replaying the records gives an engine in the relation `S`. -/
def Replays (S : StorageEngine → StorageEngine → Prop) (e : StorageEngine) (lastSeq : Int64)
    (records : List WALRecordV3) : Prop :=
  ∀ d : Disk, d.checkpointBin = e.dir.disk.checkpointBin →
    d.checkpointJson = e.dir.disk.checkpointJson → ∀ checkpointInterval clock, ∃ e₀ e',
      load.run (create d checkpointInterval clock) =
        (Prog.forEach replayRecord (WriteAheadLogV3.replay ⟨0⟩ d lastSeq).1).run e₀ ∧
      (Prog.forEach replayRecord records).run e₀ = (.ok (), e') ∧ S e e'

def Durable (S : StorageEngine → StorageEngine → Prop) (e : StorageEngine) : Prop :=
  ∃ lastSeq records, LogHolds e lastSeq records ∧ Replays S e lastSeq records

variable {S : StorageEngine → StorageEngine → Prop} {e e₁ : StorageEngine} {lastSeq : Int64}
  {records : List WALRecordV3}

theorem Durable.load (h : Durable S e) (checkpointInterval : Int32) (clock : Int64) :
    ∃ e', load.run (create e.dir.disk checkpointInterval clock) = (.ok (), e') ∧ S e e' := by
  obtain ⟨lastSeq, records, hlog, hreplay⟩ := h
  obtain ⟨e₀, e', hload, hrun, hS⟩ := hreplay e.dir.disk rfl rfl checkpointInterval clock
  have hkept : records.filter (fun r => lastSeq < r.seq) = records :=
    List.filter_eq_self.2 fun r hr => by simpa using hlog.above r hr
  have hrecords : (WriteAheadLogV3.replay ⟨0⟩ e.dir.disk lastSeq).1 = records := by
    rw [WriteAheadLogV3.replay_encodeLog hlog.fits (.inl rfl) (by rw [hlog.walLog, List.append_nil]),
      hkept]
  rw [hrecords] at hload
  exact ⟨e', hload.trans hrun, hS⟩

/-- An empty directory. -/
theorem durable_create (checkpointInterval : Int32) (clock : Int64)
    (h : ∀ d i c w, S (create Disk.empty checkpointInterval clock)
      { ((restore Checkpoint.empty).run (create d i c)).2 with wal := w }) :
    Durable S (create Disk.empty checkpointInterval clock) := by
  refine ⟨0, [], ⟨rfl, by simp, by simp, by simp, Int64.le_refl _⟩, fun d hbin hjson i c => ?_⟩
  have hckp : CheckpointManager.load d.checkpointBin d.checkpointJson = Checkpoint.empty := by
    rw [hbin, hjson]
    rfl
  exact ⟨_, _, @run_load _ d i c Checkpoint.empty hckp (run_restore_empty (create d i c)), rfl,
    h d i c _⟩

/-- Nothing has been written. -/
theorem Durable.frame (h : Durable S e) (hdir : e₁.dir = e.dir) (hseq : e₁.walSeq = e.walSeq)
    (hS : ∀ e', S e e' → S e₁ e') : Durable S e₁ := by
  obtain ⟨lastSeq, records, hlog, hreplay⟩ := h
  refine ⟨lastSeq, records, ?_, fun d hbin hjson i c => ?_⟩
  · exact ⟨by rw [hdir]; exact hlog.walLog, hlog.fits, hlog.above, by rw [hseq]; exact hlog.counted,
      by rw [hseq]; exact hlog.covered⟩
  · rw [hdir] at hbin hjson
    obtain ⟨e₀, e', hload, hrun, he'⟩ := hreplay d hbin hjson i c
    exact ⟨e₀, e', hload, hrun, hS e' he'⟩

/-- One record has been written, under the next number. -/
structure Appends (e : StorageEngine) (r : WALRecordV3) (e₁ : StorageEngine) : Prop where
  dir : e₁.dir = e.dir.push (.append r)
  fits : r.Fits
  free : e.walSeq ≠ Int64.maxValue
  seq : r.seq = e.walSeq + 1
  walSeq : e.walSeq + 1 ≤ e₁.walSeq

theorem LogHolds.append {r : WALRecordV3} (h : LogHolds e lastSeq records) (ha : Appends e r e₁) :
    LogHolds e₁ lastSeq (records ++ [r]) := by
  have hlt := FixedWidth.lt_succ ha.free
  have hle : e.walSeq ≤ e₁.walSeq := Int64.le_trans (Int64.le_of_lt hlt) ha.walSeq
  constructor
  · rw [ha.dir, Dir.disk_push]
    simp [DiskEvent.apply, DiskEvent.write, DiskEvent.bytes, h.walLog, encodeLog]
  · intro r' hr'
    rcases List.mem_append.1 hr' with hr' | hr'
    · exact h.fits r' hr'
    · rw [List.mem_singleton.1 hr']
      exact ha.fits
  · intro r' hr'
    rcases List.mem_append.1 hr' with hr' | hr'
    · exact h.above r' hr'
    · rw [List.mem_singleton.1 hr', ha.seq]
      exact Int64.lt_of_le_of_lt h.covered hlt
  · intro r' hr'
    rcases List.mem_append.1 hr' with hr' | hr'
    · exact Int64.le_trans (h.counted r' hr') hle
    · rw [List.mem_singleton.1 hr', ha.seq]
      exact ha.walSeq
  · exact Int64.le_trans h.covered hle

/-- A call that logs what it does. -/
theorem Durable.append {r : WALRecordV3} (h : Durable S e) (ha : Appends e r e₁)
    (hS : ∀ e', S e e' → ∃ e₁', (replayRecord r).run e' = (.ok (), e₁') ∧ S e₁ e₁') :
    Durable S e₁ := by
  obtain ⟨lastSeq, records, hlog, hreplay⟩ := h
  refine ⟨lastSeq, records ++ [r], hlog.append ha, fun d hbin hjson i c => ?_⟩
  rw [ha.dir, Dir.disk_push] at hbin hjson
  obtain ⟨e₀, e', hload, hrun, he'⟩ := hreplay d hbin hjson i c
  obtain ⟨e₁', hrun', he₁'⟩ := hS e' he'
  exact ⟨e₀, e₁', hload, (Prog.run_forEach_append hrun).trans (Prog.run_forEach_cons hrun' []), he₁'⟩

theorem logHolds_of_tail {n : Nat} {lastSeq : Int64} (h : LogTail e lastSeq n) :
    LogHolds e lastSeq ((e.dir.journal.drop n).filterMap DiskEvent.appended) :=
  ⟨h.walLog, fun r hr => (h.records r hr).1, fun r hr => (h.records r hr).2.1,
    fun r hr => (h.records r hr).2.2, h.covered⟩

/-! ### Checkpoints -/

/-- A checkpoint empties a log that it covers, and the counter goes back to the log's last number. -/
theorem run_checkpoint_covered {ckp : Checkpoint} (hckp : e.toCheckpoint = .ok ckp)
    (hlog : LogHolds e lastSeq records) : checkpoint.run e = (.ok (), { e with
      dir := (e.dir.push (.saveCheckpoint ckp)).push (.rewriteWal [])
      walSeq := e.wal.seq }) := by
  have hcounted := hlog.counted
  rw [← lastSeq_toCheckpoint hckp] at hcounted
  refine Prod.ext ?_ (checkpoint_covered hckp (WriteAheadLogV3.truncate_covered hlog.fits ?_ hcounted e.wal))
  · rw [run_checkpoint, hckp]
    rfl
  · rw [saveCheckpoint, Dir.disk_push]
    exact hlog.walLog

theorem Durable.checkpoint {ckp : Checkpoint} {c : Catalog} {clog : CLog}
    {tuples : Str → List Tuple} (hlog : LogHolds e lastSeq records)
    (hckp : e.toCheckpoint = .ok ckp) (hfits : ckp.Fits) (hres : Restorable ckp c clog tuples)
    (hwal : e.wal.seq = e.walSeq)
    (hS : ∀ e₀, Restored ckp.reloaded c clog tuples e₀ → S (checkpoint.run e).2 e₀) :
    Durable S (checkpoint.run e).2 := by
  have hlast := lastSeq_toCheckpoint hckp
  rw [run_checkpoint_covered hckp hlog] at hS ⊢
  have hdisk : ((e.dir.push (.saveCheckpoint ckp)).push (.rewriteWal [])).disk =
      { e.dir.disk with checkpointBin := some (CheckpointManager.save ckp), walLog := [] } := by
    rw [Dir.disk_push, Dir.disk_push]
    rfl
  refine ⟨ckp.lastSeq, [], ⟨?_, by simp, by simp, by simp, ?_⟩, fun d hbin _ i c => ?_⟩
  · simp only [hdisk]
    rfl
  · rw [hlast, ← hwal]
    exact Int64.le_refl _
  · simp only [hdisk] at hbin
    obtain ⟨e₀, hres₀, hload⟩ := run_load_saved hfits hres hbin i c
    exact ⟨e₀, e₀, hload, rfl, hS e₀ hres₀⟩

end StorageEngine
end JiaMiaoDB
