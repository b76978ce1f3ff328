import JiaMiaoDB.Storage.WalSequence

/-!
# How often checkpoints are taken

The records in the log since the last checkpoint. The check at the end of a call fires only when the
counter stands at a multiple of the interval, and an operation may step over it.
-/

set_option autoImplicit false

namespace JiaMiaoDB
open StorageEngine

/-- One event's effect on the number of records since the last checkpoint. -/
def DiskEvent.countPending (n : Nat) : DiskEvent → Nat
  | .append _ => n + 1
  | .saveCheckpoint _ => 0
  | .rewriteWal _ => n

namespace StorageEngine

/-- The records written since the last checkpoint, or since the engine was made. -/
def pending (e : StorageEngine) : Nat := e.dir.journal.foldl DiskEvent.countPending 0

/-- The records written since the engine was made. -/
def written (e : StorageEngine) : Nat := (e.dir.journal.filterMap DiskEvent.appended).length

def interval (e : StorageEngine) : Int := e.checkpointInterval.toInt

end StorageEngine

namespace Session

/-- At most the interval and what the last operation wrote is pending. -/
def KeepsCadence (s s' : Session) : Prop :=
  0 < s.engine.interval →
    (s'.engine.pending : Int) ≤ s.engine.interval + (s'.engine.written - s.engine.written : Nat)

/-- The operation ends with a checkpoint: an explicit one, or a check that finds the counter at a
multiple of the interval. -/
def Checkpoints (s : Session) : Action → Prop
  | .call c => c.checksCheckpoint = true ∧ ∃ e, c.body.run s.engine = (.ok (), e) ∧
    e.checkpointDue = true ∧ e.toCheckpoint.isOk = true
  | .save | .close => s.engine.toCheckpoint.isOk = true
  | .restart _ _ _ _ => True

/-- With more than the interval pending the operation ends with a checkpoint. -/
def Timely (s : Session) (a : Action) : Prop :=
  0 < s.engine.interval → s.engine.interval < s.engine.pending → s.Checkpoints a

/-- Every operation of the run keeps the bound. -/
def CadenceAlong : Session → List Action → Prop
  | _, [] => True
  | s, a :: actions =>
    match s.next a with
    | some s' => s.KeepsCadence s' ∧ CadenceAlong s' actions
    | none => True

/-- Every operation of the run is timely. -/
def TimelyAlong : Session → List Action → Prop
  | _, [] => True
  | s, a :: actions =>
    match s.next a with
    | some s' => s.Timely a ∧ TimelyAlong s' actions
    | none => True

end Session

section
variable {e e' : StorageEngine} {rs : List WALRecordV3}

theorem countPending_appends (n : Nat) (rs : List WALRecordV3) :
    (rs.map DiskEvent.append).foldl DiskEvent.countPending n = n + rs.length := by
  induction rs generalizing n with
  | nil => rfl
  | cons r rs ih =>
    rw [List.map_cons, List.foldl_cons, ih, DiskEvent.countPending, List.length_cons]
    omega

theorem appended_appends (rs : List WALRecordV3) :
    (rs.map DiskEvent.append).filterMap DiskEvent.appended = rs := by
  rw [List.filterMap_map]
  exact List.filterMap_some

/-- `e'` is `e` with more records in its log. -/
def LogGrows (e e' : StorageEngine) (rs : List WALRecordV3) : Prop :=
  e'.dir.journal = e.dir.journal ++ rs.map .append

theorem LogGrows.pending_eq (h : LogGrows e e' rs) : e'.pending = e.pending + rs.length := by
  rw [pending, h, List.foldl_append, countPending_appends]
  rfl

theorem LogGrows.written_eq (h : LogGrows e e' rs) : e'.written = e.written + rs.length := by
  rw [written, h, List.filterMap_append, List.length_append, appended_appends]
  rfl

theorem logInvariant_appends (journal : List DiskEvent) :
    LogInvariant fun dir _ => ∃ rs : List WALRecordV3, dir.journal = journal ++ rs.map .append where
  bump _ _ _ h := h
  write dir n clock op table xid data _ h := by
    obtain ⟨rs, hrs⟩ := h
    refine ⟨rs ++ [⟨n + 1, clock, op.toTag, table, xid, data⟩], ?_⟩
    rw [Dir.push_journal, hrs, List.map_append, List.append_assoc]
    rfl

/-- Up to its check a call only adds records. -/
theorem logGrows_body (c : Call) (e : StorageEngine) : ∃ rs, LogGrows e (c.body.run e).2 rs :=
  (LogInvariant.keeps_body (logInvariant_appends e.dir.journal) c).final ⟨[], by simp⟩

theorem pending_checkpoint (h : e.toCheckpoint.isOk = true) : (checkpoint.run e).2.pending = 0 := by
  rw [run_checkpoint]
  cases hc : e.toCheckpoint with
  | error f =>
    rw [hc] at h
    cases h
  | ok ckp =>
    simp [pending, truncateWal, saveCheckpoint, DiskEvent.countPending]

theorem checkpoint_failed (h : ¬ e.toCheckpoint.isOk = true) : (checkpoint.run e).2 = e := by
  rw [run_checkpoint]
  cases hc : e.toCheckpoint with
  | error f => rfl
  | ok ckp =>
    rw [hc] at h
    exact absurd rfl h

end

namespace Session
variable {s s' : Session} {a : Action}

/-- A call ends with a checkpoint, or it is its body. -/
theorem exec_cases (c : Call) (s : Session) :
    (s.Checkpoints (.call c) ∧ (c.exec.run s.engine).2.pending = 0) ∨
      (¬ s.Checkpoints (.call c) ∧ (c.exec.run s.engine).2 = (c.body.run s.engine).2) := by
  rw [Call.exec_eq]
  by_cases hcheck : c.checksCheckpoint = true
  · rw [if_pos hcheck, run_thenCheckpoint]
    rcases hrun : c.body.run s.engine with ⟨f | ⟨⟩, e⟩
    · refine .inr ⟨?_, rfl⟩
      rintro ⟨-, e', hok, -⟩
      rw [hrun] at hok
      cases hok
    · simp only [maybeCheckpoint, Prog.bind_ok (Prog.run_get e)]
      by_cases hdue : e.checkpointDue = true
      · rw [if_pos hdue]
        by_cases hok : e.toCheckpoint.isOk = true
        · exact .inl ⟨⟨hcheck, e, hrun, hdue, hok⟩, pending_checkpoint hok⟩
        · refine .inr ⟨?_, checkpoint_failed hok⟩
          rintro ⟨-, e', hrun', -, hok'⟩
          rw [hrun] at hrun'
          cases hrun'
          exact hok hok'
      · rw [if_neg hdue]
        refine .inr ⟨?_, rfl⟩
        rintro ⟨-, e', hrun', hdue', -⟩
        rw [hrun] at hrun'
        cases hrun'
        exact hdue hdue'
  · rw [if_neg hcheck]
    exact .inr ⟨fun h => hcheck h.1, rfl⟩

/-- An operation ends with a checkpoint, or it only adds records. -/
theorem next_cases (hs : s.next a = some s') :
    (s.Checkpoints a ∧ s'.engine.pending = 0) ∨
      (¬ s.Checkpoints a ∧ ∃ rs, LogGrows s.engine s'.engine rs) := by
  have hmoves := moves_of_next hs
  have hckp : ∀ {e : StorageEngine}, e = (checkpoint.run s.engine).2 →
      (s.engine.toCheckpoint.isOk = true ∧ e.pending = 0) ∨
        (¬ s.engine.toCheckpoint.isOk = true ∧ ∃ rs, LogGrows s.engine e rs) := by
    rintro e rfl
    by_cases hok : s.engine.toCheckpoint.isOk = true
    · exact .inl ⟨hok, pending_checkpoint hok⟩
    · rw [checkpoint_failed hok]
      exact .inr ⟨hok, [], by simp [LogGrows]⟩
  cases a with
  | call c =>
    rw [hmoves]
    rcases exec_cases c s with hend | ⟨hnot, hbody⟩
    · exact .inl hend
    · rw [hbody]
      exact .inr ⟨hnot, logGrows_body c s.engine⟩
  | save => exact hckp hmoves
  | close => exact hckp hmoves
  | restart k n checkpointInterval clock =>
    refine .inl ⟨trivial, ?_⟩
    have hdir : s'.engine.dir = Dir.create (s.engine.dir.crash k n) := dir_of_load hmoves
    rw [pending, hdir]
    rfl

/-- An operation keeps the bound exactly when it is timely. -/
theorem keepsCadence_iff (hs : s.next a = some s') : s.KeepsCadence s' ↔ s.Timely a := by
  unfold KeepsCadence Timely
  rcases next_cases hs with ⟨hend, hzero⟩ | ⟨hnot, rs, happends⟩
  · rw [hzero]
    constructor
    · intro _ _ _
      exact hend
    · intro _ hpos
      omega
  · rw [happends.pending_eq, happends.written_eq]
    constructor
    · intro hkeeps hpos hover
      have hbound := hkeeps hpos
      omega
    · intro htimely hpos
      have hle : ¬ s.engine.interval < s.engine.pending := fun hover => hnot (htimely hpos hover)
      omega

theorem cadenceAlong_iff_timelyAlong (s : Session) (actions : List Action) :
    CadenceAlong s actions ↔ TimelyAlong s actions := by
  induction actions generalizing s with
  | nil => exact Iff.rfl
  | cons a actions ih =>
    rw [CadenceAlong, TimelyAlong]
    cases hs : s.next a with
    | none => exact Iff.rfl
    | some s' => exact and_congr (keepsCadence_iff hs) (ih s')

/-- A run keeps the number of pending records bounded after every operation if and only if each of
its operations that begins with more than the interval pending ends with a checkpoint. -/
theorem cadenceAlong_iff (checkpointInterval : Int32) (clock : Int64) (actions : List Action) :
    CadenceAlong (start checkpointInterval clock) actions ↔
      TimelyAlong (start checkpointInterval clock) actions :=
  cadenceAlong_iff_timelyAlong _ actions

/-- A table takes one number and each row two, so that the counter is odd at every check. -/
theorem not_cadenceAlong_two :
    let create : Action := .call (.createTable (str "t") [⟨str "a", .integer, true, false, none⟩])
    let insert : Action := .call (.insert (str "t") oneRow)
    ¬ CadenceAlong (start 2 0) [create, insert, insert, insert] := by
  intro create insert
  rintro ⟨-, -, -, hlast, -⟩
  have hbound := hlast (by decide +kernel)
  revert hbound
  decide +kernel

end Session
end JiaMiaoDB
