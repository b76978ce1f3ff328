import JiaMiaoDB.Lib.ExceptList
import JiaMiaoDB.Lib.FixedWidth
import JiaMiaoDB.Storage.Calls

/-!
# The numbers of log records

Histories of a data directory over any number of engines. A number is handed out again only when a
checkpoint sets the counter back to the last number in the log, or when a load starts it too low.
-/

set_option autoImplicit false

namespace JiaMiaoDB
open StorageEngine

/-- The number that an event fixes: a record's own, or the last number a checkpoint covers. -/
def DiskEvent.number : DiskEvent → Option Int64
  | .append r => some r.seq
  | .saveCheckpoint ckp => some ckp.lastSeq
  | .rewriteWal _ => none

/-- A record after `a` has a greater number than `a`. -/
def DiskEvent.Before (a : DiskEvent) : DiskEvent → Prop
  | .append r => ∀ n ∈ a.number, n < r.seq
  | _ => True

instance (a : DiskEvent) : (b : DiskEvent) → Decidable (a.Before b)
  | .append r => decidable_of_iff (a.number.all (· < r.seq) = true) (by
      simp only [DiskEvent.Before, Option.all_eq_true, decide_eq_true_eq, Option.mem_def])
  | .saveCheckpoint _ | .rewriteWal _ => .isTrue trivial

/-- Every record has a greater number than the events before it. -/
def Increasing (history : List DiskEvent) : Prop := history.Pairwise DiskEvent.Before

instance (history : List DiskEvent) : Decidable (Increasing history) := by
  unfold Increasing
  infer_instance

/-- No number in the history is above `n`. -/
def Covers (n : Int64) (history : List DiskEvent) : Prop :=
  ∀ e ∈ history, ∀ m, e.number = some m → m ≤ n

/-- No number in the history is above the last number of the checkpoint and one more for each row it
stores. -/
def Checkpoint.Reaches (ckp : Checkpoint) (history : List DiskEvent) : Prop :=
  ∀ e ∈ history, ∀ m, e.number = some m → m.toInt ≤ ckp.lastSeq.toInt + rowCountOf ckp ckp.tables

instance (ckp : Checkpoint) (history : List DiskEvent) : Decidable (ckp.Reaches history) :=
  decidable_of_iff (∀ e ∈ history, (e.number.all fun m =>
      decide (m.toInt ≤ ckp.lastSeq.toInt + rowCountOf ckp ckp.tables)) = true)
    (by simp only [Option.all_eq_true, decide_eq_true_eq]; rfl)

/-- An engine, the events of the engines before it, and whether it has been closed. -/
structure Session where
  engine : StorageEngine
  past : List DiskEvent
  closed : Bool

inductive Action where
  | call (c : Call)
  | save
  | close
  | restart (k n : Nat) (checkpointInterval : Int32) (clock : Int64)

namespace Session

/-- A new engine on an empty directory. -/
def start (checkpointInterval : Int32) (clock : Int64) : Session :=
  ⟨create Disk.empty checkpointInterval clock, [], false⟩

def history (s : Session) : List DiskEvent := s.past ++ s.engine.dir.journal

/-- A closed engine accepts nothing; a restart is a crash (or an ordinary end) and a load. -/
def next (s : Session) : Action → Option Session
  | .call c => if s.closed then none else some { s with engine := (c.exec.run s.engine).2 }
  | .save => if s.closed then none else some { s with engine := (StorageEngine.save.run s.engine).2 }
  | .close =>
    if s.closed then none
    else some { s with engine := (StorageEngine.close.run s.engine).2, closed := true }
  | .restart k n checkpointInterval clock =>
    match load.run (create (s.engine.dir.crash k n) checkpointInterval clock) with
    | (.ok _, e) => some ⟨e, s.past ++ s.engine.dir.journal.take (k + 1), false⟩
    | (.error _, _) => none

/-- The sessions reached by actions that satisfy `P`. -/
inductive Reached (P : Session → Action → Prop) : Session → Prop
  | start (checkpointInterval : Int32) (clock : Int64) : Reached P (start checkpointInterval clock)
  | step {s s' : Session} {a : Action} (h : Reached P s) (ha : P s a) (hs : s.next a = some s') :
    Reached P s'

/-- A checkpoint while the engine goes on is taken when the last number in the log is the counter,
and the checkpoint file that a load finds reaches every number handed out before. -/
def Safe (s : Session) : Action → Prop
  | .call c => c.checksCheckpoint → ∀ e, c.body.run s.engine = (.ok (), e) → e.checkpointDue →
    e.wal.seq = e.walSeq
  | .save => s.engine.wal.seq = s.engine.walSeq
  | .close => True
  | .restart k n _ _ =>
    (s.engine.dir.crash k n).checkpoint.Reaches (s.past ++ s.engine.dir.journal.take (k + 1))

end Session

/-! ### One event more -/

theorem covers_concat {n : Int64} {history : List DiskEvent} {e : DiskEvent} :
    Covers n (history ++ [e]) ↔ Covers n history ∧ ∀ m, e.number = some m → m ≤ n := by
  simp only [Covers, List.forall_mem_append, List.forall_mem_singleton]

theorem Covers.mono {n m : Int64} {history : List DiskEvent} (h : Covers n history) (hnm : n ≤ m) :
    Covers m history := fun e he k hk => Int64.le_trans (h e he k hk) hnm

theorem Checkpoint.Reaches.covers {ckp : Checkpoint} {history : List DiskEvent} {n : Int64}
    (h : ckp.Reaches history) (hn : ckp.lastSeq.toInt + rowCountOf ckp ckp.tables ≤ n.toInt) :
    Covers n history := fun e he m hm =>
  Int64.le_iff_toInt_le.mpr (Int.le_trans (h e he m hm) hn)

/-- The history has increased so far and the counter is not below it. -/
def Numbered (past : List DiskEvent) (dir : Dir) (n : Int64) : Prop :=
  Increasing (past ++ dir.journal) ∧ Covers n (past ++ dir.journal)

theorem mem_replay {w : WriteAheadLogV3} {d : Disk} {fromSeq : Int64} {r : WALRecordV3}
    (h : r ∈ (w.replay d fromSeq).1) : fromSeq < r.seq := by
  simpa using (List.mem_filter.1 h).2

/-- A rewritten log ends above the cut-off, or nothing was kept. -/
theorem truncate_seq (w : WriteAheadLogV3) (d : Disk) (cutoff : Int64) :
    (w.truncate d cutoff).2 = w ∨ cutoff < (w.truncate d cutoff).2.seq := by
  simp only [WriteAheadLogV3.truncate]
  split
  · exact .inr (mem_replay (List.mem_of_getLast? ‹_›))
  · exact .inl rfl

theorem run_checkpoint (e : StorageEngine) :
    checkpoint.run e = (e.toCheckpoint.map fun _ => (), match e.toCheckpoint with
      | .ok ckp => (e.saveCheckpoint ckp).truncateWal ckp.lastSeq
      | .error _ => e) := by
  rw [checkpoint, Prog.bind_ok (Prog.run_get e)]
  cases e.toCheckpoint <;> rfl

theorem lastSeq_toCheckpoint {e : StorageEngine} {ckp : Checkpoint}
    (h : e.toCheckpoint = .ok ckp) : ckp.lastSeq = e.walSeq := by
  rw [toCheckpoint] at h
  cases hrows : e.tables.keys.mapM e.tableCheckpoint with
  | error f => rw [hrows] at h; cases h
  | ok rows => rw [hrows] at h; cases h; rfl

/-- A checkpoint adds its own event and the rewriting of the log. -/
theorem journal_checkpoint (e : StorageEngine) (past : List DiskEvent) :
    past ++ (checkpoint.run e).2.dir.journal = past ++ e.dir.journal ∧
        (checkpoint.run e).2 = e ∨
      ∃ ckp kept, ckp.lastSeq = e.walSeq ∧ past ++ (checkpoint.run e).2.dir.journal =
        past ++ e.dir.journal ++ [.saveCheckpoint ckp] ++ [.rewriteWal kept] ∧
        ((checkpoint.run e).2.walSeq = e.wal.seq ∨ e.walSeq < (checkpoint.run e).2.walSeq) := by
  rw [run_checkpoint]
  cases hc : e.toCheckpoint with
  | error f => exact .inl ⟨rfl, rfl⟩
  | ok ckp =>
    have hlast := lastSeq_toCheckpoint hc
    refine .inr ⟨ckp, _, hlast, by simp [truncateWal, saveCheckpoint]; rfl, ?_⟩
    rw [← hlast]
    rcases truncate_seq e.wal (e.saveCheckpoint ckp).dir.disk ckp.lastSeq with h | h
    · exact .inl (congrArg WriteAheadLogV3.seq h)
    · exact .inr h

/-- The record that an event appends. -/
def DiskEvent.appended : DiskEvent → Option WALRecordV3
  | .append r => some r
  | _ => none

theorem eq_map_append {journal : List DiskEvent}
    (h : ∀ e ∈ journal, e.appended.isSome = true) :
    journal = (journal.filterMap DiskEvent.appended).map DiskEvent.append := by
  induction journal with
  | nil => rfl
  | cons e journal ih =>
    obtain ⟨he, htl⟩ := List.forall_mem_cons.1 h
    cases e with
    | append r => exact congrArg (DiskEvent.append r :: ·) (ih htl)
    | saveCheckpoint ckp => cases he
    | rewriteWal kept => cases he

/-- A checkpoint that covers the whole log empties it and takes the counter back to its end. -/
theorem checkpoint_covered {e : StorageEngine} {ckp : Checkpoint} (hc : e.toCheckpoint = .ok ckp)
    (ht : e.wal.truncate (e.saveCheckpoint ckp).dir.disk ckp.lastSeq = ([], e.wal)) :
    (checkpoint.run e).2 = { e with
      dir := (e.dir.push (.saveCheckpoint ckp)).push (.rewriteWal [])
      walSeq := e.wal.seq } := by
  have hwal : (e.saveCheckpoint ckp).wal = e.wal := rfl
  rw [run_checkpoint, hc]
  simp only [truncateWal]
  rw [hwal, ht]
  rfl

/-- After `n` events that leave an empty log, all that was written are records above `lastSeq` that the
counter has reached. -/
structure LogTail (e : StorageEngine) (lastSeq : Int64) (n : Nat) : Prop where
  empty : ((e.dir.journal.take n).foldl DiskEvent.apply e.dir.start).walLog = []
  appended : ∀ ev ∈ e.dir.journal.drop n, ev.appended.any fun r =>
    decide (r.Fits ∧ lastSeq < r.seq ∧ r.seq ≤ e.walSeq)
  covered : lastSeq ≤ e.walSeq

instance (e : StorageEngine) (lastSeq : Int64) (n : Nat) : Decidable (LogTail e lastSeq n) :=
  decidable_of_iff (((e.dir.journal.take n).foldl DiskEvent.apply e.dir.start).walLog = [] ∧
    (∀ ev ∈ e.dir.journal.drop n, ev.appended.any fun r =>
      decide (r.Fits ∧ lastSeq < r.seq ∧ r.seq ≤ e.walSeq)) ∧ lastSeq ≤ e.walSeq)
    ⟨fun h => ⟨h.1, h.2.1, h.2.2⟩, fun h => ⟨h.empty, h.appended, h.covered⟩⟩

section Tail
variable {e : StorageEngine} {lastSeq : Int64} {n : Nat}

theorem LogTail.records (h : LogTail e lastSeq n) :
    ∀ r ∈ (e.dir.journal.drop n).filterMap DiskEvent.appended,
      r.Fits ∧ lastSeq < r.seq ∧ r.seq ≤ e.walSeq := by
  intro r hr
  obtain ⟨ev, hev, happ⟩ := List.mem_filterMap.1 hr
  have hany := h.appended ev hev
  rw [happ] at hany
  exact of_decide_eq_true hany

theorem LogTail.walLog (h : LogTail e lastSeq n) :
    e.dir.disk.walLog = encodeLog ((e.dir.journal.drop n).filterMap DiskEvent.appended) := by
  have htail := eq_map_append fun ev hev => Option.isSome_of_any (h.appended ev hev)
  have hjournal : e.dir.journal = e.dir.journal.take n ++
      ((e.dir.journal.drop n).filterMap DiskEvent.appended).map DiskEvent.append := by
    rw [← htail, List.take_append_drop]
  rw [Dir.disk, congrArg (List.foldl _ _) hjournal, List.foldl_append, foldl_apply_append, h.empty,
    List.nil_append]

theorem checkpoint_appended (hok : e.toCheckpoint.isOk = true) (h : LogTail e lastSeq n) :
    (checkpoint.run e).2 = { e with
      dir := (e.dir.push (.saveCheckpoint (e.toCheckpoint.toOption.getD Checkpoint.empty))).push
        (.rewriteWal [])
      walSeq := e.wal.seq } := by
  have hc := ExceptList.eq_ok_getD hok Checkpoint.empty
  have hcounted : ∀ r ∈ (e.dir.journal.drop n).filterMap DiskEvent.appended,
      r.seq ≤ (e.toCheckpoint.toOption.getD Checkpoint.empty).lastSeq := by
    intro r hr
    rw [lastSeq_toCheckpoint hc]
    exact (h.records r hr).2.2
  refine checkpoint_covered hc
    (WriteAheadLogV3.truncate_covered (fun r hr => (h.records r hr).1) ?_ hcounted e.wal)
  rw [saveCheckpoint, Dir.disk_push]
  exact h.walLog

end Tail

/-! ### Loads -/

theorem run_thenCheckpoint (body : EngineM Unit) (e : StorageEngine) :
    (thenCheckpoint body).run e = match body.run e with
      | (.ok _, e') => maybeCheckpoint.run e'
      | (.error f, e') => (.error f, e') := by
  rw [thenCheckpoint, Prog.run_bind]
  rcases body.run e with ⟨_ | _, e'⟩
  · rfl
  · simp only [Prog.run_bind]
    rcases maybeCheckpoint.run e' with ⟨_ | _, _⟩ <;> rfl

/-- A property that the body of a call leaves and that a checkpoint, where the call ends with one,
keeps. -/
theorem StorageEngine.exec_of_body {I : StorageEngine → Prop} {c : Call} {e : StorageEngine}
    (hbody : I (c.body.run e).2) (hckp : c.checksCheckpoint = true → ∀ e',
      c.body.run e = (.ok (), e') → e'.checkpointDue = true → I e' → I (checkpoint.run e').2) :
    I (c.exec.run e).2 := by
  rw [Call.exec_eq]
  by_cases hcheck : c.checksCheckpoint = true
  · rw [if_pos hcheck, run_thenCheckpoint]
    rcases hrun : c.body.run e with ⟨f | ⟨⟩, e'⟩ <;> rw [hrun] at hbody
    · exact hbody
    · simp only [maybeCheckpoint, Prog.bind_ok (Prog.run_get e')]
      split
      · exact hckp hcheck e' hrun ‹_› hbody
      · exact hbody
  · rw [if_neg hcheck]
    exact hbody

/-- What an action does to the engine of a session. -/
def Session.Moves (e e' : StorageEngine) : Action → Prop
  | .call c => e' = (c.exec.run e).2
  | .save | .close => e' = (checkpoint.run e).2
  | .restart k n checkpointInterval clock =>
    load.run (create (e.dir.crash k n) checkpointInterval clock) = (.ok (), e')

theorem Session.moves_of_next {s s' : Session} {a : Action} (hs : s.next a = some s') :
    Session.Moves s.engine s'.engine a := by
  cases a with
  | restart k n checkpointInterval clock =>
    simp only [Session.next] at hs
    split at hs
    · rename_i e hload
      cases hs
      exact hload
    · cases hs
  | _ =>
    simp only [Session.next] at hs
    split at hs
    · cases hs
    · cases hs
      rfl

theorem Session.next_restart {s : Session} {k n : Nat} {checkpointInterval : Int32} {clock : Int64}
    {e : StorageEngine}
    (h : load.run (create (s.engine.dir.crash k n) checkpointInterval clock) = (.ok (), e)) :
    s.next (.restart k n checkpointInterval clock) =
      some ⟨e, s.past ++ s.engine.dir.journal.take (k + 1), false⟩ := by
  rw [Session.next, h]

/-- An invariant of the engine along a run. -/
theorem Session.Reached.engine {P : Session → Action → Prop} {I : StorageEngine → Prop}
    (hstart : ∀ checkpointInterval clock, I (create Disk.empty checkpointInterval clock))
    (hstep : ∀ s a e, P s a → I s.engine → Session.Moves s.engine e a → I e) {s : Session}
    (h : Session.Reached P s) : I s.engine := by
  induction h with
  | start checkpointInterval clock => exact hstart _ _
  | step _ ha hs ih => exact hstep _ _ _ ha ih (Session.moves_of_next hs)

/-- Any calls may be made on an engine that is open. -/
theorem Session.reached_calls {e : StorageEngine} {past : List DiskEvent}
    (h : Session.Reached (fun _ _ => True) ⟨e, past, false⟩) (calls : List Call) :
    Session.Reached (fun _ _ => True)
      ⟨calls.foldl (fun e c => (c.exec.run e).2) e, past, false⟩ := by
  induction calls generalizing e with
  | nil => exact h
  | cons c calls ih => exact ih (.step (a := .call c) h trivial rfl)

/-- The invariant of safe runs. -/
def Session.Ordered (s : Session) : Prop :=
  Increasing s.history ∧ (s.closed = false → Covers s.engine.walSeq s.history)

/-- No checkpoint is due in an engine whose interval is zero. -/
theorem not_due {c : Call} {e e' : StorageEngine}
    (h : (c.body.run e).2.checkpointInterval = 0) (hrun : c.body.run e = (.ok (), e')) :
    ¬ e'.checkpointDue = true := by
  have h : e'.checkpointInterval = 0 := by
    rw [hrun] at h
    exact h
  simp [checkpointDue, h]

def oneRow : Row := (∅ : Row).insert (str "a") (.int 1)

def columnA : ColumnDef := ⟨str "a", .integer, true, false, none⟩

/-- One table with one row, written to the log and not yet to a checkpoint. -/
def loggedEngine : StorageEngine :=
  ((Call.insert (str "t") oneRow).exec.run
    ((Call.createTable (str "t") [⟨str "a", .integer, true, false, none⟩]).exec.run
      (create Disk.empty 0 0)).2).2

def loggedCheckpoint : Checkpoint := loggedEngine.toCheckpoint.toOption.getD Checkpoint.empty

def checkpointedEngine : StorageEngine :=
  { loggedEngine with
    dir := (loggedEngine.dir.push (.saveCheckpoint loggedCheckpoint)).push (.rewriteWal [])
    walSeq := loggedEngine.wal.seq }

end JiaMiaoDB
