import Mathlib.Data.List.Infix
import JiaMiaoDB.Storage.ManagerEffects

/-!
# How long a savepoint lives

Every call but `savepoint` leaves a part of the stack from its bottom. Beside the manager a run keeps,
for each savepoint, how many transactions had ended when it was set. A commit without an xid leaves
the stack as it is, and nothing else carries a savepoint into the next transaction.
-/

set_option autoImplicit false

namespace JiaMiaoDB
open TransactionManager

/-! ### What calls leave of the stack -/

/-- A run of the program leaves a part of the stack from its bottom. -/
def LeavesPrefix {α : Type} (p : TxnM α) : Prop :=
  ∀ m, (p.run m).2.context.savepoints <+: m.context.savepoints

theorem leavesPrefix_modify {f : TransactionManager → TransactionManager}
    (h : ∀ m, (f m).context.savepoints <+: m.context.savepoints) :
    LeavesPrefix (Prog.modify f) := h

theorem leavesPrefix_discard {α : Type} {p : TxnM α} (h : LeavesPrefix p) :
    LeavesPrefix (ManagerCall.discard p) := by
  intro m
  have hp := h m
  unfold ManagerCall.discard
  rcases hrun : p.run m with ⟨f | a, m'⟩ <;> rw [hrun] at hp
  · rw [Prog.bind_error hrun]
    exact hp
  · rw [Prog.bind_ok hrun]
    exact hp

/-- The savepoint that is found stands on the ones that are left. -/
theorem prefix_of_findSavepoint {name : Str} {l before : List Savepoint} {sp : Savepoint}
    (h : findSavepoint name l = some (sp, before)) : before ++ [sp] <+: l := by
  unfold findSavepoint at h
  cases hdrop : l.reverse.dropWhile (fun s => decide (s.name ≠ name)) with
  | nil =>
    rw [hdrop] at h
    cases h
  | cons s rest =>
    rw [hdrop] at h
    cases h
    rw [← List.reverse_suffix, List.reverse_append, List.reverse_reverse]
    have hsuffix := List.dropWhile_suffix (l := l.reverse) fun s => decide (s.name ≠ name)
    rw [hdrop] at hsuffix
    exact hsuffix

theorem length_of_findSavepoint {name : Str} {l before : List Savepoint} {sp : Savepoint}
    (h : findSavepoint name l = some (sp, before)) : before.length < l.length := by
  have hlength := (prefix_of_findSavepoint h).length_le
  rw [List.length_append, List.length_singleton] at hlength
  omega

theorem leavesPrefix_assignXid : LeavesPrefix assignXid := by
  intro m
  by_cases hxid : m.context.xid = InvalidTransactionId
  · obtain ⟨c, -, ⟨-, f, hrun⟩ | ⟨-, hrun⟩⟩ := run_assignXid_cases hxid
    · rw [hrun]
    · rw [hrun]
      exact List.prefix_rfl
  · rw [run_assignXid_of_ne hxid]

/-- The stack and the undo records that a finished transaction leaves. -/
def TransactionContext.Cleared (c : TransactionContext) : Prop :=
  c.savepoints = [] ∧ c.undoRecords = []

theorem cleared_abortTransaction (m : TransactionManager) :
    m.abortTransaction.context.Cleared := by
  unfold TransactionManager.abortTransaction
  dsimp only
  split <;> exact ⟨rfl, rfl⟩

/-- A commit without an xid keeps the stack, a failed one changes nothing. -/
theorem run_commitTransaction_cases (m : TransactionManager) :
    m.context.xid = InvalidTransactionId ∧ (commitTransaction.run m).1 = .ok () ∧
        (commitTransaction.run m).2.context.undoRecords = [] ∧
        (commitTransaction.run m).2.context.savepoints = m.context.savepoints ∨
      m.context.xid ≠ InvalidTransactionId ∧
        ((∃ f, commitTransaction.run m = (.error f, m)) ∨
          (commitTransaction.run m).1 = .ok () ∧
          (commitTransaction.run m).2.context.Cleared) := by
  rw [commitTransaction, Prog.bind_ok (Prog.run_get m)]
  dsimp only
  split
  · exact .inl ⟨‹_›, rfl, rfl, rfl⟩
  · refine .inr ⟨‹_›, ?_⟩
    split
    · exact .inl ⟨_, rfl⟩
    · exact .inr ⟨rfl, rfl, rfl⟩

theorem leavesPrefix_commitTransaction : LeavesPrefix commitTransaction := by
  intro m
  rcases run_commitTransaction_cases m with ⟨-, -, -, h⟩ | ⟨-, ⟨f, h⟩ | ⟨-, h, -⟩⟩
  · rw [h]
  · rw [h]
  · rw [h]
    exact List.nil_prefix

/-- The commit that a command ends with. -/
def commitToDefault : TxnM Unit := do
  commitTransaction
  Prog.modify (·.setBlockState .default)

theorem run_commitToDefault (m : TransactionManager) :
    (commitToDefault.run m).1 = (commitTransaction.run m).1 ∧
      (commitToDefault.run m).2.context.savepoints =
          (commitTransaction.run m).2.context.savepoints ∧
        (commitToDefault.run m).2.context.undoRecords =
          (commitTransaction.run m).2.context.undoRecords := by
  unfold commitToDefault
  rcases hrun : commitTransaction.run m with ⟨f | a, m'⟩
  · rw [Prog.bind_error hrun]
    exact ⟨rfl, rfl, rfl⟩
  · rw [Prog.bind_ok hrun]
    exact ⟨rfl, rfl, rfl⟩

theorem leavesPrefix_commitTransactionCommand : LeavesPrefix commitTransactionCommand := by
  have hcommit : LeavesPrefix commitToDefault := by
    intro m
    rw [(run_commitToDefault m).2.1]
    exact leavesPrefix_commitTransaction m
  intro m
  rw [commitTransactionCommand, Prog.bind_ok (Prog.run_get m)]
  split
  · exact hcommit m
  · exact hcommit m
  · exact List.prefix_rfl
  · rw [commandCounterIncrement, Prog.bind_ok (Prog.run_get m)]
    split <;> exact List.prefix_rfl
  · have h := (cleared_abortTransaction m).1
    exact h ▸ List.nil_prefix
  · exact List.prefix_rfl

theorem ManagerCall.leavesPrefix {c : ManagerCall} (hc : ∀ name, c ≠ .savepoint name) :
    LeavesPrefix c.run := by
  cases c with
  | startTransactionCommand =>
    refine leavesPrefix_modify fun m => ?_
    unfold TransactionManager.startTransactionCommand
    split <;> exact List.prefix_rfl
  | commitTransactionCommand => exact leavesPrefix_commitTransactionCommand
  | beginTransactionBlock =>
    intro m
    rw [run, TransactionManager.beginTransactionBlock, Prog.bind_ok (Prog.run_get m)]
    split <;> exact List.prefix_rfl
  | commitTransaction => exact leavesPrefix_commitTransaction
  | abortTransaction =>
    refine leavesPrefix_modify fun m => ?_
    rw [(cleared_abortTransaction m).1]
    exact List.nil_prefix
  | assignXid => exact leavesPrefix_discard leavesPrefix_assignXid
  | maybeAntiWraparound =>
    refine leavesPrefix_modify fun m => ?_
    obtain ⟨c, hm, -⟩ := m.exists_maybeAntiWraparound
    rw [hm]
  | commandCounterIncrement =>
    intro m
    rw [run, TransactionManager.commandCounterIncrement, Prog.bind_ok (Prog.run_get m)]
    split <;> exact List.prefix_rfl
  | getTransactionSnapshot =>
    refine leavesPrefix_discard fun m => ?_
    rw [TransactionManager.getTransactionSnapshot, Prog.bind_ok (Prog.run_get m)]
    split <;> exact List.prefix_rfl
  | savepoint name => exact absurd rfl (hc name)
  | rollbackToSavepoint name =>
    refine leavesPrefix_discard fun m => ?_
    rw [TransactionManager.rollbackToSavepoint, Prog.bind_ok (Prog.run_get m)]
    split
    · exact List.prefix_rfl
    · exact (List.prefix_append _ _).trans (prefix_of_findSavepoint ‹_›)
  | releaseSavepoint name =>
    intro m
    rw [run, TransactionManager.releaseSavepoint, Prog.bind_ok (Prog.run_get m)]
    split
    · exact List.prefix_rfl
    · exact (List.prefix_append _ _).trans (prefix_of_findSavepoint ‹_›)
  | registerSiread key =>
    refine leavesPrefix_modify fun m => ?_
    unfold TransactionManager.registerSiread
    split <;> exact List.prefix_rfl
  | registerWrite key =>
    refine leavesPrefix_modify fun m => ?_
    unfold TransactionManager.registerWrite
    split <;> exact List.prefix_rfl
  | resetContext => exact leavesPrefix_modify fun m => List.nil_prefix
  | _ => exact leavesPrefix_modify fun m => List.prefix_rfl

/-! ### Ends of transactions -/

namespace ManagerCall

/-- The call commits the transaction. -/
def commits (m : TransactionManager) : ManagerCall → Bool
  | .commitTransaction => true
  | .commitTransactionCommand => m.context.blockState = .started ∨ m.context.blockState = .end_
  | _ => false

/-- The call aborts the transaction. -/
def aborts (m : TransactionManager) : ManagerCall → Bool
  | .abortTransaction => true
  | .commitTransactionCommand => m.context.blockState = .abortPending
  | _ => false

/-- The call ends the transaction; a commit that throws does not. -/
def Ends (m : TransactionManager) (c : ManagerCall) : Prop :=
  (c.commits m ∨ c.aborts m) ∧ (c.run.run m).1 = .ok ()

instance (m : TransactionManager) (c : ManagerCall) : Decidable (c.Ends m) :=
  inferInstanceAs (Decidable ((_ ∨ _) ∧ _))

theorem run_of_commits {m : TransactionManager} {c : ManagerCall} (h : c.commits m = true) :
    (c.run.run m).1 = (TransactionManager.commitTransaction.run m).1 ∧
      (c.run.run m).2.context.savepoints =
          (TransactionManager.commitTransaction.run m).2.context.savepoints ∧
        (c.run.run m).2.context.undoRecords =
          (TransactionManager.commitTransaction.run m).2.context.undoRecords := by
  cases c with
  | commitTransaction => exact ⟨rfl, rfl, rfl⟩
  | commitTransactionCommand =>
    rw [run, TransactionManager.commitTransactionCommand, Prog.bind_ok (Prog.run_get m)]
    rcases of_decide_eq_true h with h | h <;> rw [h] <;> exact run_commitToDefault m
  | _ => cases h

theorem cleared_of_aborts {m : TransactionManager} {c : ManagerCall} (h : c.aborts m = true) :
    (c.run.run m).2.context.Cleared := by
  cases c with
  | abortTransaction => exact cleared_abortTransaction m
  | commitTransactionCommand =>
    have hstate : m.context.blockState = .abortPending := of_decide_eq_true h
    rw [run, TransactionManager.commitTransactionCommand, Prog.bind_ok (Prog.run_get m), hstate]
    exact cleared_abortTransaction m
  | _ => cases h

/-- No commit without an xid leaves a savepoint behind. -/
def ClosesStack (m : TransactionManager) (c : ManagerCall) : Prop :=
  c.commits m → m.context.xid = InvalidTransactionId → m.context.savepoints = []

theorem cleared_iff {m : TransactionManager} {c : ManagerCall} :
    (c.Ends m → (c.run.run m).2.context.Cleared) ↔ c.ClosesStack m := by
  constructor
  · intro hclear hcommit hxid
    obtain ⟨hok, hstack, -⟩ := run_of_commits hcommit
    rcases run_commitTransaction_cases m with ⟨-, hok', -, hkeep⟩ | ⟨hne, -⟩
    · rw [← hkeep, ← hstack]
      exact (hclear ⟨.inl hcommit, hok.trans hok'⟩).1
    · exact absurd hxid hne
  · rintro hcloses ⟨hcommit | habort, hok⟩
    · obtain ⟨hres, hstack, hundo⟩ := run_of_commits hcommit
      unfold TransactionContext.Cleared
      rw [hstack, hundo]
      rcases run_commitTransaction_cases m with
        ⟨hxid, -, hrecords, hkeep⟩ | ⟨-, ⟨f, hrun⟩ | ⟨-, hclear⟩⟩
      · exact ⟨hkeep.trans (hcloses hcommit hxid), hrecords⟩
      · rw [hres, hrun] at hok
        cases hok
      · exact hclear
    · exact cleared_of_aborts habort

end ManagerCall

/-! ### Runs -/

/-- The operations of the manager: `set_next_xid` and `from_json` store the next xid and the log. -/
inductive ManagerOp where
  | call (c : ManagerCall)
  | store (nextXid : TransactionId) (clog : CLog)

/-- The manager, the number of transactions that have ended, and that number for each savepoint when
it was set. -/
structure TracedManager where
  manager : TransactionManager
  ended : Nat
  setIn : List Nat

namespace TracedManager

def initial : TracedManager := ⟨TransactionManager.initial, 0, []⟩

/-- Savepoints are only set at the top of the stack and only leave it from there. -/
def step (s : TracedManager) : ManagerOp → TracedManager
  | .call c =>
    let m := (c.run.run s.manager).2
    { manager := m
      ended := if c.Ends s.manager then s.ended + 1 else s.ended
      setIn := match c with
        | .savepoint _ => s.setIn ++ [s.ended]
        | _ => s.setIn.take m.context.savepoints.length }
  | .store nextXid clog => { s with manager := { s.manager with nextXid := nextXid, clog := clog } }

/-- A rollback finds no savepoint that was set before the last end of a transaction. -/
def FindsOwn (s : TracedManager) : Prop :=
  ∀ name sp before, findSavepoint name s.manager.context.savepoints = some (sp, before) →
    s.setIn[before.length]? = some s.ended

/-- Every end of a transaction clears the stack and the undo records, and no state between shows a
savepoint of an earlier transaction. -/
def SavepointsEnd (s : TracedManager) : List ManagerOp → Prop
  | [] => s.FindsOwn
  | op :: ops => s.FindsOwn ∧
    (∀ c, op = .call c → c.Ends s.manager → (s.step op).manager.context.Cleared) ∧
    (s.step op).SavepointsEnd ops

/-- No commit of the run that has no xid meets a savepoint. -/
def ClosesStacks (s : TracedManager) : List ManagerOp → Prop
  | [] => True
  | op :: ops => (∀ c, op = .call c → c.ClosesStack s.manager) ∧ (s.step op).ClosesStacks ops

/-- Each savepoint was set since the last end of a transaction. -/
structure Current (s : TracedManager) : Prop where
  length : s.setIn.length = s.manager.context.savepoints.length
  ended : ∀ k ∈ s.setIn, k = s.ended

theorem current_initial : initial.Current := ⟨rfl, fun _ h => absurd h List.not_mem_nil⟩

theorem Current.findsOwn {s : TracedManager} (h : s.Current) : s.FindsOwn := by
  intro name sp before hfind
  have hlt : before.length < s.setIn.length := h.length ▸ length_of_findSavepoint hfind
  rw [List.getElem?_eq_getElem hlt]
  exact congrArg some (h.ended _ (List.getElem_mem hlt))

theorem Current.step {s : TracedManager} (h : s.Current) {op : ManagerOp}
    (hop : ∀ c, op = .call c → c.ClosesStack s.manager) : (s.step op).Current := by
  cases op with
  | store nextXid clog => exact ⟨h.length, h.ended⟩
  | call c =>
    by_cases hsp : ∃ name, c = .savepoint name
    · obtain ⟨name, rfl⟩ := hsp
      have hends : ¬ (ManagerCall.savepoint name).Ends s.manager :=
        fun he => he.1.elim Bool.noConfusion Bool.noConfusion
      unfold TracedManager.step
      dsimp only
      rw [if_neg hends]
      constructor
      · change (s.setIn ++ [s.ended]).length = (_ ++ [_]).length
        rw [List.length_append, List.length_append, h.length]
        rfl
      · intro k hk
        rcases List.mem_append.1 hk with hk | hk
        · exact h.ended k hk
        · exact List.mem_singleton.1 hk
    · have hprefix := ManagerCall.leavesPrefix (c := c) (fun name he => hsp ⟨name, he⟩) s.manager
      have htake : (s.step (.call c)).setIn =
          s.setIn.take (c.run.run s.manager).2.context.savepoints.length := by
        unfold TracedManager.step
        cases c with
        | savepoint name => exact absurd ⟨name, rfl⟩ hsp
        | _ => rfl
      constructor
      · rw [htake, List.length_take, h.length]
        exact Nat.min_eq_left hprefix.length_le
      · intro k hk
        rw [htake] at hk
        by_cases hends : c.Ends s.manager
        · rw [((ManagerCall.cleared_iff.2 (hop c rfl)) hends).1] at hk
          exact absurd hk List.not_mem_nil
        · unfold TracedManager.step
          dsimp only
          rw [if_neg hends]
          exact h.ended k (List.mem_of_mem_take hk)

theorem savepointsEnd_iff_of_current {s : TracedManager} (h : s.Current) (ops : List ManagerOp) :
    s.SavepointsEnd ops ↔ s.ClosesStacks ops := by
  induction ops generalizing s with
  | nil => exact ⟨fun _ => trivial, fun _ => h.findsOwn⟩
  | cons op ops ih =>
    constructor
    · rintro ⟨-, hclear, hrest⟩
      have hop : ∀ c, op = .call c → c.ClosesStack s.manager := by
        rintro c rfl
        exact ManagerCall.cleared_iff.1 (hclear c rfl)
      exact ⟨hop, (ih (h.step hop)).1 hrest⟩
    · rintro ⟨hop, hrest⟩
      refine ⟨h.findsOwn, ?_, (ih (h.step hop)).2 hrest⟩
      rintro c rfl
      exact ManagerCall.cleared_iff.2 (hop c rfl)

/-- In a run from a new manager every transaction takes its savepoints along when it ends if and only
if no commit without an xid meets a savepoint. -/
theorem savepointsEnd_iff (ops : List ManagerOp) :
    initial.SavepointsEnd ops ↔ initial.ClosesStacks ops :=
  savepointsEnd_iff_of_current current_initial ops

/-- A block that only sets a savepoint is committed. -/
theorem not_savepointsEnd : ¬ ∀ ops : List ManagerOp, initial.SavepointsEnd ops := by
  intro hall
  obtain ⟨-, -, -, -, -, hclear, -⟩ := hall [.call .beginTransactionBlock,
    .call (.savepoint (str "a")), .call .commitTransaction]
  have h := (hclear .commitTransaction rfl ⟨.inl rfl, rfl⟩).1
  cases h

end TracedManager
end JiaMiaoDB
