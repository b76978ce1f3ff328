import JiaMiaoDB.Storage.XidCalls

/-! What one call of a client does to the ids, the commit log, the active set and the snapshot of the
transaction manager. Invariants of the manager are proved from these effects, not from the calls. -/

set_option autoImplicit false

namespace JiaMiaoDB
open StorageEngine

namespace TransactionManager

/-! ### Handing out an id -/

/-- Only entries of transactions that are gone change, and only to aborted. -/
def GivesUp (m : TransactionManager) (c : CLog) : Prop :=
  ∀ x, c.getStatus x = m.clog.getStatus x ∨ FirstNormalTransactionId ≤ x ∧
    x < m.getOldestActiveXid ∧ m.clog.getStatus x = .inProgress ∧ c.getStatus x = .aborted

theorem givesUp_freezeOldXids (m : TransactionManager) : m.GivesUp m.freezeOldXids.clog := by
  unfold TransactionManager.freezeOldXids
  refine List.foldlRecOn (motive := m.GivesUp) _ _ (fun x => .inl rfl) ?_
  intro c hc xid _ x
  by_cases hnormal : xid < FirstNormalTransactionId
  · rw [if_pos hnormal]
    exact hc x
  rw [if_neg hnormal]
  by_cases hold : m.getOldestActiveXid ≤ xid
  · rw [if_pos hold]
    exact hc x
  rw [if_neg hold]
  by_cases hopen : c.getStatus xid = .inProgress
  · rw [if_pos hopen, CLog.getStatus_setStatus]
    split
    · subst x
      rcases hc xid with hx | ⟨-, -, -, hx⟩
      · exact .inr ⟨UInt32.not_lt.mp hnormal, UInt32.not_le.mp hold, hx ▸ hopen, rfl⟩
      · rw [hopen] at hx
        cases hx
    · exact hc x
  · rw [if_neg hopen]
    exact hc x

theorem exists_maybeAntiWraparound (m : TransactionManager) :
    ∃ c, m.maybeAntiWraparound = { m with clog := c } ∧ m.GivesUp c := by
  have hsame : m.GivesUp m.clog := fun x => .inl rfl
  unfold maybeAntiWraparound
  split
  · exact ⟨m.clog, rfl, hsame⟩
  · split
    · exact ⟨m.freezeOldXids.clog, rfl, m.givesUp_freezeOldXids⟩
    · exact ⟨m.clog, rfl, hsame⟩

/-- The manager with the next id handed out, over the log `c`. -/
def issue (m : TransactionManager) (c : CLog) : TransactionManager :=
  { m with
    nextXid := m.nextXid + 1
    activeXids := m.activeXids.insert m.nextXid
    clog := c.setStatus m.nextXid .inProgress }

theorem run_allocateXid_cases (m : TransactionManager) : ∃ c, m.GivesUp c ∧
    (XIDEmergencyStop ≤ m.nextXid.toNat ∧
        (∃ f, allocateXid.run m = (.error f, { m with clog := c })) ∨
      m.nextXid.toNat < XIDEmergencyStop ∧ allocateXid.run m = (.ok m.nextXid, m.issue c)) := by
  obtain ⟨c, hm, hc⟩ := m.exists_maybeAntiWraparound
  refine ⟨c, hc, ?_⟩
  rw [allocateXid, Prog.bind_ok (Prog.run_modify _ _), Prog.bind_ok (Prog.run_get _), hm]
  by_cases hstop : XIDEmergencyStop ≤ m.nextXid.toNat
  · left
    rw [if_pos hstop]
    exact ⟨hstop, _, rfl⟩
  · right
    rw [if_neg hstop]
    exact ⟨Nat.lt_of_not_le hstop, rfl⟩

/-- The manager whose context has the id that it has just been handed. -/
def assign (m : TransactionManager) (c : CLog) : TransactionManager :=
  (m.issue c).setContext { m.context with xid := m.nextXid }

theorem run_assignXid_of_ne {m : TransactionManager} (h : m.context.xid ≠ InvalidTransactionId) :
    assignXid.run m = (.ok m.context.xid, m) := by
  rw [assignXid, Prog.bind_ok (Prog.run_get _), if_neg h]
  rfl

theorem run_assignXid_cases {m : TransactionManager} (h : m.context.xid = InvalidTransactionId) :
    ∃ c, m.GivesUp c ∧
      (XIDEmergencyStop ≤ m.nextXid.toNat ∧
          (∃ f, assignXid.run m = (.error f, { m with clog := c })) ∨
        m.nextXid.toNat < XIDEmergencyStop ∧ assignXid.run m = (.ok m.nextXid, m.assign c)) := by
  obtain ⟨c, hc, ⟨hstop, f, hrun⟩ | ⟨hstop, hrun⟩⟩ := m.run_allocateXid_cases
  · refine ⟨c, hc, .inl ⟨hstop, f, ?_⟩⟩
    rw [assignXid, Prog.bind_ok (Prog.run_get _), if_pos h, Prog.bind_error hrun]
  · refine ⟨c, hc, .inr ⟨hstop, ?_⟩⟩
    rw [assignXid, Prog.bind_ok (Prog.run_get _), if_pos h, Prog.bind_ok hrun]
    rfl

theorem lt_nextXid_succ {m : TransactionManager} (h : m.nextXid.toNat < XIDEmergencyStop) :
    m.nextXid < m.nextXid + 1 := by
  have hstop : XIDEmergencyStop = 2146483648 := rfl
  have hone : (1 : UInt32).toNat = 1 := rfl
  rw [UInt32.lt_iff_toNat_lt, UInt32.toNat_add]
  omega

/-! ### Effects -/

/-- The part of the manager that visibility, vacuum and undo depend on. -/
structure XidView where
  nextXid : TransactionId
  activeXids : XidSet
  clog : CLog
  xid : TransactionId
  undoRecords : List UndoRecord
  hasSnapshot : Bool
  snapshot : Snapshot

def view (m : TransactionManager) : XidView :=
  ⟨m.nextXid, m.activeXids, m.clog, m.context.xid, m.context.undoRecords, m.context.hasSnapshot,
    m.context.snapshot⟩

/-- The view of a context without a transaction. -/
def XidView.cleared (v : XidView) : XidView :=
  { v with xid := InvalidTransactionId, undoRecords := [], hasSnapshot := false }

inductive Effect (m m' : TransactionManager) : Prop
  | same (h : m'.view = m.view)
  /-- The context starts anew. An id that it had stays in the active set. -/
  | clear (h : m'.view = m.view.cleared)
  | finish (status : TransactionStatus) (hstatus : status = .committed ∨ status = .aborted)
      (hxid : m.context.xid ≠ InvalidTransactionId)
      (h : m'.view = { m.view.cleared with
        activeXids := m.activeXids.erase m.context.xid
        clog := m.clog.setStatus m.context.xid status })
  /-- The end of a transaction that has no id. -/
  | finishEmpty (hxid : m.context.xid = InvalidTransactionId)
      (h : m'.view = { m.view.cleared with activeXids := m.activeXids.erase InvalidTransactionId })
  | giveUp (c : CLog) (hc : m.GivesUp c) (h : m'.view = { m.view with clog := c })
  | assign (c : CLog) (hc : m.GivesUp c) (hstop : m.nextXid.toNat < XIDEmergencyStop)
      (hxid : m.context.xid = InvalidTransactionId) (h : m'.view = (m.assign c).view)
  | snapshot (hnone : m.context.hasSnapshot = false)
      (h : m'.view = { m.view with snapshot := m.getSnapshot, hasSnapshot := true })

section Effects
variable {m m' : TransactionManager}

/-- The end state of a program on the manager is an effect away. -/
def Affects {α : Type} (p : TxnM α) : Prop := ∀ m, Effect m (p.run m).2

theorem affects_modify {f : TransactionManager → TransactionManager} (h : ∀ m, Effect m (f m)) :
    Affects (Prog.modify f) := h

theorem affects_discard {α : Type} {p : TxnM α} (h : Affects p) :
    Affects (ManagerCall.discard p) := by
  intro m
  have hm := h m
  unfold ManagerCall.discard
  rcases hrun : p.run m with ⟨f | a, m'⟩ <;> rw [hrun] at hm
  · rw [Prog.bind_error hrun]
    exact hm
  · rw [Prog.bind_ok hrun]
    exact hm

theorem effect_abortTransaction (m : TransactionManager) : Effect m m.abortTransaction := by
  unfold TransactionManager.abortTransaction
  dsimp only
  split
  · exact .finish .aborted (.inr rfl) ‹_› rfl
  · exact .clear rfl

theorem affects_assignXid : Affects assignXid := by
  intro m
  by_cases hxid : m.context.xid = InvalidTransactionId
  · obtain ⟨c, hc, ⟨-, f, hrun⟩ | ⟨hstop, hrun⟩⟩ := run_assignXid_cases hxid
    · rw [hrun]
      exact .giveUp c hc rfl
    · rw [hrun]
      exact .assign c hc hstop hxid rfl
  · rw [run_assignXid_of_ne hxid]
    exact .same rfl

theorem affects_commitTransaction : Affects commitTransaction := by
  intro m
  rw [commitTransaction, Prog.bind_ok (Prog.run_get m)]
  dsimp only
  split
  · rename_i hxid
    refine .finishEmpty hxid ?_
    rw [hxid]
    simp only [Prog.run_set, view, XidView.cleared, hxid]
  · rename_i hxid
    split
    · exact .same rfl
    · exact .finish .committed (.inl rfl) hxid rfl

theorem affects_commandCounterIncrement : Affects commandCounterIncrement := by
  intro m
  rw [commandCounterIncrement, Prog.bind_ok (Prog.run_get m)]
  split <;> exact .same rfl

/-- What follows an effect and keeps the view changes nothing of it. -/
theorem Effect.trans_view {m₂ : TransactionManager} (h : Effect m m') (hv : m₂.view = m'.view) :
    Effect m m₂ := by
  cases h with
  | same h => exact .same (hv.trans h)
  | clear h => exact .clear (hv.trans h)
  | finish status hstatus hxid h => exact .finish status hstatus hxid (hv.trans h)
  | finishEmpty hxid h => exact .finishEmpty hxid (hv.trans h)
  | giveUp c hc h => exact .giveUp c hc (hv.trans h)
  | assign c hc hstop hxid h => exact .assign c hc hstop hxid (hv.trans h)
  | snapshot hnone h => exact .snapshot hnone (hv.trans h)

theorem affects_commitTransactionCommand : Affects commitTransactionCommand := by
  have hcommit : Affects (do
      commitTransaction
      Prog.modify (·.setBlockState .default)) := by
    intro m
    have hm := affects_commitTransaction m
    rcases hrun : commitTransaction.run m with ⟨f | a, m'⟩ <;> rw [hrun] at hm
    · rw [Prog.bind_error hrun]
      exact hm
    · rw [Prog.bind_ok hrun]
      exact hm.trans_view rfl
  intro m
  rw [commitTransactionCommand, Prog.bind_ok (Prog.run_get m)]
  split
  · exact hcommit m
  · exact hcommit m
  · exact .same rfl
  · exact affects_commandCounterIncrement m
  · exact (effect_abortTransaction m).trans_view rfl
  · exact .same rfl

theorem view_registerSiread (m : TransactionManager) (key : RowKey) :
    (m.registerSiread key).view = m.view := by
  unfold TransactionManager.registerSiread
  split <;> rfl

theorem view_registerWrite (m : TransactionManager) (key : RowKey) :
    (m.registerWrite key).view = m.view := by
  unfold TransactionManager.registerWrite
  split <;> rfl

end Effects
end TransactionManager

open TransactionManager

/-- The calls of a client that a load does not make as well. -/
def ManagerCall.online : ManagerCall → Bool
  | .setNextXid _ | .addUndoRecord _ | .rebuildActiveFromClog => false
  | _ => true

theorem ManagerCall.online_or_rebuild {c : ManagerCall} (hc : c.client = true) :
    c.online = true ∨ c = .rebuildActiveFromClog := by
  cases c with
  | rebuildActiveFromClog => exact .inr rfl
  | setNextXid x => cases hc
  | addUndoRecord r => cases hc
  | _ => exact .inl rfl

theorem ManagerCall.affects_run {c : ManagerCall} (hc : c.online = true) : Affects c.run := by
  cases c with
  | startTransactionCommand =>
    refine affects_modify fun m => ?_
    unfold TransactionManager.startTransactionCommand
    split
    · exact .clear rfl
    · exact .same rfl
  | commitTransactionCommand => exact affects_commitTransactionCommand
  | beginTransactionBlock =>
    intro m
    rw [run, TransactionManager.beginTransactionBlock, Prog.bind_ok (Prog.run_get m)]
    split
    · exact .clear rfl
    · exact .same rfl
    · exact .same rfl
  | commitTransaction => exact affects_commitTransaction
  | abortTransaction => exact affects_modify effect_abortTransaction
  | setIsolationLevel level => exact affects_modify fun m => .same rfl
  | assignXid => exact affects_discard affects_assignXid
  | setNextXid x => cases hc
  | freezeOldXids => exact affects_modify fun m => .giveUp _ m.givesUp_freezeOldXids rfl
  | maybeAntiWraparound =>
    refine affects_modify fun m => ?_
    obtain ⟨c, hm, hc⟩ := m.exists_maybeAntiWraparound
    rw [hm]
    exact .giveUp c hc rfl
  | commandCounterIncrement => exact affects_commandCounterIncrement
  | getTransactionSnapshot =>
    refine affects_discard fun m => ?_
    rw [TransactionManager.getTransactionSnapshot, Prog.bind_ok (Prog.run_get m)]
    by_cases hs : m.context.hasSnapshot = true
    · rw [if_pos hs]
      exact .same rfl
    · rw [if_neg hs]
      exact .snapshot (Bool.not_eq_true _ ▸ hs) rfl
  | addUndoRecord r => cases hc
  | savepoint name => exact affects_modify fun m => .same rfl
  | rollbackToSavepoint name =>
    refine affects_discard fun m => ?_
    rw [TransactionManager.rollbackToSavepoint, Prog.bind_ok (Prog.run_get m)]
    split <;> exact .same rfl
  | releaseSavepoint name =>
    intro m
    rw [run, TransactionManager.releaseSavepoint, Prog.bind_ok (Prog.run_get m)]
    split <;> exact .same rfl
  | registerSiread key => exact affects_modify fun m => .same (m.view_registerSiread key)
  | registerWrite key => exact affects_modify fun m => .same (m.view_registerWrite key)
  | cleanupTransactionState x => exact affects_modify fun m => .same rfl
  | rebuildActiveFromClog => cases hc
  | resetContext => exact affects_modify fun m => .clear rfl

end JiaMiaoDB
