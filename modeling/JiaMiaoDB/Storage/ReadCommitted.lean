import JiaMiaoDB.Lib.StateExcept
import JiaMiaoDB.Storage.Transaction

/-!
# What a new snapshot sees

The operations of the transaction manager keep the active set and the commit log together: an
active transaction is in progress in the log. A snapshot taken in such a state sees a row by what
the log says of its inserter and deleter.
-/

set_option autoImplicit false

namespace JiaMiaoDB
open TransactionManager

/-- The calls that change the manager. The next xid is only set to a normal one, as `load` does. -/
inductive ManagerCall where
  | startTransactionCommand
  | commitTransactionCommand
  | beginTransactionBlock
  | commitTransaction
  | abortTransaction
  | setIsolationLevel (level : IsolationLevel)
  | assignXid
  | setNextXid (xid : {x : TransactionId // FirstNormalTransactionId ≤ x})
  | freezeOldXids
  | maybeAntiWraparound
  | commandCounterIncrement
  | getTransactionSnapshot
  | addUndoRecord (r : UndoRecord)
  | savepoint (name : Str)
  | rollbackToSavepoint (name : Str)
  | releaseSavepoint (name : Str)
  | registerSiread (key : RowKey)
  | registerWrite (key : RowKey)
  | cleanupTransactionState (xid : TransactionId)
  | rebuildActiveFromClog
  | resetContext

namespace ManagerCall

def discard {α : Type} (p : TxnM α) : TxnM Unit := do
  let _ ← p
  pure ()

def run : ManagerCall → TxnM Unit
  | startTransactionCommand => Prog.modify TransactionManager.startTransactionCommand
  | commitTransactionCommand => TransactionManager.commitTransactionCommand
  | beginTransactionBlock => TransactionManager.beginTransactionBlock
  | commitTransaction => TransactionManager.commitTransaction
  | abortTransaction => Prog.modify TransactionManager.abortTransaction
  | setIsolationLevel level =>
    Prog.modify fun m => m.setContext { m.context with isolation := level }
  | assignXid => discard TransactionManager.assignXid
  | setNextXid xid => Prog.modify fun m => { m with nextXid := xid }
  | freezeOldXids => Prog.modify TransactionManager.freezeOldXids
  | maybeAntiWraparound => Prog.modify TransactionManager.maybeAntiWraparound
  | commandCounterIncrement => TransactionManager.commandCounterIncrement
  | getTransactionSnapshot => discard TransactionManager.getTransactionSnapshot
  | addUndoRecord r => Prog.modify fun m => m.addUndoRecord r
  | savepoint name => Prog.modify fun m => m.savepoint name
  | rollbackToSavepoint name => discard (TransactionManager.rollbackToSavepoint name)
  | releaseSavepoint name => TransactionManager.releaseSavepoint name
  | registerSiread key => Prog.modify fun m => m.registerSiread key
  | registerWrite key => Prog.modify fun m => m.registerWrite key
  | cleanupTransactionState xid => Prog.modify fun m => m.cleanupTransactionState xid
  | rebuildActiveFromClog => Prog.modify TransactionManager.rebuildActiveFromClog
  | resetContext => Prog.modify TransactionManager.resetContext

end ManagerCall

/-- The managers reached from a new one. A call that throws counts with what it has done. -/
inductive TransactionManager.Reached : TransactionManager → Prop
  | initial : Reached TransactionManager.initial
  | call {m : TransactionManager} (h : Reached m) (c : ManagerCall) : Reached (c.run.run m).2

/-- The active set and the commit log agree, and the xids to come are normal. -/
structure TransactionManager.Consistent (m : TransactionManager) : Prop where
  next : FirstNormalTransactionId ≤ m.nextXid
  active : ∀ x ∈ m.activeXids, FirstNormalTransactionId ≤ x ∧ m.clog.getStatus x = .inProgress
  statuses : ∀ x, m.clog.getStatus x ≠ .subCommitted

namespace TransactionManager.Consistent
variable {m : TransactionManager}

theorem initial : Consistent TransactionManager.initial where
  next := by decide
  active := by
    intro x hx
    simp [TransactionManager.initial] at hx
  statuses := by
    intro x
    simp [TransactionManager.initial, CLog.getStatus, CLog.empty]

/-- Nothing but the context and the conflict sets has changed. -/
theorem congr {m' : TransactionManager} (h : Consistent m) (hnext : m'.nextXid = m.nextXid)
    (hactive : m'.activeXids = m.activeXids) (hclog : m'.clog = m.clog) : Consistent m' := by
  constructor
  · rw [hnext]
    exact h.next
  · rw [hactive, hclog]
    exact h.active
  · rw [hclog]
    exact h.statuses

theorem setContext (h : Consistent m) (c : TransactionContext) : Consistent (m.setContext c) :=
  h.congr rfl rfl rfl

/-- A transaction ends: it leaves the active set with its outcome in the log. -/
theorem finish (h : Consistent m) (xid : TransactionId) {status : TransactionStatus}
    (hs : status ≠ .subCommitted) : Consistent (m.finish xid status) := by
  constructor
  · exact h.next
  · intro x hx
    change x ∈ m.activeXids.erase xid at hx
    change _ ∧ (m.clog.setStatus xid status).getStatus x = _
    rw [Std.ExtTreeSet.mem_erase] at hx
    have hne : xid ≠ x := by
      rintro rfl
      exact hx.1 Std.ReflCmp.compare_self
    rw [CLog.getStatus_setStatus_of_ne _ _ hne]
    exact h.active x hx.2
  · intro x
    change (m.clog.setStatus xid status).getStatus x ≠ _
    rw [CLog.getStatus_setStatus]
    split
    · exact hs
    · exact h.statuses x

theorem abortTransaction (h : Consistent m) : Consistent m.abortTransaction := by
  simp only [TransactionManager.abortTransaction]
  split
  · exact h.finish _ (by decide)
  · exact h.setContext _

/-- The least active xid is below every active one. -/
theorem getOldestActiveXid_le {x : TransactionId} (hx : x ∈ m.activeXids) :
    m.getOldestActiveXid ≤ x := by
  have hmem : x ∈ m.activeXids.toList := Std.ExtTreeSet.mem_toList.mpr hx
  have hsorted := Std.ExtTreeSet.ordered_toList (t := m.activeXids)
  unfold getOldestActiveXid
  cases hl : m.activeXids.toList with
  | nil =>
    rw [hl] at hmem
    cases hmem
  | cons y ys =>
    rw [hl] at hmem hsorted
    change y ≤ x
    rcases List.mem_cons.mp hmem with rfl | hmem
    · exact UInt32.le_refl x
    · have hlt := (List.pairwise_cons.mp hsorted).1 x hmem
      exact UInt32.le_of_lt (Std.compare_eq_lt.mp hlt)

/-- A change of the log that leaves active transactions alone and sets nothing to a fourth
status. -/
theorem setClog (h : Consistent m) {c : CLog} (hc : ∀ x, c.getStatus x = m.clog.getStatus x ∨
    (x ∉ m.activeXids ∧ c.getStatus x = .aborted)) : Consistent { m with clog := c } := by
  constructor
  · exact h.next
  · intro x hx
    obtain ⟨hx3, hin⟩ := h.active x hx
    refine ⟨hx3, ?_⟩
    rcases hc x with hsame | ⟨hnot, -⟩
    · exact hsame.trans hin
    · exact absurd hx hnot
  · intro x
    change c.getStatus x ≠ _
    rcases hc x with hsame | ⟨-, hab⟩
    · rw [hsame]
      exact h.statuses x
    · rw [hab]
      decide

theorem freezeOldXids (h : Consistent m) : Consistent m.freezeOldXids := by
  unfold TransactionManager.freezeOldXids
  apply h.setClog
  refine List.foldlRecOn (motive := fun c : CLog => ∀ x, c.getStatus x = m.clog.getStatus x ∨
    (x ∉ m.activeXids ∧ c.getStatus x = .aborted)) _ _ (fun x => Or.inl rfl) ?_
  intro c hc xid _
  split
  · exact hc
  · split
    · exact hc
    · split
      · rename_i hold _
        intro x
        rw [CLog.getStatus_setStatus]
        split
        · subst x
          exact Or.inr ⟨fun hx => hold (getOldestActiveXid_le hx), rfl⟩
        · exact hc x
      · exact hc

theorem maybeAntiWraparound (h : Consistent m) : Consistent m.maybeAntiWraparound := by
  unfold TransactionManager.maybeAntiWraparound
  split
  · exact h
  · split
    · exact h.freezeOldXids
    · exact h

theorem rebuildActiveFromClog (h : Consistent m) : Consistent m.rebuildActiveFromClog := by
  constructor
  · exact h.next
  · intro x hx
    simp [TransactionManager.rebuildActiveFromClog] at hx
  · refine List.foldlRecOn (motive := fun c : CLog => ∀ x, c.getStatus x ≠ .subCommitted) _ _
      h.statuses ?_
    intro c hc xid _ x
    rw [CLog.getStatus_setStatus]
    split
    · decide
    · exact hc x

theorem cleanupTransactionState (h : Consistent m) (xid : TransactionId) :
    Consistent (m.cleanupTransactionState xid) := h.congr rfl rfl rfl

theorem registerSiread (h : Consistent m) (key : RowKey) : Consistent (m.registerSiread key) := by
  unfold TransactionManager.registerSiread
  split
  · exact h.congr rfl rfl rfl
  · exact h

theorem registerWrite (h : Consistent m) (key : RowKey) : Consistent (m.registerWrite key) := by
  unfold TransactionManager.registerWrite
  split
  · exact h.congr rfl rfl rfl
  · exact h

end TransactionManager.Consistent

/-! ### Calls -/

namespace ManagerCall

theorem keeps_allocateXid : Prog.Keeps Consistent allocateXid := by
  unfold allocateXid
  refine (Prog.Keeps.modify fun m h => h.maybeAntiWraparound).bind fun _ => ?_
  refine Prog.Keeps.get_bind fun m h => ?_
  dsimp only
  split
  · exact h
  · rename_i hstop
    have hlt : m.nextXid.toNat + 1 < 2 ^ 32 := by
      have : XIDEmergencyStop = 2146483648 := rfl
      omega
    have hnext : FirstNormalTransactionId ≤ m.nextXid := h.next
    refine ⟨?_, ?_, ?_⟩
    · change FirstNormalTransactionId ≤ m.nextXid + 1
      rw [UInt32.le_iff_toNat_le] at hnext ⊢
      rw [UInt32.toNat_add]
      have : (1 : UInt32).toNat = 1 := rfl
      omega
    · intro x hx
      change x ∈ m.activeXids.insert m.nextXid at hx
      change _ ∧ (m.clog.setStatus m.nextXid .inProgress).getStatus x = _
      rw [CLog.getStatus_setStatus]
      rw [Std.ExtTreeSet.mem_insert] at hx
      by_cases hxn : m.nextXid = x
      · rw [if_pos hxn]
        exact ⟨hxn ▸ hnext, rfl⟩
      · rw [if_neg hxn]
        refine h.active x (hx.resolve_left fun hc => hxn ?_)
        exact Std.LawfulEqOrd.eq_of_compare hc
    · intro x
      change (m.clog.setStatus m.nextXid .inProgress).getStatus x ≠ _
      rw [CLog.getStatus_setStatus]
      split
      · decide
      · exact h.statuses x

theorem keeps_commitTransaction : Prog.Keeps Consistent TransactionManager.commitTransaction := by
  refine Prog.Keeps.get_bind fun m h => ?_
  dsimp only
  split
  · constructor
    · exact h.next
    · intro x hx
      exact h.active x (Std.ExtTreeSet.mem_of_mem_erase hx)
    · exact h.statuses
  · split
    · exact h
    · exact h.finish _ (by decide)

theorem keeps_commandCounterIncrement :
    Prog.Keeps Consistent TransactionManager.commandCounterIncrement := by
  refine Prog.Keeps.get_bind fun m h => ?_
  split
  · exact h
  · exact h.setContext _

theorem keeps_commitTransactionCommand :
    Prog.Keeps Consistent TransactionManager.commitTransactionCommand := by
  have hcommit := keeps_commitTransaction.bind fun _ =>
    Prog.Keeps.modify (ε := Failure) (f := fun m => m.setBlockState .default)
      fun m (h : Consistent m) => h.setContext _
  refine Prog.Keeps.get_bind fun m h => ?_
  split
  · exact hcommit m h
  · exact hcommit m h
  · exact h.setContext _
  · exact keeps_commandCounterIncrement m h
  · exact h.abortTransaction.setContext _
  · exact h

theorem keeps_run (c : ManagerCall) : Prog.Keeps Consistent c.run := by
  have discard {α : Type} {p : TxnM α} (hp : Prog.Keeps Consistent p) :
      Prog.Keeps Consistent (discard p) := hp.bind fun _ => Prog.Keeps.pure ()
  cases c with
  | startTransactionCommand =>
    refine Prog.Keeps.modify fun m h => ?_
    unfold TransactionManager.startTransactionCommand
    split
    · exact h.setContext _
    · exact h
  | commitTransactionCommand => exact keeps_commitTransactionCommand
  | beginTransactionBlock =>
    refine Prog.Keeps.get_bind fun m h => ?_
    split
    · exact h.setContext _
    · exact h.setContext _
    · exact h
  | commitTransaction => exact keeps_commitTransaction
  | abortTransaction => exact Prog.Keeps.modify fun m h => h.abortTransaction
  | setIsolationLevel level => exact Prog.Keeps.modify fun m h => h.setContext _
  | assignXid =>
    refine discard (Prog.Keeps.get.bind fun m => Prog.Keeps.ite (fun _ => ?_) fun _ =>
      Prog.Keeps.pure _)
    exact keeps_allocateXid.bind fun xid =>
      (Prog.Keeps.modify fun m h => h.setContext _).bind fun _ => Prog.Keeps.pure _
  | setNextXid xid => exact Prog.Keeps.modify fun m h => ⟨xid.2, h.active, h.statuses⟩
  | freezeOldXids => exact Prog.Keeps.modify fun m h => h.freezeOldXids
  | maybeAntiWraparound => exact Prog.Keeps.modify fun m h => h.maybeAntiWraparound
  | commandCounterIncrement => exact keeps_commandCounterIncrement
  | getTransactionSnapshot =>
    refine discard (Prog.Keeps.get_bind fun m h => ?_)
    split
    · exact h
    · exact h.setContext _
  | addUndoRecord r => exact Prog.Keeps.modify fun m h => h.setContext _
  | savepoint name => exact Prog.Keeps.modify fun m h => h.setContext _
  | rollbackToSavepoint name =>
    refine discard (Prog.Keeps.get_bind fun m h => ?_)
    split
    · exact h
    · exact h.setContext _
  | releaseSavepoint name =>
    refine Prog.Keeps.get_bind fun m h => ?_
    split
    · exact h
    · exact h.setContext _
  | registerSiread key => exact Prog.Keeps.modify fun m h => h.registerSiread key
  | registerWrite key => exact Prog.Keeps.modify fun m h => h.registerWrite key
  | cleanupTransactionState xid => exact Prog.Keeps.modify fun m h => h.cleanupTransactionState xid
  | rebuildActiveFromClog => exact Prog.Keeps.modify fun m h => h.rebuildActiveFromClog
  | resetContext => exact Prog.Keeps.modify fun m h => h.setContext _

end ManagerCall

theorem TransactionManager.Reached.consistent {m : TransactionManager} (h : Reached m) :
    Consistent m := by
  induction h with
  | initial => exact Consistent.initial
  | call _ c ih => exact (ManagerCall.keeps_run c).final ih

/-! ### Visibility -/

/-- The row was written by the reader, in this command or before. -/
def InsertedBy (row : Row) (xid : TransactionId) (cid : Int32) : Prop :=
  xidField row (str "_xmin") = xid ∧ xid ≠ InvalidTransactionId ∧
    ∀ v, row[str "_cid"]? = some (.int v) → v.toInt ≤ cid.toInt

/-- The command id of the row is one that a transaction can reach. -/
def CommandBounded (row : Row) : Prop :=
  ∀ v, row[str "_cid"]? = some (.int v) → 0 ≤ v.toInt ∧ v.toInt < 2 ^ 31

theorem laterCommand_iff {row : Row} (h : CommandBounded row) (cid : Int32) :
    (cidField row).any (cid < ·) = true ↔
      ∃ v, row[str "_cid"]? = some (.int v) ∧ cid.toInt < v.toInt := by
  unfold cidField
  cases hrow : row[str "_cid"]? with
  | none => simp
  | some val =>
    cases val with
    | int v =>
      obtain ⟨hlo, hhi⟩ := h v hrow
      have hv : v.toInt32.toInt = v.toInt := by
        rw [Int64.toInt_toInt32]
        exact Int.bmod_eq_of_le_mul_two (by omega) (by omega)
      simp [Int32.lt_iff_toInt_lt, hv]
    | _ => simp

/-- The deleter's part of the answer. -/
def NotDeleted (xid xmax : TransactionId) (c : CLog) : Prop :=
  xmax = InvalidTransactionId ∨ (xmax ≠ xid ∧ c.getStatus xmax ≠ .committed)

theorem notDeleted_iff (xid xmax : TransactionId) (c : CLog) :
    (if xmax = InvalidTransactionId then true
      else if xmax = xid ∧ xid ≠ InvalidTransactionId then false
      else decide (c.getStatus xmax ≠ .committed)) = true ↔ NotDeleted xid xmax c := by
  unfold NotDeleted
  by_cases h0 : xmax = InvalidTransactionId
  · simp [h0]
  · by_cases hx : xmax = xid
    · subst hx
      simp [h0]
    · simp [h0, hx]

/-- A snapshot taken now, read by nobody or by an active transaction: a row is seen when it has no
inserter, when the reader wrote and did not delete it, or when its inserter has committed and its
deleter is neither the reader nor committed. -/
theorem visible_iff {m : TransactionManager} (h : Reached m) {xid : TransactionId}
    (hxid : xid = InvalidTransactionId ∨ xid ∈ m.activeXids) {row : Row}
    (hcid : CommandBounded row) (cid : Int32) :
    checkTupleVisibility row xid m.getSnapshot cid m.clog = true ↔
      xidField row (str "_xmin") = InvalidTransactionId ∨
      (InsertedBy row xid cid ∧ xidField row (str "_xmax") ≠ xid) ∨
      ((xidField row (str "_xmin") = FrozenTransactionId ∨
          m.clog.getStatus (xidField row (str "_xmin")) = .committed) ∧
        NotDeleted xid (xidField row (str "_xmax")) m.clog) := by
  have hc := h.consistent
  have hlater := laterCommand_iff hcid cid
  simp only [checkTupleVisibility]
  by_cases h0 : xidField row (str "_xmin") = InvalidTransactionId
  · simp only [h0, if_true, true_or]
  rw [if_neg h0]
  by_cases hown : xidField row (str "_xmin") = xid ∧ xid ≠ InvalidTransactionId
  · obtain ⟨hx, hne⟩ := hown
    obtain ⟨hnormal, hprogress⟩ := hc.active xid (hxid.resolve_left hne)
    have hfrozen : xid ≠ FrozenTransactionId := by
      rintro rfl
      exact absurd hnormal (by decide)
    have hcommand : InsertedBy row xid cid ↔ ¬ (cidField row).any (cid < ·) = true := by
      rw [hlater, InsertedBy]
      push Not
      exact ⟨fun hi => hi.2.2, fun hi => ⟨hx, hne, hi⟩⟩
    rw [hx, if_neg hfrozen, if_pos ⟨rfl, hne⟩, hprogress, hcommand]
    by_cases hl : (cidField row).any (cid < ·) = true
    · simp [hl, hne, hfrozen]
    · simp [hl, hne, hfrozen]
  · have hnot : ¬ InsertedBy row xid cid := fun hi => hown ⟨hi.1, hi.2.1⟩
    by_cases hf : xidField row (str "_xmin") = FrozenTransactionId
    · rw [if_pos hf, notDeleted_iff]
      constructor
      · exact fun hd => Or.inr (Or.inr ⟨Or.inl hf, hd⟩)
      · rintro (hi | hi | hi)
        · exact absurd hi h0
        · exact absurd hi.1 hnot
        · exact hi.2
    · rw [if_neg hf, if_neg hown]
      cases hs : m.clog.getStatus (xidField row (str "_xmin")) with
      | aborted => simp [h0, hf, hnot]
      | inProgress => simp [h0, hf, hnot]
      | subCommitted => exact absurd hs (hc.statuses _)
      | committed =>
        have hxip : ¬ xidField row (str "_xmin") ∈ m.getSnapshot.xip := by
          intro hmem
          have := (hc.active _ (Std.ExtTreeSet.mem_toList.mp hmem)).2
          rw [hs] at this
          cases this
        rw [if_neg (by decide), if_neg (by decide), if_neg (fun hi => hxip hi.2.2),
          notDeleted_iff]
        simp [h0, hf, hnot]

/-- A manager whose first transaction is running. -/
def oneActive : TransactionManager := (ManagerCall.assignXid.run.run TransactionManager.initial).2

/-- The row that this transaction has written. -/
def ownRow : Row :=
  (((∅ : Row).insert (str "_xmin") (.int 3)).insert (str "_xmax") (.int 0)).insert
    (str "_cid") (.int 0)

theorem own_row_visible :
    checkTupleVisibility ownRow 3 oneActive.getSnapshot 0 oneActive.clog = true := by
  have hcid : ∀ v, ownRow[str "_cid"]? = some (.int v) → v = 0 := by
    intro v hv
    have h0 : ownRow[str "_cid"]? = some (.int 0) := by decide +kernel
    rw [h0] at hv
    cases hv
    rfl
  have hinserted : InsertedBy ownRow 3 0 := by
    refine ⟨by decide +kernel, by decide, fun v hv => ?_⟩
    rw [hcid v hv]
    decide
  have hbounded : CommandBounded ownRow := by
    intro v hv
    rw [hcid v hv]
    decide
  exact (visible_iff (.call .initial .assignXid) (Or.inr (by decide +kernel)) hbounded 0).mpr
    (Or.inr (Or.inl ⟨hinserted, by decide +kernel⟩))

end JiaMiaoDB
