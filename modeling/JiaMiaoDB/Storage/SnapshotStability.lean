import JiaMiaoDB.Storage.Transaction

/-! When does a snapshot fix what is seen of a row? The inserter is checked against the snapshot's
list of active transactions, the deleter only against the commit log, so a row is fixed when the
log entries that `checkTupleVisibility` reads were final at the time of the snapshot. -/

set_option autoImplicit false

namespace JiaMiaoDB

/-- The fate of `x` was open when `snap` was taken, and `x` is not the reader. -/
def Undecided (snap : Snapshot) (xid x : TransactionId) : Prop :=
  (x ∈ snap.xip ∨ snap.xmax ≤ x) ∧ x ≠ xid

/-- Two commit logs that may differ only on what happened after the snapshot. -/
def AgreeBefore (snap : Snapshot) (xid : TransactionId) (c c' : CLog) : Prop :=
  ∀ x, ¬ Undecided snap xid x → c.getStatus x = c'.getStatus x

def SnapshotStable (row : Row) (snap : Snapshot) (xid : TransactionId) (cid : Int32) : Prop :=
  ∀ c c', AgreeBefore snap xid c c' →
    checkTupleVisibility row xid snap cid c = checkTupleVisibility row xid snap cid c'

/-- The reader's own id. -/
def Own (xid x : TransactionId) : Prop := x = xid ∧ xid ≠ InvalidTransactionId

/-- The inserter is in the snapshot's list, inside its bounds. -/
def ActiveInSnapshot (snap : Snapshot) (x : TransactionId) : Prop :=
  snap.xmin ≤ x ∧ x < snap.xmax ∧ x ∈ snap.xip

/-- No log entry that the snapshot leaves open is consulted for this row. -/
def SnapshotDecides (row : Row) (snap : Snapshot) (xid : TransactionId) : Prop :=
  let xmin := xidField row (str "_xmin")
  let xmax := xidField row (str "_xmax")
  xmin = InvalidTransactionId ∨ Own xid xmax ∨
    (xmin ≠ FrozenTransactionId ∧ (Own xid xmin ∨ ActiveInSnapshot snap xmin)) ∨
    ((xmin = FrozenTransactionId ∨ ¬ Undecided snap xid xmin) ∧
      (xmax = InvalidTransactionId ∨ ¬ Undecided snap xid xmax))

/-- The deleter's part of the answer: the row survives it. -/
def survives (xid xmax : TransactionId) (c : CLog) : Bool :=
  if xmax = InvalidTransactionId then true
  else if xmax = xid ∧ xid ≠ InvalidTransactionId then false
  else c.getStatus xmax ≠ .committed

/-- The inserter's part of the answer, for an inserter that is neither frozen nor the reader. -/
def inserted (snap : Snapshot) (xmin : TransactionId) (c : CLog) : Bool :=
  c.getStatus xmin ≠ .aborted ∧ c.getStatus xmin ≠ .inProgress ∧
    ¬ (snap.xmin ≤ xmin ∧ xmin < snap.xmax ∧ xmin ∈ snap.xip)

section
variable {row : Row} {snap : Snapshot} {xid : TransactionId} {cid : Int32}

theorem visible_of_no_xmin (c : CLog) (h : xidField row (str "_xmin") = InvalidTransactionId) :
    checkTupleVisibility row xid snap cid c = true := by
  simp [checkTupleVisibility, h]

theorem visible_frozen (c : CLog) (h : xidField row (str "_xmin") = FrozenTransactionId) :
    checkTupleVisibility row xid snap cid c = survives xid (xidField row (str "_xmax")) c := by
  simp only [checkTupleVisibility, h, survives]
  rfl

/-- The log is not read for a row the reader inserted. -/
theorem visible_own (c c' : CLog) (h : Own xid (xidField row (str "_xmin")))
    (hf : xidField row (str "_xmin") ≠ FrozenTransactionId) :
    checkTupleVisibility row xid snap cid c = checkTupleVisibility row xid snap cid c' := by
  obtain ⟨hx, h0⟩ := h
  simp only [checkTupleVisibility, hx, h0, hx ▸ hf, if_false, ne_eq, not_false_eq_true, and_self,
    if_true]

theorem visible_other (c : CLog) (h0 : xidField row (str "_xmin") ≠ InvalidTransactionId)
    (hf : xidField row (str "_xmin") ≠ FrozenTransactionId)
    (ho : ¬ Own xid (xidField row (str "_xmin"))) :
    checkTupleVisibility row xid snap cid c =
      (inserted snap (xidField row (str "_xmin")) c &&
        survives xid (xidField row (str "_xmax")) c) := by
  have ho' : ¬ (xidField row (str "_xmin") = xid ∧ xid ≠ InvalidTransactionId) := ho
  simp only [checkTupleVisibility, h0, hf, ho', if_false, inserted, survives]
  by_cases ha : c.getStatus (xidField row (str "_xmin")) = .aborted
  · simp [ha]
  · by_cases hp : c.getStatus (xidField row (str "_xmin")) = .inProgress
    · simp [hp]
    · simp only [ha, hp, if_false, ne_eq, not_false_eq_true, true_and]
      by_cases hw : snap.xmin ≤ xidField row (str "_xmin") ∧
          xidField row (str "_xmin") < snap.xmax ∧ xidField row (str "_xmin") ∈ snap.xip
      · simp [hw]
      · simp [hw]

theorem survives_own (c : CLog) {xmax : TransactionId} (h : Own xid xmax) :
    survives xid xmax c = false := by
  obtain ⟨rfl, h0⟩ := h
  simp [survives, h0]

theorem survives_agree {c c' : CLog} {xmax : TransactionId} (hc : AgreeBefore snap xid c c')
    (h : xmax = InvalidTransactionId ∨ ¬ Undecided snap xid xmax) :
    survives xid xmax c = survives xid xmax c' := by
  unfold survives
  split
  · rfl
  · rw [hc xmax (h.resolve_left ‹_›)]

theorem inserted_agree {c c' : CLog} {xmin : TransactionId} (hc : AgreeBefore snap xid c c')
    (h : ¬ Undecided snap xid xmin) : inserted snap xmin c = inserted snap xmin c' := by
  unfold inserted
  rw [hc xmin h]

theorem inserted_active (c : CLog) {xmin : TransactionId} (h : ActiveInSnapshot snap xmin) :
    inserted snap xmin c = false := by
  have : snap.xmin ≤ xmin ∧ xmin < snap.xmax ∧ xmin ∈ snap.xip := h
  simp [inserted, this]

theorem stable_of_decides (h : SnapshotDecides row snap xid) : SnapshotStable row snap xid cid := by
  intro c c' hc
  by_cases h0 : xidField row (str "_xmin") = InvalidTransactionId
  · rw [visible_of_no_xmin c h0, visible_of_no_xmin c' h0]
  by_cases hf : xidField row (str "_xmin") = FrozenTransactionId
  · rw [visible_frozen c hf, visible_frozen c' hf]
    rcases h with h | h | h | h
    · exact absurd h h0
    · rw [survives_own c h, survives_own c' h]
    · exact absurd hf h.1
    · exact survives_agree hc h.2
  by_cases ho : Own xid (xidField row (str "_xmin"))
  · exact visible_own c c' ho hf
  rw [visible_other c h0 hf ho, visible_other c' h0 hf ho]
  rcases h with h | h | h | h
  · exact absurd h h0
  · rw [survives_own c h, survives_own c' h, Bool.and_false, Bool.and_false]
  · have ha := h.2.resolve_left ho
    rw [inserted_active c ha, inserted_active c' ha, Bool.false_and, Bool.false_and]
  · rw [inserted_agree hc (h.1.resolve_left hf), survives_agree hc h.2]

/-- Two logs that differ in one open transaction agree before the snapshot. -/
theorem agreeBefore_setStatus (c : CLog) {x : TransactionId} (hx : Undecided snap xid x)
    (a b : TransactionStatus) : AgreeBefore snap xid (c.setStatus x a) (c.setStatus x b) := by
  intro y hy
  have hne : x ≠ y := fun heq => hy (heq ▸ hx)
  rw [CLog.getStatus_setStatus_of_ne c a hne, CLog.getStatus_setStatus_of_ne c b hne]

theorem survives_undecided_ne {xmax : TransactionId} (c : CLog)
    (h0 : xmax ≠ InvalidTransactionId) (ho : ¬ Own xid xmax) :
    survives xid xmax (c.setStatus xmax .committed) = false ∧
      survives xid xmax (c.setStatus xmax .aborted) = true := by
  have ho' : ¬ (xmax = xid ∧ xid ≠ InvalidTransactionId) := ho
  simp only [survives, h0, ho', if_false, CLog.getStatus_setStatus_self]
  decide

theorem inserted_committed {xmin : TransactionId} (c : CLog) (ha : ¬ ActiveInSnapshot snap xmin)
    (h : c.getStatus xmin = .committed ∨ c.getStatus xmin = .subCommitted) :
    inserted snap xmin c = true := by
  have ha' : ¬ (snap.xmin ≤ xmin ∧ xmin < snap.xmax ∧ xmin ∈ snap.xip) := ha
  simp only [inserted, ha']
  rcases h with h | h <;> simp [h]

theorem inserted_aborted {xmin : TransactionId} (c : CLog) :
    inserted snap xmin (c.setStatus xmin .aborted) = false := by
  simp [inserted]

/-- An open deleter changes the answer for a row whose inserter counts. -/
theorem xmax_decided_of_stable (h : SnapshotStable row snap xid cid)
    (h0 : xidField row (str "_xmin") ≠ InvalidTransactionId)
    (hown : ¬ Own xid (xidField row (str "_xmax")))
    (hmin : xidField row (str "_xmin") = FrozenTransactionId ∨
      ¬ Own xid (xidField row (str "_xmin")) ∧ ¬ ActiveInSnapshot snap (xidField row (str "_xmin")) ∧
        ¬ Undecided snap xid (xidField row (str "_xmin"))) :
    xidField row (str "_xmax") = InvalidTransactionId ∨
      ¬ Undecided snap xid (xidField row (str "_xmax")) := by
  by_contra hcon
  obtain ⟨hmax0, hopen⟩ := not_or.1 hcon
  have hopen := not_not.1 hopen
  generalize hxmax : xidField row (str "_xmax") = xmax at *
  generalize hxmin : xidField row (str "_xmin") = xmin at *
  let c := CLog.empty.setStatus xmin .committed
  have hflip := survives_undecided_ne c hmax0 hown
  have heq := h _ _ (agreeBefore_setStatus c hopen .committed .aborted)
  by_cases hf : xmin = FrozenTransactionId
  · rw [visible_frozen _ (hxmin.trans hf), visible_frozen _ (hxmin.trans hf), hxmax, hflip.1,
      hflip.2] at heq
    exact absurd heq (by decide)
  · obtain ⟨ho, ha, hd⟩ := hmin.resolve_left hf
    have hne : xmax ≠ xmin := fun e => hd (e ▸ hopen)
    have hc (s : TransactionStatus) : inserted snap xmin (c.setStatus xmax s) = true := by
      refine inserted_committed _ ha (.inl ?_)
      rw [CLog.getStatus_setStatus_of_ne c s hne, CLog.getStatus_setStatus_self]
    rw [visible_other _ (hxmin ▸ h0) (hxmin ▸ hf) (hxmin ▸ ho),
      visible_other _ (hxmin ▸ h0) (hxmin ▸ hf) (hxmin ▸ ho), hxmin, hxmax, hc, hc, hflip.1,
      hflip.2] at heq
    exact absurd heq (by decide)

/-- An open inserter outside the snapshot's list changes the answer, unless the reader deleted the
row itself. -/
theorem xmin_decided_of_stable (h : SnapshotStable row snap xid cid)
    (h0 : xidField row (str "_xmin") ≠ InvalidTransactionId)
    (hf : xidField row (str "_xmin") ≠ FrozenTransactionId)
    (ho : ¬ Own xid (xidField row (str "_xmin")))
    (hown : ¬ Own xid (xidField row (str "_xmax")))
    (ha : ¬ ActiveInSnapshot snap (xidField row (str "_xmin"))) :
    ¬ Undecided snap xid (xidField row (str "_xmin")) := by
  intro hopen
  generalize hxmax : xidField row (str "_xmax") = xmax at *
  generalize hxmin : xidField row (str "_xmin") = xmin at *
  -- The second state has to differ from `committed` for a row whose deleter is its inserter.
  have heq := h _ _ (agreeBefore_setStatus CLog.empty hopen .subCommitted .aborted)
  have hin : inserted snap xmin (CLog.empty.setStatus xmin .subCommitted) = true :=
    inserted_committed _ ha (.inr (CLog.getStatus_setStatus_self _ _ _))
  have hs : survives xid xmax (CLog.empty.setStatus xmin .subCommitted) = true := by
    have hown' : ¬ (xmax = xid ∧ xid ≠ InvalidTransactionId) := hown
    simp only [survives, hown', if_false, CLog.getStatus_setStatus]
    split
    · rfl
    · split <;> simp [CLog.getStatus, CLog.empty]
  rw [visible_other _ (hxmin ▸ h0) (hxmin ▸ hf) (hxmin ▸ ho),
    visible_other _ (hxmin ▸ h0) (hxmin ▸ hf) (hxmin ▸ ho), hxmin, hxmax, hin, hs,
    inserted_aborted, Bool.false_and] at heq
  exact absurd heq (by decide)

end

theorem snapshot_stable_iff (row : Row) (snap : Snapshot) (xid : TransactionId) (cid : Int32) :
    SnapshotStable row snap xid cid ↔ SnapshotDecides row snap xid := by
  refine ⟨fun h => ?_, stable_of_decides⟩
  by_cases h0 : xidField row (str "_xmin") = InvalidTransactionId
  · exact .inl h0
  by_cases hown : Own xid (xidField row (str "_xmax"))
  · exact .inr (.inl hown)
  by_cases hf : xidField row (str "_xmin") = FrozenTransactionId
  · exact .inr (.inr (.inr ⟨.inl hf, xmax_decided_of_stable h h0 hown (.inl hf)⟩))
  by_cases ho : Own xid (xidField row (str "_xmin"))
  · exact .inr (.inr (.inl ⟨hf, .inl ho⟩))
  by_cases ha : ActiveInSnapshot snap (xidField row (str "_xmin"))
  · exact .inr (.inr (.inl ⟨hf, .inr ha⟩))
  have hd := xmin_decided_of_stable h h0 hf ho hown ha
  exact .inr (.inr (.inr ⟨.inr hd, xmax_decided_of_stable h h0 hown (.inr ⟨ho, ha, hd⟩)⟩))

/-- Transaction 5 is in progress when the snapshot is taken; its later commit hides the row that it
deleted. -/
theorem deleter_commit_changes_snapshot :
    ¬ ∀ row snap xid cid, SnapshotStable row snap xid cid := by
  intro h
  let row : Row := Std.ExtTreeMap.ofList [(str "_xmin", Value.int 3), (str "_xmax", Value.int 5)]
  let snap : Snapshot := ⟨5, 6, [5], 0⟩
  let c := CLog.empty.setStatus 3 .committed
  have hopen : Undecided snap 0 5 := ⟨.inl (by decide), by decide⟩
  have := h row snap 0 0 _ _ (agreeBefore_setStatus c hopen .inProgress .committed)
  revert this
  decide +kernel

end JiaMiaoDB
