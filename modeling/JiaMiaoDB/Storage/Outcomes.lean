import JiaMiaoDB.Storage.ManagerInvariants

/-!
# Outcomes

The outcome of a transaction is final, the oldest active id never moves back, and what fresh snapshots
see of a stored version changes at most twice: when its insertion commits and when its deletion does.
-/

set_option autoImplicit false

namespace JiaMiaoDB
namespace TransactionManager

/-- Every id handed out is active or has an outcome, and no other id has one. -/
structure Accounted (m : TransactionManager) : Prop extends Tracked m where
  past : ∀ x, FirstNormalTransactionId ≤ x → x < m.nextXid → x ∉ m.activeXids →
    m.clog.getStatus x = .committed ∨ m.clog.getStatus x = .aborted
  future : ∀ x, x < FirstNormalTransactionId ∨ m.nextXid ≤ x → m.clog.getStatus x = .inProgress

namespace Accounted
variable {m : TransactionManager}

theorem initial : Accounted TransactionManager.initial where
  toTracked := .initial
  past x hnormal hnext _ := absurd hnormal (UInt32.not_le.mpr hnext)
  future x _ := by simp [TransactionManager.initial, CLog.getStatus, CLog.empty]

/-- Nothing but the context and the conflict sets has changed. -/
theorem congr {m' : TransactionManager} (h : Accounted m) (ht : Tracked m')
    (hnext : m'.nextXid = m.nextXid) (hactive : m'.activeXids = m.activeXids)
    (hclog : m'.clog = m.clog) : Accounted m' where
  toTracked := ht
  past := by
    rw [hnext, hactive, hclog]
    exact h.past
  future := by
    rw [hnext, hclog]
    exact h.future

theorem oldest_cases (m : TransactionManager) :
    m.getOldestActiveXid ∈ m.activeXids ∨
      m.getOldestActiveXid = m.nextXid ∧ ∀ x, x ∉ m.activeXids := by
  unfold getOldestActiveXid
  cases hl : m.activeXids.toList with
  | nil =>
    refine .inr ⟨rfl, fun x hx => ?_⟩
    rw [← Std.ExtTreeSet.mem_toList, hl] at hx
    cases hx
  | cons y ys =>
    left
    rw [← Std.ExtTreeSet.mem_toList, hl]
    exact List.mem_cons_self

theorem oldest_le (h : Tracked m) : m.getOldestActiveXid ≤ m.nextXid := by
  rcases oldest_cases m with hmem | ⟨heq, -⟩
  · exact UInt32.le_of_lt (h.active _ hmem).2.1
  · rw [heq]
    exact UInt32.le_refl _

/-- There is nothing to give up: an id below the oldest active one has an outcome. -/
theorem giveUp_getStatus (h : Accounted m) {c : CLog} (hc : m.GivesUp c) (x : TransactionId) :
    c.getStatus x = m.clog.getStatus x := by
  rcases hc x with hsame | ⟨hnormal, hold, hopen, -⟩
  · exact hsame
  · have hnext := UInt32.lt_of_lt_of_le hold (oldest_le h.toTracked)
    have hactive : x ∉ m.activeXids := fun hx =>
      absurd (Consistent.getOldestActiveXid_le hx) (UInt32.not_le.mpr hold)
    rcases h.past x hnormal hnext hactive with houtcome | houtcome
    · rw [houtcome] at hopen
      cases hopen
    · rw [houtcome] at hopen
      cases hopen

theorem setClog (h : Accounted m) (c : CLog) (hc : m.GivesUp c) :
    Accounted { m with clog := c } where
  toTracked := h.toTracked.setClog c hc
  past x hnormal hnext hx := by
    change c.getStatus x = _ ∨ c.getStatus x = _
    rw [h.giveUp_getStatus hc]
    exact h.past x hnormal hnext hx
  future x hx := by
    change c.getStatus x = _
    rw [h.giveUp_getStatus hc]
    exact h.future x hx

theorem assign (h : Accounted m) (c : CLog) (hc : m.GivesUp c)
    (hstop : m.nextXid.toNat < XIDEmergencyStop) : Accounted (m.assign c) where
  toTracked := h.toTracked.assign c hc hstop
  past x hnormal hnext hx := by
    have hx : x ∉ m.activeXids.insert m.nextXid := hx
    rw [Std.ExtTreeSet.mem_insert, not_or] at hx
    have hne : m.nextXid ≠ x := fun heq => hx.1 (Std.compare_eq_iff_eq.mpr heq)
    have hold : x < m.nextXid := by
      have hnext : x < m.nextXid + 1 := hnext
      have hone : (1 : UInt32).toNat = 1 := rfl
      have hlimit : XIDEmergencyStop = 2146483648 := rfl
      have hne' : m.nextXid.toNat ≠ x.toNat := fun heq => hne (UInt32.toNat_inj.mp heq)
      rw [UInt32.lt_iff_toNat_lt, UInt32.toNat_add] at hnext
      rw [UInt32.lt_iff_toNat_lt]
      omega
    change (c.setStatus m.nextXid .inProgress).getStatus x = .committed ∨
      (c.setStatus m.nextXid .inProgress).getStatus x = .aborted
    rw [CLog.getStatus_setStatus_of_ne c _ hne, h.giveUp_getStatus hc]
    exact h.past x hnormal hold hx.2
  future x hx := by
    change (c.setStatus m.nextXid .inProgress).getStatus x = _
    rw [CLog.getStatus_setStatus]
    split
    · rfl
    · rw [h.giveUp_getStatus hc]
      apply h.future
      rcases hx with hx | hx
      · exact .inl hx
      · exact .inr (UInt32.le_trans (UInt32.le_of_lt (lt_nextXid_succ hstop)) hx)

theorem finish (h : Accounted m) {status : TransactionStatus}
    (hstatus : status = .committed ∨ status = .aborted)
    (hxid : m.context.xid ≠ InvalidTransactionId) : Accounted (m.finish m.context.xid status) where
  toTracked := h.toTracked.finish _ status
  past x hnormal hnext hx := by
    have hx : x ∉ m.activeXids.erase m.context.xid := hx
    change (m.clog.setStatus m.context.xid status).getStatus x = .committed ∨
      (m.clog.setStatus m.context.xid status).getStatus x = .aborted
    rw [CLog.getStatus_setStatus]
    split
    · exact hstatus
    · next hne =>
      apply h.past x hnormal hnext
      intro hmem
      exact hx (Std.ExtTreeSet.mem_erase.mpr
        ⟨fun heq => hne (Std.LawfulEqCmp.eq_of_compare heq), hmem⟩)
  future x hx := by
    have hactive := h.active _ (h.current hxid)
    have hne : m.context.xid ≠ x := by
      rintro rfl
      rcases hx with hx | hx
      · exact absurd hactive.1 (UInt32.not_le.mpr hx)
      · exact absurd hactive.2.1 (UInt32.not_lt.mpr hx)
    change (m.clog.setStatus m.context.xid status).getStatus x = _
    rw [CLog.getStatus_setStatus_of_ne _ _ hne]
    exact h.future x hx

theorem closed : Closed Accounted where
  context h c hc := h.congr (h.toTracked.setContext c hc) rfl rfl rfl
  giveUp h c hc := h.setClog c hc
  assign h c hc hstop _ := h.assign c hc hstop
  finish h status hstatus hxid := h.finish hstatus hxid
  finishEmpty {m} h := by
    have ht := h.toTracked.erase_invalid
    refine ⟨ht, fun x hnormal hnext hx => ?_, h.future⟩
    apply h.past x hnormal hnext
    intro hmem
    refine hx (Std.ExtTreeSet.mem_erase.mpr ⟨fun heq => ?_, hmem⟩)
    exact h.toTracked.ne_of_active hmem (Std.LawfulEqCmp.eq_of_compare heq).symm
  read {m} h key := by
    obtain ⟨hnext, hactive, hclog, -, -⟩ := m.frame_registerSiread key
    exact h.congr (h.toTracked.registerSiread key) hnext hactive hclog
  write {m} h key := by
    obtain ⟨hnext, hactive, hclog, -, -⟩ := m.frame_registerWrite key
    exact h.congr (h.toTracked.registerWrite key) hnext hactive hclog
  cleanup h xid := h.congr (h.toTracked.cleanup xid) rfl rfl rfl

end Accounted

/-! ### Earlier and later states -/

/-- What a later state keeps of an earlier one. -/
structure Onward (m m' : TransactionManager) : Prop where
  next : m.nextXid ≤ m'.nextXid
  outcome : ∀ x, m.clog.getStatus x ≠ .inProgress → m'.clog.getStatus x = m.clog.getStatus x
  active : ∀ x ∈ m'.activeXids, x < m.nextXid → x ∈ m.activeXids

namespace Onward
variable {m m' : TransactionManager}

theorem refl (m : TransactionManager) : Onward m m := ⟨UInt32.le_refl _, fun _ _ => rfl, fun _ hx _ => hx⟩

theorem congr {m₂ : TransactionManager} (h : Onward m m') (hnext : m₂.nextXid = m'.nextXid)
    (hactive : m₂.activeXids = m'.activeXids) (hclog : m₂.clog = m'.clog) : Onward m m₂ where
  next := by
    rw [hnext]
    exact h.next
  outcome := by
    rw [hclog]
    exact h.outcome
  active := by
    rw [hactive]
    exact h.active

/-- Each change that the calls are made of goes to a later state. -/
theorem closed (hm : Accounted m) : Closed fun m' => Accounted m' ∧ Onward m m' where
  context h c hc := ⟨Accounted.closed.context h.1 c hc, h.2.congr rfl rfl rfl⟩
  giveUp h c hc := by
    refine ⟨Accounted.closed.giveUp h.1 c hc, h.2.next, fun x hx => ?_, h.2.active⟩
    change c.getStatus x = _
    rw [h.1.giveUp_getStatus hc]
    exact h.2.outcome x hx
  assign {m'} h c hc hstop hxid := by
    refine ⟨Accounted.closed.assign h.1 c hc hstop hxid, ?_, fun x hx => ?_, fun x hx hlt => ?_⟩
    · exact UInt32.le_trans h.2.next (UInt32.le_of_lt (lt_nextXid_succ hstop))
    · have hne : m'.nextXid ≠ x := by
        rintro rfl
        exact hx (hm.future _ (.inr h.2.next))
      change (c.setStatus m'.nextXid .inProgress).getStatus x = _
      rw [CLog.getStatus_setStatus_of_ne c _ hne, h.1.giveUp_getStatus hc]
      exact h.2.outcome x hx
    · rcases Std.ExtTreeSet.mem_insert.mp hx with heq | hx
      · obtain rfl := Std.LawfulEqCmp.eq_of_compare heq
        exact absurd h.2.next (UInt32.not_le.mpr hlt)
      · exact h.2.active x hx hlt
  finish {m'} h status hstatus hxid := by
    refine ⟨Accounted.closed.finish h.1 status hstatus hxid, h.2.next, fun x hx => ?_, fun x hx hlt => ?_⟩
    · have hne : m'.context.xid ≠ x := by
        rintro rfl
        have hopen := (h.1.active _ (h.1.current hxid)).2.2
        rw [h.2.outcome _ hx] at hopen
        exact hx hopen
      change (m'.clog.setStatus m'.context.xid status).getStatus x = _
      rw [CLog.getStatus_setStatus_of_ne _ _ hne]
      exact h.2.outcome x hx
    · exact h.2.active x (Std.ExtTreeSet.mem_erase.mp hx).2 hlt
  finishEmpty h := by
    refine ⟨Accounted.closed.finishEmpty h.1, h.2.next, h.2.outcome, fun x hx hlt => ?_⟩
    exact h.2.active x (Std.ExtTreeSet.mem_erase.mp hx).2 hlt
  read {m'} h key := by
    obtain ⟨hnext, hactive, hclog, -, -⟩ := m'.frame_registerSiread key
    exact ⟨Accounted.closed.read h.1 key, h.2.congr hnext hactive hclog⟩
  write {m'} h key := by
    obtain ⟨hnext, hactive, hclog, -, -⟩ := m'.frame_registerWrite key
    exact ⟨Accounted.closed.write h.1 key, h.2.congr hnext hactive hclog⟩
  cleanup h xid := ⟨Accounted.closed.cleanup h.1 xid, h.2.congr rfl rfl rfl⟩

/-- The oldest active id never moves back. -/
theorem oldest_le (h : Onward m m') (hm : Accounted m) :
    m.getOldestActiveXid ≤ m'.getOldestActiveXid := by
  rcases Accounted.oldest_cases m' with hmem | ⟨heq, -⟩
  · by_cases hlt : m'.getOldestActiveXid < m.nextXid
    · exact Consistent.getOldestActiveXid_le (h.active _ hmem hlt)
    · exact UInt32.le_trans (Accounted.oldest_le hm.toTracked) (UInt32.not_lt.mp hlt)
  · rw [heq]
    exact UInt32.le_trans (Accounted.oldest_le hm.toTracked) h.next

end Onward

/-! ### Fresh snapshots -/

/-- So is its deletion. A version without an inserter cannot be deleted. -/
def Gone (m : TransactionManager) (row : Row) : Prop :=
  xidField row (str "_xmin") ≠ InvalidTransactionId ∧
    m.clog.getStatus (xidField row (str "_xmax")) = .committed

/-- What a reader outside any transaction sees now. -/
def Fresh (m : TransactionManager) (row : Row) (cid : Int32) : Prop :=
  checkTupleVisibility row InvalidTransactionId m.getSnapshot cid m.clog = true

theorem Onward.gone {m m' : TransactionManager} (h : Onward m m') {row : Row} (hrow : m.Gone row) :
    m'.Gone row := by
  refine ⟨hrow.1, ?_⟩
  rw [h.outcome _ (by rw [hrow.2]; decide)]
  exact hrow.2

end TransactionManager

open TransactionManager

/-! ### Runs of the engine -/

/-- The calls outside a recovery. -/
def Call.Client (c : Call) : Prop :=
  ∀ p, c = .txn p → ∃ call : ManagerCall, call.regular = true ∧ p = call.run

/-- The states that calls lead to. A call that throws counts with what it has done. -/
inductive StorageEngine.Steps (e : StorageEngine) : StorageEngine → Prop
  | refl : Steps e e
  | call {e' : StorageEngine} (h : Steps e e') (c : Call) (hc : c.Client) : Steps e (c.exec.run e').2

theorem TransactionManager.Closed.final_exec {I : TransactionManager → Prop} (hI : Closed I)
    {e : StorageEngine} (h : I e.txnMgr) {c : Call} (hc : c.Client) : I (c.exec.run e).2.txnMgr := by
  refine (hI.managerInvariant.keeps_exec c fun p hp => ?_).final h
  obtain ⟨call, hregular, rfl⟩ := hc p hp
  exact hI.keeps_run hregular

theorem TransactionManager.Closed.steps {I : TransactionManager → Prop} (hI : Closed I)
    {e e' : StorageEngine} (h : I e.txnMgr) (hsteps : e.Steps e') : I e'.txnMgr := by
  induction hsteps with
  | refl => exact h
  | call _ c hc ih => exact hI.final_exec ih hc

end JiaMiaoDB
