import JiaMiaoDB.Storage.LockSafety

/-!
# What a lock handle stands for

A handle gives up all locks of its transaction when it is released, so a valid handle stands for its
lock as long as no handle of the transaction has been released since it was acquired. The number of
releases of each transaction is kept beside the lock table, and with each variable the number at the
acquisition of its handle.
-/

set_option autoImplicit false

namespace JiaMiaoDB

/-- The holding is at least as strong as the mode asked for. -/
def LockMode.covers (held mode : LockMode) : Prop := held = .exclusive ∨ mode = .shared

instance (held mode : LockMode) : Decidable (held.covers mode) := inferInstanceAs (Decidable (_ ∨ _))

/-- A handle of the only manager. A variable that is declared without one is not valid. -/
structure LockHandle where
  xid : TransactionId
  target : LockTarget
  mode : LockMode
  valid : Bool

def LockHandle.empty : LockHandle := ⟨InvalidTransactionId, ⟨.table, []⟩, .shared, false⟩

structure HandleSystem where
  locks : LockSystem
  /-- The variables in scope, by their addresses. -/
  handles : Nat → Option LockHandle
  releases : TransactionId → Nat
  since : Nat → Nat

/-- `lockSection` runs a critical section of the manager; a granted acquisition makes a new variable. -/
inductive HandleEvent where
  | lockSection (e : LockEvent) (var : Nat)
  | declare (var : Nat)
  | moveConstruct (src dst : Nat)
  | moveAssign (src dst : Nat)
  | release (var : Nat)
  | destroy (var : Nat)

namespace HandleSystem

def create (waitTimeoutMs : UInt32) : HandleSystem :=
  ⟨.create waitTimeoutMs, fun _ => none, fun _ => 0, fun _ => 0⟩

section Operations
variable (s : HandleSystem)

def setHandle (var : Nat) (h : Option LockHandle) : HandleSystem :=
  { s with handles := Function.update s.handles var h }

def releaseAll (xid : TransactionId) : HandleSystem :=
  { s with
    locks := { s.locks with manager := s.locks.manager.releaseAll xid }
    releases := Function.update s.releases xid (s.releases xid + 1) }

/-- `Handle::release` -/
def release (var : Nat) : HandleSystem :=
  match s.handles var with
  | none => s
  | some h =>
    if h.valid then (s.releaseAll h.xid).setHandle var (some { h with valid := false }) else s

/-- The handle goes from one variable into another and leaves an invalid one behind. -/
def moveInto (src dst : Nat) (h : LockHandle) : HandleSystem :=
  { (s.setHandle dst (some h)).setHandle src (some { h with valid := false }) with
    since := Function.update s.since dst (s.since src) }

/-- The lock that a section is about. -/
def wanted : LockEvent → Option (LockTarget × LockMode)
  | .acquire _ target mode _ => some (target, mode)
  | .wake xid _ => s.locks.pending xid
  | .releaseAll _ => none

def afterSection (e : LockEvent) (var : Nat) (o : LockOutcome) (locks : LockSystem) :
    HandleSystem :=
  match o, s.wanted e with
  | .granted, some (target, mode) =>
    { s.setHandle var (some ⟨e.xid, target, mode, true⟩) with
      locks := locks, since := Function.update s.since var (s.releases e.xid) }
  | .released, _ =>
    { s with locks := locks, releases := Function.update s.releases e.xid (s.releases e.xid + 1) }
  | _, _ => { s with locks := locks }

/-- `none` where the step is not possible: a new variable takes a free address, the others are in
scope. -/
def step : HandleEvent → Option HandleSystem
  | .lockSection e var =>
    if s.handles var = none then
      (s.locks.step e).map fun r => s.afterSection e var r.1 r.2
    else none
  | .declare var =>
    match s.handles var with
    | none => some (s.setHandle var (some .empty))
    | some _ => none
  | .moveConstruct src dst =>
    match s.handles src, s.handles dst with
    | some h, none => some (s.moveInto src dst h)
    | _, _ => none
  | .moveAssign src dst =>
    match s.handles src, s.handles dst with
    | some h, some _ => some (if src = dst then s else (s.release dst).moveInto src dst h)
    | _, _ => none
  | .release var => (s.handles var).map fun _ => s.release var
  | .destroy var => (s.handles var).map fun _ => (s.release var).setHandle var none

end Operations

inductive Reachable (waitTimeoutMs : UInt32) : HandleSystem → Prop
  | create : Reachable waitTimeoutMs (create waitTimeoutMs)
  | step {s s' : HandleSystem} {e : HandleEvent} :
    Reachable waitTimeoutMs s → s.step e = some s' → Reachable waitTimeoutMs s'

/-! ### Critical sections -/

variable {s s' : HandleSystem} {l : LockSystem} {e : LockEvent} {o : LockOutcome} {var : Nat}
  {h : LockHandle} {xid : TransactionId}

/-- The transaction of the handle holds its target in a mode that covers its own. -/
def Holds (s : HandleSystem) (h : LockHandle) : Prop :=
  ∃ md, s.locks.manager.held h.xid h.target = some md ∧ md.covers h.mode

theorem held_of_attempt {m m' : LockManager} {target : LockTarget} {mode : LockMode} {elapsed : Nat}
    (hr : m.attempt xid target mode elapsed = some (.granted, m')) :
    m'.held xid target = some mode := by
  rcases LockManager.attempt_cases hr with ⟨-, -, rfl⟩ | ⟨ho, -⟩ | ⟨f, ho, -⟩
  · rw [LockManager.held_grant, if_pos ⟨rfl, rfl⟩]
  · cases ho
  · cases ho

theorem held_of_acquire {m m' : LockManager} {target : LockTarget} {mode : LockMode} {elapsed : Nat}
    (hr : m.acquire xid target mode elapsed = some (.granted, m')) :
    ∃ md, m'.held xid target = some md ∧ md.covers mode := by
  have hself : mode.covers mode := by
    cases mode
    · exact Or.inr rfl
    · exact Or.inl rfl
  unfold LockManager.acquire at hr
  cases hheld : m.held xid target with
  | none =>
    rw [hheld] at hr
    exact ⟨mode, held_of_attempt hr, hself⟩
  | some md =>
    rw [hheld] at hr
    cases md with
    | exclusive =>
      cases hr
      exact ⟨_, hheld, Or.inl rfl⟩
    | shared =>
      cases mode with
      | exclusive => cases hr
      | shared =>
        cases hr
        exact ⟨_, hheld, Or.inr rfl⟩

/-- A granted section leaves the lock that it is about with the transaction. -/
theorem held_of_granted (hstep : s.locks.step e = some (.granted, l)) :
    ∃ target mode, s.wanted e = some (target, mode) ∧
      ∃ md, l.manager.held e.xid target = some md ∧ md.covers mode := by
  cases e with
  | acquire xid target mode elapsed =>
    simp only [LockSystem.step] at hstep
    split at hstep
    · obtain ⟨⟨o', m'⟩, hr, he⟩ := Option.map_eq_some_iff.mp hstep
      obtain ⟨rfl, rfl⟩ := Prod.mk.inj he
      exact ⟨target, mode, rfl, held_of_acquire hr⟩
    · cases hstep
  | wake xid elapsed =>
    simp only [LockSystem.step] at hstep
    split at hstep
    · cases hstep
    case h_2 target mode hp =>
      obtain ⟨⟨o', m'⟩, hr, he⟩ := Option.map_eq_some_iff.mp hstep
      obtain ⟨rfl, rfl⟩ := Prod.mk.inj he
      refine ⟨target, mode, hp, mode, held_of_attempt hr, ?_⟩
      cases mode
      · exact Or.inr rfl
      · exact Or.inl rfl
  | releaseAll xid => cases hstep

/-- Only a release takes locks away. -/
theorem held_of_section (hsafe : s.locks.Safe) (hstep : s.locks.step e = some (o, l))
    (he : ∀ xid, e ≠ .releaseAll xid) {x : TransactionId} {t : LockTarget} {md : LockMode}
    (hheld : s.locks.manager.held x t = some md) : l.manager.held x t = some md := by
  rcases LockSystem.step_cases hstep hsafe with
    ⟨xid, hr, -, -⟩ | ⟨target, mode, m', rfl, -, ⟨hnone, elapsed, hr⟩ | ⟨-, -, rfl⟩⟩
  · exact absurd hr (he xid)
  · rcases LockManager.attempt_cases hr with ⟨-, -, rfl⟩ | ⟨-, hm⟩ | ⟨f, -, hm⟩
    · change (s.locks.manager.grant e.xid target mode).held x t = _
      rw [LockManager.held_grant, if_neg]
      · exact hheld
      · rintro ⟨rfl, rfl⟩
        rw [hnone] at hheld
        cases hheld
    · exact (hm.held x t).trans hheld
    · exact (hm.held x t).trans hheld
  · exact hheld

/-! ### Handles -/

/-- A valid handle whose transaction has released nothing since its acquisition stands for its
lock. -/
structure Standing (s : HandleSystem) : Prop where
  safe : s.locks.Safe
  past : ∀ var h, s.handles var = some h → h.valid = true → s.since var ≤ s.releases h.xid
  holds : ∀ var h, s.handles var = some h → h.valid = true → s.since var = s.releases h.xid →
    s.Holds h

theorem standing_create (waitTimeoutMs : UInt32) : (create waitTimeoutMs).Standing where
  safe := LockSystem.safe_create waitTimeoutMs
  past var h hh := by cases hh
  holds var h hh := by cases hh

/-- Locks may only go together with a release of their transaction. -/
theorem Standing.of_kept (hs : s.Standing) {releases : TransactionId → Nat} (hsafe : l.Safe)
    (hrel : ∀ x, s.releases x ≤ releases x)
    (hkept : ∀ x, releases x = s.releases x → ∀ t md, s.locks.manager.held x t = some md →
      l.manager.held x t = some md) :
    Standing { s with locks := l, releases := releases } := by
  refine ⟨hsafe, fun var h hh hv => (hs.past var h hh hv).trans (hrel h.xid), ?_⟩
  intro var h hh hv hsince
  have hsince : s.since var = releases h.xid := hsince
  have hpast := hs.past var h hh hv
  have hle := hrel h.xid
  obtain ⟨md, hheld, hcovers⟩ := hs.holds var h hh hv (by omega)
  exact ⟨md, hkept h.xid (by omega) h.target md hheld, hcovers⟩

theorem le_bump (xid x : TransactionId) :
    s.releases x ≤ Function.update s.releases xid (s.releases xid + 1) x := by
  rw [Function.update_apply]
  split
  · subst x
    omega
  · exact Nat.le_refl _

theorem Standing.releaseAll (hs : s.Standing) (xid : TransactionId) :
    (s.releaseAll xid).Standing := by
  obtain ⟨-, hrel⟩ := hs.safe.consistent.releaseAll xid
  apply hs.of_kept (hs.safe.step (e := .releaseAll xid) rfl) (le_bump xid)
  intro x hsame t md hheld
  have hx : x ≠ xid := by
    rintro rfl
    rw [Function.update_self] at hsame
    omega
  exact (hrel.others x hx t).trans hheld

theorem handles_setHandle (s : HandleSystem) (var v : Nat) (h : Option LockHandle) :
    (s.setHandle var h).handles v = if v = var then h else s.handles v :=
  Function.update_apply ..

/-- A variable that goes out of scope or becomes invalid stands for nothing. -/
theorem Standing.setHandle (hs : s.Standing) (var : Nat) {h : Option LockHandle}
    (hinvalid : ∀ x, h = some x → x.valid = false) : (s.setHandle var h).Standing := by
  have hother {v : Nat} {x : LockHandle} (hx : (s.setHandle var h).handles v = some x)
      (hv : x.valid = true) : s.handles v = some x := by
    rw [handles_setHandle] at hx
    split at hx
    · rw [hinvalid x hx] at hv
      cases hv
    · exact hx
  exact ⟨hs.safe, fun v x hx hv => hs.past v x (hother hx hv) hv,
    fun v x hx hv => hs.holds v x (hother hx hv) hv⟩

theorem Standing.release (hs : s.Standing) (var : Nat) : (s.release var).Standing := by
  unfold HandleSystem.release
  cases s.handles var with
  | none => exact hs
  | some h =>
    dsimp only
    split
    · apply (hs.releaseAll h.xid).setHandle
      rintro x ⟨⟩
      rfl
    · exact hs

theorem handles_release_of_ne {v : Nat} (hne : v ≠ var) :
    (s.release var).handles v = s.handles v := by
  unfold HandleSystem.release
  cases s.handles var with
  | none => rfl
  | some h =>
    dsimp only
    split
    · rw [handles_setHandle, if_neg hne]
      rfl
    · rfl

theorem Standing.moveInto (hs : s.Standing) {src dst : Nat}
    (hsrc : s.handles src = some h) : (s.moveInto src dst h).Standing := by
  -- The valid handles afterwards are those before, with that of `src` at `dst`.
  have hfrom {v : Nat} {x : LockHandle} (hx : (s.moveInto src dst h).handles v = some x)
      (hv : x.valid = true) :
      ∃ v', s.handles v' = some x ∧ (s.moveInto src dst h).since v = s.since v' := by
    change ((s.setHandle dst (some h)).setHandle src _).handles v = _ at hx
    change ∃ v', _ ∧ Function.update s.since dst (s.since src) v = _
    rw [handles_setHandle, handles_setHandle] at hx
    rw [Function.update_apply]
    by_cases hvs : v = src
    · rw [if_pos hvs] at hx
      cases hx
      cases hv
    · rw [if_neg hvs] at hx
      by_cases hvd : v = dst
      · rw [if_pos hvd] at hx ⊢
        exact ⟨src, hsrc.trans hx, rfl⟩
      · rw [if_neg hvd] at hx ⊢
        exact ⟨v, hx, rfl⟩
  refine ⟨hs.safe, ?_, ?_⟩
  · intro v x hx hv
    obtain ⟨v', hx', hsince⟩ := hfrom hx hv
    rw [hsince]
    exact hs.past v' x hx' hv
  · intro v x hx hv heq
    obtain ⟨v', hx', hsince⟩ := hfrom hx hv
    exact hs.holds v' x hx' hv (hsince.symm.trans heq)

/-- A new handle for a lock that its transaction holds. -/
theorem Standing.construct (hs : s.Standing) (hh : s.Holds h) (var : Nat) :
    Standing { s.setHandle var (some h) with
      since := Function.update s.since var (s.releases h.xid) } := by
  have hfrom {v : Nat} {x : LockHandle} (hx : (s.setHandle var (some h)).handles v = some x) :
      x = h ∧ Function.update s.since var (s.releases h.xid) v = s.releases h.xid ∨
        s.handles v = some x ∧
          Function.update s.since var (s.releases h.xid) v = s.since v := by
    rw [handles_setHandle] at hx
    rw [Function.update_apply]
    split at hx
    · rename_i hvar
      exact Or.inl ⟨(Option.some.inj hx).symm, if_pos hvar⟩
    · rename_i hvar
      exact Or.inr ⟨hx, if_neg hvar⟩
  refine ⟨hs.safe, ?_, ?_⟩
  · intro v x hx hv
    rcases hfrom hx with ⟨rfl, hsince⟩ | ⟨hx', hsince⟩
    · exact hsince.le
    · exact hsince.trans_le (hs.past v x hx' hv)
  · intro v x hx hv heq
    rcases hfrom hx with ⟨rfl, -⟩ | ⟨hx', hsince⟩
    · exact hh
    · exact hs.holds v x hx' hv (hsince.symm.trans heq)

theorem Standing.afterSection (hs : s.Standing) (hstep : s.locks.step e = some (o, l)) (var : Nat) :
    (s.afterSection e var o l).Standing := by
  by_cases he : ∃ xid, e = .releaseAll xid
  · obtain ⟨xid, rfl⟩ := he
    cases hstep
    exact hs.releaseAll xid
  · push Not at he
    have hsafe := hs.safe.step hstep
    have hkept (x : TransactionId) (t : LockTarget) (md : LockMode)
        (hheld : s.locks.manager.held x t = some md) : l.manager.held x t = some md :=
      held_of_section hs.safe hstep he hheld
    unfold HandleSystem.afterSection
    split
    · rename_i target mode hwanted
      obtain ⟨t, md', hwanted', hh⟩ := held_of_granted hstep
      rw [hwanted] at hwanted'
      cases hwanted'
      have hsame := hs.of_kept hsafe (fun _ => Nat.le_refl _) fun x _ => hkept x
      exact hsame.construct (h := ⟨e.xid, target, mode, true⟩) hh var
    · exact hs.of_kept hsafe (le_bump e.xid) fun x _ => hkept x
    · exact hs.of_kept hsafe (fun _ => Nat.le_refl _) fun x _ => hkept x

theorem Standing.step (hs : s.Standing) {e : HandleEvent} (hstep : s.step e = some s') :
    s'.Standing := by
  cases e with
  | lockSection e var =>
    simp only [HandleSystem.step] at hstep
    split at hstep
    · obtain ⟨⟨o, l⟩, hl, rfl⟩ := Option.map_eq_some_iff.mp hstep
      exact hs.afterSection hl var
    · cases hstep
  | declare var =>
    simp only [HandleSystem.step] at hstep
    split at hstep
    · cases hstep
      apply hs.setHandle
      rintro x ⟨⟩
      rfl
    · cases hstep
  | moveConstruct src dst =>
    simp only [HandleSystem.step] at hstep
    split at hstep
    · cases hstep
      exact hs.moveInto ‹_›
    · cases hstep
  | moveAssign src dst =>
    simp only [HandleSystem.step] at hstep
    split at hstep
    · rename_i h _ hsrc _
      split at hstep <;> cases hstep
      · exact hs
      · rename_i hne
        apply (hs.release dst).moveInto
        exact (handles_release_of_ne hne).trans hsrc
    · cases hstep
  | release var =>
    obtain ⟨h, -, rfl⟩ := Option.map_eq_some_iff.mp hstep
    exact hs.release var
  | destroy var =>
    obtain ⟨h, -, rfl⟩ := Option.map_eq_some_iff.mp hstep
    apply (hs.release var).setHandle
    rintro x ⟨⟩

theorem standing_reachable {waitTimeoutMs : UInt32} (h : Reachable waitTimeoutMs s) :
    s.Standing := by
  induction h with
  | create => exact standing_create waitTimeoutMs
  | step _ hstep ih => exact ih.step hstep

/-- The release of a valid handle takes all locks of its transaction and no others. -/
theorem held_release (hsafe : s.locks.Safe) (hh : s.handles var = some h) (hv : h.valid = true) :
    (∀ t, (s.release var).locks.manager.held h.xid t = none) ∧
      ∀ x ≠ h.xid, ∀ t, (s.release var).locks.manager.held x t = s.locks.manager.held x t := by
  obtain ⟨-, hrel⟩ := hsafe.consistent.releaseAll h.xid
  unfold HandleSystem.release
  rw [hh]
  dsimp only
  rw [if_pos hv]
  exact ⟨fun t => hrel.gone t trivial, hrel.others⟩

/-- A valid handle stands for its lock until its transaction releases, and a release concerns all
locks of one transaction. -/
theorem handle_stands {waitTimeoutMs : UInt32} (hs : Reachable waitTimeoutMs s)
    (hh : s.handles var = some h) (hv : h.valid = true) :
    (s.since var = s.releases h.xid → s.Holds h) ∧
      (∀ t, (s.release var).locks.manager.held h.xid t = none) ∧
        ∀ x ≠ h.xid, ∀ t,
          (s.release var).locks.manager.held x t = s.locks.manager.held x t := by
  have hstanding := standing_reachable hs
  exact ⟨hstanding.holds var h hh hv, held_release hstanding.safe hh hv⟩

/-! ### Two handles of one transaction -/

def run (events : List HandleEvent) (s : HandleSystem) : Option HandleSystem :=
  events.foldlM HandleSystem.step s

theorem reachable_run {waitTimeoutMs : UInt32} {events : List HandleEvent}
    (hs : Reachable waitTimeoutMs s) (hrun : run events s = some s') :
    Reachable waitTimeoutMs s' := by
  induction events generalizing s with
  | nil =>
    cases hrun
    exact hs
  | cons e events ih =>
    obtain ⟨s₁, hstep, hrest⟩ := Option.bind_eq_some_iff.mp hrun
    exact ih (hs.step hstep) hrest

/-- Shared locks on the tables `a` and `b`. -/
def twoTables : List HandleEvent :=
  [.lockSection (.acquire 10 ⟨.table, str "a"⟩ .shared 0) 0,
    .lockSection (.acquire 10 ⟨.table, str "b"⟩ .shared 0) 1]

/-- The first handle is valid and stands for its lock. -/
theorem handle_stands_twoTables : ∃ s h, run twoTables (create 0) = some s ∧
    s.handles 0 = some h ∧ h.valid = true ∧ s.Holds h := by
  have h : (run twoTables (create 0)).any (fun s => (s.handles 0).any fun h =>
      h.valid && decide (s.since 0 = s.releases h.xid)) = true := by
    decide +kernel
  obtain ⟨s, hs, hany⟩ := (Option.any_eq_true _ _).1 h
  obtain ⟨h, hh, hvalid⟩ := (Option.any_eq_true _ _).1 hany
  rw [Bool.and_eq_true, decide_eq_true_iff] at hvalid
  exact ⟨s, h, hs, hh, hvalid.1,
    (handle_stands (reachable_run .create hs) hh hvalid.1).1 hvalid.2⟩

/-- When the handle on `a` is destroyed, the valid handle on `b` has lost its lock. -/
theorem not_handle_stands : ¬ ∀ (waitTimeoutMs : UInt32) (s : HandleSystem),
    Reachable waitTimeoutMs s → ∀ var h, s.handles var = some h → h.valid = true → s.Holds h := by
  intro hall
  have h : (run (twoTables ++ [.destroy 0]) (create 0)).any (fun s => (s.handles 1).any fun h =>
      h.valid && decide (s.locks.manager.held h.xid h.target = none)) = true := by
    decide +kernel
  obtain ⟨s, hs, hany⟩ := (Option.any_eq_true _ _).1 h
  obtain ⟨h, hh, hvalid⟩ := (Option.any_eq_true _ _).1 hany
  rw [Bool.and_eq_true, decide_eq_true_iff] at hvalid
  obtain ⟨md, hheld, -⟩ := hall 0 s (reachable_run .create hs) 1 h hh hvalid.1
  rw [hvalid.2] at hheld
  cases hheld

end HandleSystem
end JiaMiaoDB
