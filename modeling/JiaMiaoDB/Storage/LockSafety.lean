import JiaMiaoDB.Storage.LockManager

/-!
# Safety of the lock table

Any number of transactions acquire, wait, wake up, give up and release. A transaction has one
acquisition at a time, so its waiting mark is that of the acquisition it is in.
-/

set_option autoImplicit false

namespace JiaMiaoDB
namespace LockManager

/-- The state of every target records its holders, and a free target has no entry. -/
structure Consistent (m : LockManager) : Prop where
  agrees : ∀ t, (m.keyState t).Agrees fun x => m.held x t
  used : ∀ (t : LockTarget) (ks : KeyLockState), m.keyStates[t]? = some ks → ks.isFree = false

theorem consistent_create (timeout : UInt32) : Consistent (create timeout) where
  agrees _ := KeyLockState.agrees_create
  used t ks h := by simp [create] at h

section Consistent
variable {m m' : LockManager} {xid x y : TransactionId} {target t : LockTarget} {mode : LockMode}

/-- A change that concerns one target keeps the table consistent if it does so at this target. -/
theorem Consistent.of_target (h : Consistent m)
    (hheld : ∀ x, ∀ t ≠ target, m'.held x t = m.held x t)
    (hkeys : ∀ t ≠ target, m'.keyStates[t]? = m.keyStates[t]?)
    (hagrees : (m'.keyState target).Agrees fun x => m'.held x target)
    (hused : ∀ ks : KeyLockState, m'.keyStates[target]? = some ks → ks.isFree = false) :
    Consistent m' := by
  refine ⟨fun t => ?_, fun t ks hks => ?_⟩
  · by_cases ht : t = target
    · rw [ht]
      exact hagrees
    · have hagrees := h.agrees t
      rw [keyState, ← hkeys t ht] at hagrees
      simp only [← hheld _ t ht] at hagrees
      exact hagrees
  · by_cases ht : t = target
    · rw [ht] at hks
      exact hused ks hks
    · rw [hkeys t ht] at hks
      exact h.used t ks hks

/-- A change of the waiting marks alone. -/
theorem Consistent.congr (h : Consistent m) (hheld : ∀ x t, m'.held x t = m.held x t)
    (hkeys : m'.keyStates = m.keyStates) : Consistent m' where
  agrees t := by
    simp only [keyState, hkeys, hheld]
    exact h.agrees t
  used t ks hks := h.used t ks (hkeys ▸ hks)

theorem Consistent.exists_holder (h : Consistent m) {ks : KeyLockState}
    (hks : m.keyStates[t]? = some ks) : ∃ x, m.held x t ≠ none := by
  by_contra hnone
  push Not at hnone
  have hfree := (h.agrees t).isFree_iff.mpr hnone
  rw [keyState, hks, Option.getD_some, h.used t ks hks] at hfree
  cases hfree

theorem Consistent.keyStates_of_held (h : Consistent m) (hheld : m.held x t = some mode) :
    m.keyStates[t]? = some (m.keyState t) := by
  cases hks : m.keyStates[t]? with
  | some ks => rw [keyState, hks, Option.getD_some]
  | none =>
    have hagrees := h.agrees t
    rw [keyState, hks] at hagrees
    have hnone : m.held x t = none := hagrees.isFree_iff.mp rfl x
    rw [hnone] at hheld
    cases hheld

theorem canGrant_shared (hgrant : m.canGrant target .shared = true) :
    (m.keyState target).hasExcl = false := by
  rw [canGrant] at hgrant
  rw [keyState]
  cases hks : m.keyStates[target]? with
  | none => rfl
  | some ks =>
    rw [hks] at hgrant
    exact Bool.not_eq_true' _ |>.mp hgrant

theorem canGrant_exclusive (hgrant : m.canGrant target .exclusive = true) :
    (m.keyState target).isFree = true := by
  rw [canGrant] at hgrant
  rw [keyState]
  cases hks : m.keyStates[target]? with
  | none => rfl
  | some ks =>
    rw [hks] at hgrant
    exact hgrant

theorem Consistent.grant (h : Consistent m) (hnone : m.held xid target = none)
    (hgrant : m.canGrant target mode = true) : Consistent (m.grant xid target mode) := by
  have hkeys : (m.grant xid target mode).keyStates[target]? =
      some ((m.keyState target).take xid mode) := by rw [getElem?_grant, if_pos rfl]
  have hheld : (fun x => (m.grant xid target mode).held x target) =
      Function.update (fun x => m.held x target) xid (some mode) := by
    funext x
    rw [held_grant, Function.update_apply]
    simp
  have hagrees : ((m.keyState target).take xid mode).Agrees
      (Function.update (fun x => m.held x target) xid (some mode)) := by
    cases mode with
    | shared => exact (h.agrees target).take_shared hnone (canGrant_shared hgrant)
    | exclusive => exact (h.agrees target).take_exclusive (canGrant_exclusive hgrant)
  refine h.of_target (fun x t (ht : t ≠ target) => ?_) (fun t ht => ?_) ?_ fun ks hks => ?_
  · rw [held_grant, if_neg fun hc => ht hc.2]
  · rw [getElem?_grant, if_neg ht]
  · rw [keyState, hkeys, hheld]
    exact hagrees
  · rw [hkeys] at hks
    obtain rfl := Option.some.inj hks
    rw [Bool.eq_false_iff, ne_eq, hagrees.isFree_iff]
    intro hall
    have hxid := hall xid
    rw [Function.update_self] at hxid
    cases hxid

/-! ### Releasing -/

/-- The holding goes, and no waiting mark with it. -/
structure Releases (m m' : LockManager) (xid : TransactionId) (among : LockTarget → Prop) :
    Prop where
  gone : ∀ t, among t → m'.held xid t = none
  kept : ∀ t, ¬ among t → m'.held xid t = m.held xid t
  others : ∀ x ≠ xid, ∀ t, m'.held x t = m.held x t
  waiting : ∀ x t, m'.waiting x t = m.waiting x t

theorem Consistent.releaseLocked (h : Consistent m) (hheld : m.held xid target = some mode) :
    Consistent (m.releaseLocked xid target mode) ∧
      Releases m (m.releaseLocked xid target mode) xid (· = target) := by
  obtain ⟨tls, htls, hmode⟩ := Option.bind_eq_some_iff.mp hheld
  have hks := h.keyStates_of_held hheld
  have hrelease : m.releaseLocked xid target mode =
      (m.storeLockSet xid { tls with held := tls.held.erase target }).storeKeyState target
        ((m.keyState target).drop mode) := by
    simp only [LockManager.releaseLocked, hks, htls, hmode, if_true]
  set m' := m.releaseLocked xid target mode
  have hlookup (x : TransactionId) (t : LockTarget) : m'.held x t =
      if x = xid then (tls.held.erase target)[t]? else m.held x t := by
    rw [← held_storeLockSet m xid x { tls with held := tls.held.erase target } t, hrelease]
    simp only [held, txnLocks_storeKeyState]
  have hmarks (x : TransactionId) (t : LockTarget) : m'.waiting x t = m.waiting x t := by
    have hstore := waiting_storeLockSet m xid x { tls with held := tls.held.erase target } t
    have hsame : m'.waiting x t =
        (m.storeLockSet xid { tls with held := tls.held.erase target }).waiting x t := by
      rw [hrelease]
      simp only [waiting, txnLocks_storeKeyState]
    rw [hsame, hstore]
    split
    · subst x
      rw [waiting, htls, Option.bind_some]
    · rfl
  have hother : ∀ x, ∀ t ≠ target, m'.held x t = m.held x t := fun x t ht => by
    rw [hlookup]
    split
    · subst x
      rw [held, htls, Option.bind_some, Std.ExtTreeMap.getElem?_erase, if_neg]
      rw [Std.LawfulEqCmp.compare_eq_iff_eq]
      exact fun he => ht he.symm
    · rfl
  have hkeys (t : LockTarget) : m'.keyStates[t]? = if t = target then
      if ((m.keyState target).drop mode).isFree then none else some ((m.keyState target).drop mode)
      else m.keyStates[t]? := by
    rw [hrelease, getElem?_storeKeyState, keyStates_storeLockSet]
  have hdrop := (h.agrees target).drop hheld
  have hheld' : (fun x => m'.held x target) =
      Function.update (fun x => m.held x target) xid none := by
    funext x
    rw [hlookup, Function.update_apply]
    simp
  refine ⟨h.of_target hother (fun t ht => by rw [hkeys, if_neg ht]) ?_ fun ks hks => ?_,
    ⟨?_, hother xid, fun x hx t => by rw [hlookup, if_neg hx], hmarks⟩⟩
  · rw [keyState, hkeys, if_pos rfl, hheld']
    split
    · exact hdrop.create_of_isFree ‹_›
    · exact hdrop
  · rw [hkeys, if_pos rfl] at hks
    split at hks
    · cases hks
    · obtain rfl := Option.some.inj hks
      rw [Bool.eq_false_iff]
      assumption
  · rintro t rfl
    rw [hlookup, if_pos rfl]
    simp

/-- The holdings of a list, released one after the other. -/
theorem Consistent.foldl_releaseLocked (h : Consistent m) {l : List (LockTarget × LockMode)}
    (hheld : ∀ p ∈ l, m.held xid p.1 = some p.2) (hdistinct : (l.map Prod.fst).Nodup) :
    Consistent (l.foldl (fun m p => m.releaseLocked xid p.1 p.2) m) ∧
      Releases m (l.foldl (fun m p => m.releaseLocked xid p.1 p.2) m) xid (· ∈ l.map Prod.fst) := by
  induction l generalizing m with
  | nil => exact ⟨h, fun _ ht => absurd ht List.not_mem_nil, fun _ _ => rfl, fun _ _ _ => rfl,
      fun _ _ => rfl⟩
  | cons p l ih =>
    obtain ⟨hp, hdistinct⟩ := List.nodup_cons.mp hdistinct
    obtain ⟨hc, hr⟩ := h.releaseLocked (hheld p List.mem_cons_self)
    obtain ⟨hc', hr'⟩ := ih hc (fun q hq => by
      rw [hr.kept q.1 fun he => hp (List.mem_map.mpr ⟨q, hq, he⟩)]
      exact hheld q (List.mem_cons_of_mem p hq)) hdistinct
    refine ⟨hc', fun t ht => ?_, fun t ht => ?_, fun x hx t => ?_, fun x t => ?_⟩
    · by_cases htl : t ∈ l.map Prod.fst
      · exact hr'.gone t htl
      · rw [List.foldl_cons, hr'.kept t htl]
        exact hr.gone t ((List.mem_cons.mp ht).resolve_right htl)
    · rw [List.map_cons, List.mem_cons, not_or] at ht
      rw [List.foldl_cons, hr'.kept t ht.2, hr.kept t ht.1]
    · rw [List.foldl_cons, hr'.others x hx, hr.others x hx]
    · rw [List.foldl_cons, hr'.waiting, hr.waiting]

theorem Consistent.releaseAll (h : Consistent m) (xid : TransactionId) :
    Consistent (m.releaseAll xid) ∧ Releases m (m.releaseAll xid) xid fun _ => True := by
  rw [LockManager.releaseAll]
  cases htls : m.txnLocks[xid]? with
  | none =>
    have hnone (t : LockTarget) : m.held xid t = none := by rw [held, htls]; rfl
    exact ⟨h, fun t _ => hnone t, fun _ ht => absurd trivial ht, fun _ _ _ => rfl, fun _ _ => rfl⟩
  | some tls =>
    have hlookup (t : LockTarget) : m.held xid t = tls.held[t]? := by rw [held, htls]; rfl
    have hmem (t : LockTarget) (md : LockMode) : (t, md) ∈ tls.held.toList ↔ m.held xid t = some md := by
      rw [Std.ExtTreeMap.mem_toList_iff_getElem?_eq_some, hlookup]
    have hdistinct : (tls.held.toList.map Prod.fst).Nodup := by
      rw [Std.ExtTreeMap.map_fst_toList_eq_keys]
      exact Std.ExtTreeMap.nodup_keys
    obtain ⟨hc, hr⟩ := h.foldl_releaseLocked (fun p hp => (hmem p.1 p.2).mp hp) hdistinct
    refine ⟨hc, fun t _ => ?_, fun _ ht => absurd trivial ht, hr.others, hr.waiting⟩
    by_cases ht : t ∈ tls.held.toList.map Prod.fst
    · exact hr.gone t ht
    · rw [hr.kept t ht]
      cases hheld : m.held xid t with
      | none => rfl
      | some md => exact absurd (List.mem_map.mpr ⟨(t, md), (hmem t md).mpr hheld, rfl⟩) ht

/-! ### One round of the wait loop -/

/-- Nothing changes but the waiting mark of one transaction on one target. -/
structure Marks (m m' : LockManager) (xid : TransactionId) (target : LockTarget)
    (mark : Option LockMode) : Prop where
  held : ∀ x t, m'.held x t = m.held x t
  keyStates : m'.keyStates = m.keyStates
  waiting : ∀ x t, m'.waiting x t = if x = xid ∧ t = target then mark else m.waiting x t

theorem marks_setLockSet (m : LockManager) (xid : TransactionId) (target : LockTarget)
    (mode : LockMode) :
    Marks m (m.setLockSet xid { m.lockSet xid with
      waiting := (m.lockSet xid).waiting.insert target mode }) xid target (some mode) := by
  refine ⟨fun x t => ?_, rfl, fun x t => ?_⟩
  · rw [held_setLockSet]
    split
    · subst x
      exact held_lockSet m xid t
    · rfl
  · rw [waiting_setLockSet]
    by_cases hx : x = xid
    · subst hx
      by_cases ht : t = target
      · subst ht
        simp
      · have hne : ¬ target = t := fun h => ht h.symm
        simp [Std.ExtTreeMap.getElem?_insert, hne, ht, waiting_lockSet]
    · rw [if_neg hx, if_neg fun h => hx h.1]

theorem marks_storeLockSet (m : LockManager) (xid : TransactionId) (target : LockTarget)
    (mode : LockMode) :
    Marks m (m.storeLockSet xid { m.lockSet xid with
      waiting := ((m.lockSet xid).waiting.insert target mode).erase target }) xid target none := by
  refine ⟨fun x t => ?_, keyStates_storeLockSet _ _ _, fun x t => ?_⟩
  · rw [held_storeLockSet]
    split
    · subst x
      exact held_lockSet m xid t
    · rfl
  · rw [waiting_storeLockSet]
    by_cases hx : x = xid
    · subst hx
      by_cases ht : t = target
      · subst ht
        simp
      · have hne : ¬ target = t := fun h => ht h.symm
        simp [Std.ExtTreeMap.getElem?_erase, Std.ExtTreeMap.getElem?_insert, hne, ht,
          waiting_lockSet]
    · rw [if_neg hx, if_neg fun h => hx h.1]

theorem attempt_cases {elapsed : Nat} {o : LockOutcome}
    (h : m.attempt xid target mode elapsed = some (o, m')) :
    (o = .granted ∧ m.canGrant target mode = true ∧ m' = m.grant xid target mode) ∨
      (o = .waits ∧ Marks m m' xid target (some mode)) ∨
        ∃ e, o = .throws e ∧ Marks m m' xid target none := by
  unfold attempt at h
  split at h
  case isTrue hgrant =>
    split at h
    · cases h
    · obtain ⟨rfl, rfl⟩ := Prod.mk.inj (Option.some.inj h)
      exact .inl ⟨rfl, hgrant, rfl⟩
  case isFalse =>
    simp only at h
    split at h
    · obtain ⟨rfl, rfl⟩ := Prod.mk.inj (Option.some.inj h)
      exact .inr (.inr ⟨_, rfl, marks_storeLockSet m xid target mode⟩)
    · obtain ⟨rfl, rfl⟩ := Prod.mk.inj (Option.some.inj h)
      exact .inr (.inl ⟨rfl, marks_setLockSet m xid target mode⟩)

theorem acquire_cases {elapsed : Nat} {o : LockOutcome}
    (h : m.acquire xid target mode elapsed = some (o, m')) :
    (m.held xid target = none ∧ m.attempt xid target mode elapsed = some (o, m')) ∨
      (o ≠ .waits ∧ m' = m) := by
  unfold acquire at h
  split at h
  · split at h <;> obtain ⟨rfl, rfl⟩ := Prod.mk.inj (Option.some.inj h) <;>
      exact .inr ⟨by simp, rfl⟩
  · obtain ⟨rfl, rfl⟩ := Prod.mk.inj (Option.some.inj h)
    exact .inr ⟨by simp, rfl⟩
  case h_3 hnone => exact .inl ⟨hnone, h⟩

end Consistent

end LockManager

/-! ### Runs -/

structure LockSystem where
  manager : LockManager
  /-- The acquisition in whose wait loop the transaction is. -/
  pending : TransactionId → Option (LockTarget × LockMode)

/-- A critical section: the first of an acquisition, a later one after any wake-up, or a release. -/
inductive LockEvent where
  | acquire (xid : TransactionId) (target : LockTarget) (mode : LockMode) (elapsed : Nat)
  | wake (xid : TransactionId) (elapsed : Nat)
  | releaseAll (xid : TransactionId)

def LockEvent.xid : LockEvent → TransactionId
  | acquire xid _ _ _ | wake xid _ | releaseAll xid => xid

namespace LockSystem

def create (waitTimeoutMs : UInt32) : LockSystem := ⟨.create waitTimeoutMs, fun _ => none⟩

def finish (s : LockSystem) (xid : TransactionId) (target : LockTarget) (mode : LockMode)
    (r : LockOutcome × LockManager) : LockOutcome × LockSystem :=
  (r.1, ⟨r.2, Function.update s.pending xid (if r.1 = .waits then some (target, mode) else none)⟩)

/-- `none` where the step is not possible or has no defined behaviour. -/
def step (s : LockSystem) : LockEvent → Option (LockOutcome × LockSystem)
  | .acquire xid target mode elapsed =>
    if s.pending xid = none then
      (s.manager.acquire xid target mode elapsed).map (s.finish xid target mode)
    else none
  | .wake xid elapsed =>
    match s.pending xid with
    | none => none
    | some (target, mode) =>
      (s.manager.attempt xid target mode elapsed).map (s.finish xid target mode)
  | .releaseAll xid => some (.released, { s with manager := s.manager.releaseAll xid })

inductive Reachable (waitTimeoutMs : UInt32) : LockSystem → Prop
  | create : Reachable waitTimeoutMs (create waitTimeoutMs)
  | step {s s' : LockSystem} {e : LockEvent} {o : LockOutcome} :
    Reachable waitTimeoutMs s → s.step e = some (o, s') → Reachable waitTimeoutMs s'

structure Safe (s : LockSystem) : Prop where
  consistent : s.manager.Consistent
  marked : ∀ x t md, s.manager.waiting x t = some md → s.pending x = some (t, md)
  idle : ∀ x t md, s.pending x = some (t, md) → s.manager.held x t = none

theorem safe_create (waitTimeoutMs : UInt32) : Safe (create waitTimeoutMs) where
  consistent := LockManager.consistent_create waitTimeoutMs
  marked x t md h := by simp [create, LockManager.create, LockManager.waiting] at h
  idle x t md h := by cases h

section Step
variable {s s' : LockSystem} {m' : LockManager} {xid : TransactionId} {target : LockTarget}
  {mode : LockMode} {o : LockOutcome} {elapsed : Nat}

/-- The marks of the others, and that of the transaction if it waits on. -/
theorem Safe.marked_update (h : Safe s)
    (hpending : s.pending xid = none ∨ s.pending xid = some (target, mode)) {mark : Option LockMode}
    (hw : ∀ x t, m'.waiting x t =
      if x = xid ∧ t = target then mark else s.manager.waiting x t) :
    ∀ x t md, m'.waiting x t = some md →
      Function.update s.pending xid (mark.map (target, ·)) x = some (t, md) := by
  intro x t md hmd
  rw [hw] at hmd
  by_cases hx : x = xid
  · subst hx
    by_cases ht : t = target
    · subst ht
      rw [if_pos ⟨rfl, rfl⟩] at hmd
      rw [Function.update_self, hmd]
      rfl
    · rw [if_neg fun hc => ht hc.2] at hmd
      have hp := h.marked x t md hmd
      rcases hpending with hn | hs
      · rw [hn] at hp
        cases hp
      · rw [hs] at hp
        exact absurd (Prod.mk.inj (Option.some.inj hp)).1.symm ht
  · rw [if_neg fun hc => hx hc.1] at hmd
    rw [Function.update_of_ne hx]
    exact h.marked x t md hmd

theorem Safe.idle_update (h : Safe s) {p : Option (LockTarget × LockMode)}
    (hp : ∀ t md, p = some (t, md) → m'.held xid t = none)
    (hheld : ∀ x ≠ xid, ∀ t, m'.held x t = s.manager.held x t) :
    ∀ x t md, Function.update s.pending xid p x = some (t, md) → m'.held x t = none := by
  intro x t md hx
  by_cases hxx : x = xid
  · subst hxx
    rw [Function.update_self] at hx
    exact hp t md hx
  · rw [Function.update_of_ne hxx] at hx
    rw [hheld x hxx]
    exact h.idle x t md hx

/-- A round of an acquisition that the transaction is in or begins. -/
theorem Safe.attempt (h : Safe s) (hnone : s.manager.held xid target = none)
    (hpending : s.pending xid = none ∨ s.pending xid = some (target, mode))
    (hr : s.manager.attempt xid target mode elapsed = some (o, m')) :
    Safe (s.finish xid target mode (o, m')).2 := by
  rcases LockManager.attempt_cases hr with ⟨rfl, hgrant, rfl⟩ | ⟨rfl, hm⟩ | ⟨e, rfl, hm⟩
  · refine ⟨h.consistent.grant hnone hgrant, ?_, ?_⟩
    · exact h.marked_update hpending (LockManager.waiting_grant _ _ · _ · _)
    · refine h.idle_update (p := none) (by simp) ?_
      intro x hx t
      change (s.manager.grant xid target mode).held x t = _
      rw [LockManager.held_grant, if_neg fun hc => hx hc.1]
  · refine ⟨h.consistent.congr hm.held hm.keyStates, h.marked_update hpending hm.waiting, ?_⟩
    refine h.idle_update (fun t md hp => ?_) fun x _ t => hm.held x t
    obtain ⟨rfl, -⟩ := Prod.mk.inj (Option.some.inj hp)
    exact (hm.held xid target).trans hnone
  · refine ⟨h.consistent.congr hm.held hm.keyStates, h.marked_update hpending hm.waiting, ?_⟩
    exact h.idle_update (p := none) (by simp) fun x _ t => hm.held x t

/-- What a critical section of an acquisition is: a round of the wait loop, or nothing at all. -/
theorem step_cases {e : LockEvent} (hstep : s.step e = some (o, s')) (h : Safe s) :
    (∃ xid, e = .releaseAll xid ∧ o = .released ∧
      s' = { s with manager := s.manager.releaseAll xid }) ∨
    ∃ target mode m', s' = (s.finish e.xid target mode (o, m')).2 ∧
      (s.pending e.xid = none ∨ s.pending e.xid = some (target, mode)) ∧
      ((s.manager.held e.xid target = none ∧
        ∃ elapsed, s.manager.attempt e.xid target mode elapsed = some (o, m')) ∨
        (s.pending e.xid = none ∧ o ≠ .waits ∧ m' = s.manager)) := by
  cases e with
  | acquire xid target mode elapsed =>
    simp only [step] at hstep
    split at hstep
    case isFalse => cases hstep
    case isTrue hp =>
      obtain ⟨⟨o', m'⟩, hr, he⟩ := Option.map_eq_some_iff.mp hstep
      obtain ⟨rfl, rfl⟩ := Prod.mk.inj he
      refine .inr ⟨target, mode, m', rfl, .inl hp, ?_⟩
      rcases LockManager.acquire_cases hr with ⟨hnone, hr⟩ | ⟨hw, rfl⟩
      · exact .inl ⟨hnone, elapsed, hr⟩
      · exact .inr ⟨hp, hw, rfl⟩
  | wake xid elapsed =>
    simp only [step] at hstep
    split at hstep
    · cases hstep
    case h_2 target mode hp =>
      obtain ⟨⟨o', m'⟩, hr, he⟩ := Option.map_eq_some_iff.mp hstep
      obtain ⟨rfl, rfl⟩ := Prod.mk.inj he
      exact .inr ⟨target, mode, m', rfl, .inr hp, .inl ⟨h.idle xid target mode hp, elapsed, hr⟩⟩
  | releaseAll xid =>
    obtain ⟨rfl, rfl⟩ := Prod.mk.inj (Option.some.inj hstep)
    exact .inl ⟨xid, rfl, rfl, rfl⟩

theorem Safe.step {e : LockEvent} (h : Safe s) (hstep : s.step e = some (o, s')) : Safe s' := by
  rcases step_cases hstep h with ⟨xid, rfl, rfl, rfl⟩ | ⟨target, mode, m', rfl, hp, hr⟩
  · obtain ⟨hc, hrel⟩ := h.consistent.releaseAll xid
    refine ⟨hc, fun x t md hmd => h.marked x t md ?_, fun x t md hx => ?_⟩
    · rw [← hrel.waiting]
      exact hmd
    · by_cases hxx : x = xid
      · subst hxx
        exact hrel.gone t trivial
      · exact (hrel.others x hxx t).trans (h.idle x t md hx)
  · rcases hr with ⟨hnone, elapsed, hr⟩ | ⟨hp, hw, rfl⟩
    · exact h.attempt hnone hp hr
    · have hsame : (s.finish e.xid target mode (o, s.manager)).2 = s := by
        rw [finish, if_neg hw, ← hp, Function.update_eq_self]
      rw [hsame]
      exact h

theorem safe_reachable {waitTimeoutMs : UInt32} (h : Reachable waitTimeoutMs s) : Safe s := by
  induction h with
  | create => exact safe_create waitTimeoutMs
  | step _ hstep ih => exact ih.step hstep

/-- A section that neither grants nor releases changes no holders. -/
theorem held_step {e : LockEvent} (h : Safe s) (hstep : s.step e = some (o, s'))
    (hgranted : o ≠ .granted) (hreleased : o ≠ .released) (x : TransactionId) (t : LockTarget) :
    s'.manager.held x t = s.manager.held x t := by
  rcases step_cases hstep h with ⟨xid, rfl, rfl, rfl⟩ | ⟨target, mode, m', rfl, -, hr⟩
  · exact absurd rfl hreleased
  · rcases hr with ⟨-, elapsed, hr⟩ | ⟨-, -, rfl⟩
    · rcases LockManager.attempt_cases hr with ⟨rfl, -, -⟩ | ⟨-, hm⟩ | ⟨f, -, hm⟩
      · exact absurd rfl hgranted
      · exact hm.held x t
      · exact hm.held x t
    · rfl

/-- After a throw the transaction is in no acquisition, so none of its marks is left. -/
theorem waiting_throws {e : LockEvent} {f : Failure} (h : Safe s)
    (hstep : s.step e = some (.throws f, s')) (t : LockTarget) :
    s'.manager.waiting e.xid t = none := by
  have hpending : s'.pending e.xid = none := by
    rcases step_cases hstep h with ⟨xid, -, ho, -⟩ | ⟨target, mode, m', rfl, -, -⟩
    · cases ho
    · rw [finish, if_neg (by simp)]
      exact Function.update_self ..
  cases hw : s'.manager.waiting e.xid t with
  | none => rfl
  | some md =>
    have hp := (h.step hstep).marked e.xid t md hw
    rw [hpending] at hp
    cases hp

end Step

/-- The lock table as its users rely on it. -/
structure TableSafe (s : LockSystem) : Prop where
  exclusion : ∀ t x y, s.manager.held x t = some .exclusive → s.manager.held y t ≠ none → x = y
  sharedCount : ∀ t,
    (s.manager.keyState t).sharedCount = {x | s.manager.held x t = some .shared}.ncard
  noFreeEntry : ∀ t (ks : KeyLockState), s.manager.keyStates[t]? = some ks →
    ks.isFree = false ∧ ∃ x, s.manager.held x t ≠ none
  unchanged : ∀ e o s', s.step e = some (o, s') → o ≠ .granted → o ≠ .released →
    ∀ x t, s'.manager.held x t = s.manager.held x t
  unmarked : ∀ e f s', s.step e = some (.throws f, s') →
    ∀ t, s'.manager.waiting e.xid t = none

theorem tableSafe_of_reachable {waitTimeoutMs : UInt32} {s : LockSystem}
    (h : Reachable waitTimeoutMs s) : TableSafe s where
  exclusion t _ _ hx hy := ((safe_reachable h).consistent.agrees t).eq_of_exclusive hx hy
  sharedCount t := ((safe_reachable h).consistent.agrees t).shared
  noFreeEntry t ks hks := ⟨(safe_reachable h).consistent.used t ks hks,
    (safe_reachable h).consistent.exists_holder hks⟩
  unchanged _ _ _ hstep hgranted hreleased := held_step (safe_reachable h) hstep hgranted hreleased
  unmarked _ _ _ hstep := waiting_throws (safe_reachable h) hstep

theorem tableSafe_timeout : ∃ s, Reachable 5000 s ∧ TableSafe s := by
  have h₁ : Reachable 5000 _ := .step .create
    (rfl : (create 5000).step (.acquire 3 ⟨.table, str "t"⟩ .shared 0) = some (.granted, _))
  have h₂ : Reachable 5000 _ := .step h₁
    (rfl : LockSystem.step _ (.acquire 4 ⟨.table, str "t"⟩ .exclusive 0) = some (.waits, _))
  have h₃ : Reachable 5000 _ := .step h₂
    (rfl : LockSystem.step _ (.wake 4 5000) = some (.throws _, _))
  exact ⟨_, h₃, tableSafe_of_reachable h₃⟩

end LockSystem
end JiaMiaoDB
