import JiaMiaoDB.Storage.Transaction
import Mathlib.Data.FinEnum
import Mathlib.Data.Set.Card

/-!
# The lock manager

One mutex protects the two maps, so a call is a sequence of critical sections: an acquisition runs
the round of its wait loop each time the mutex is its own, and the rounds of different callers
interleave.
-/

set_option autoImplicit false

namespace JiaMiaoDB

inductive LockMode where
  | shared | exclusive
deriving DecidableEq

inductive LockTargetType where
  | table | key | clog
deriving DecidableEq

structure LockTarget where
  type : LockTargetType
  name : Str
deriving DecidableEq

namespace LockTarget

def typeIndex (t : LockTarget) : Nat := t.type.ctorIdx

/-- By type, then by name. -/
instance : Ord LockTarget := ⟨compareLex (compareOn typeIndex) (compareOn LockTarget.name)⟩

instance : Std.TransOrd LockTarget :=
  inferInstanceAs (Std.TransCmp (compareLex (compareOn typeIndex) (compareOn LockTarget.name)))

theorem compare_def (a b : LockTarget) :
    compare a b = (compare a.typeIndex b.typeIndex).then (compare a.name b.name) := rfl

instance : Std.LawfulEqOrd LockTarget where
  eq_of_compare {a b} h := by
    rw [compare_def, Ordering.then_eq_eq] at h
    rcases a with ⟨ta, na⟩
    rcases b with ⟨tb, nb⟩
    have htype : ta.ctorIdx = tb.ctorIdx := Std.LawfulEqOrd.eq_of_compare h.1
    have hname : na = nb := Std.LawfulEqOrd.eq_of_compare h.2
    have ht : ta = tb := by
      revert htype
      cases ta <;> cases tb <;> decide
    rw [ht, hname]

end LockTarget

structure KeyLockState where
  sharedCount : Int
  hasExcl : Bool
  exclusiveXid : TransactionId

namespace KeyLockState

def create : KeyLockState := ⟨0, false, InvalidTransactionId⟩

variable (ks : KeyLockState)

def hasShared : Bool := decide (0 < ks.sharedCount)

def hasExclusive : Bool := ks.hasExcl

def isFree : Bool := !ks.hasShared && !ks.hasExclusive

def take (xid : TransactionId) : LockMode → KeyLockState
  | .shared => { ks with sharedCount := ks.sharedCount + 1 }
  | .exclusive => { ks with hasExcl := true, exclusiveXid := xid }

def drop : LockMode → KeyLockState
  | .shared => { ks with sharedCount := ks.sharedCount - 1 }
  | .exclusive => { ks with hasExcl := false, exclusiveXid := InvalidTransactionId }

end KeyLockState

structure TransactionLockSet where
  held : Std.ExtTreeMap LockTarget LockMode compare
  waiting : Std.ExtTreeMap LockTarget LockMode compare

structure LockManager where
  keyStates : Std.ExtTreeMap LockTarget KeyLockState compare
  txnLocks : Std.ExtTreeMap TransactionId TransactionLockSet compare
  waitTimeoutMs : UInt32

/-- How a critical section of a call ends. -/
inductive LockOutcome where
  | granted
  | waits
  | throws (e : Failure)
  | released
deriving DecidableEq

namespace LockManager

def create (waitTimeoutMs : UInt32) : LockManager := ⟨∅, ∅, waitTimeoutMs⟩

section Access
variable (m : LockManager)

/-- The mode in which the transaction is recorded as holding the target. -/
def held (xid : TransactionId) (target : LockTarget) : Option LockMode :=
  m.txnLocks[xid]?.bind fun tls => tls.held[target]?

/-- The waiting mark. -/
def waiting (xid : TransactionId) (target : LockTarget) : Option LockMode :=
  m.txnLocks[xid]?.bind fun tls => tls.waiting[target]?

/-- `key_states_[target]` -/
def keyState (target : LockTarget) : KeyLockState := m.keyStates[target]?.getD .create

/-- `txn_locks_[xid]` -/
def lockSet (xid : TransactionId) : TransactionLockSet := m.txnLocks[xid]?.getD ⟨∅, ∅⟩

def setLockSet (xid : TransactionId) (tls : TransactionLockSet) : LockManager :=
  { m with txnLocks := m.txnLocks.insert xid tls }

def setKeyState (target : LockTarget) (ks : KeyLockState) : LockManager :=
  { m with keyStates := m.keyStates.insert target ks }

/-- An entry without holdings and waiting marks goes. -/
def storeLockSet (xid : TransactionId) (tls : TransactionLockSet) : LockManager :=
  if tls.held.isEmpty && tls.waiting.isEmpty then { m with txnLocks := m.txnLocks.erase xid }
  else m.setLockSet xid tls

/-- An entry of a free target goes. -/
def storeKeyState (target : LockTarget) (ks : KeyLockState) : LockManager :=
  if ks.isFree then { m with keyStates := m.keyStates.erase target } else m.setKeyState target ks

def releaseLocked (xid : TransactionId) (target : LockTarget) (mode : LockMode) : LockManager :=
  match m.keyStates[target]?, m.txnLocks[xid]? with
  | some ks, some tls =>
    if tls.held[target]? = some mode then
      (m.storeLockSet xid { tls with held := tls.held.erase target }).storeKeyState target
        (ks.drop mode)
    else m
  | _, _ => m

/-- Shared: nobody holds the target exclusively. Exclusive: nobody holds it. -/
def canGrant (target : LockTarget) (mode : LockMode) : Bool :=
  match m.keyStates[target]? with
  | none => true
  | some ks =>
    match mode with
    | .shared => !ks.hasExclusive
    | .exclusive => ks.isFree

def grant (xid : TransactionId) (target : LockTarget) (mode : LockMode) : LockManager :=
  let tls := m.lockSet xid
  (m.setKeyState target ((m.keyState target).take xid mode)).setLockSet xid
    { held := tls.held.insert target mode, waiting := tls.waiting.erase target }

/-- One round of the wait loop, `elapsed` milliseconds after the call. The count of shared holders
is an `int`, and its overflow has no defined behaviour. -/
def attempt (xid : TransactionId) (target : LockTarget) (mode : LockMode) (elapsed : Nat) :
    Option (LockOutcome × LockManager) :=
  if m.canGrant target mode then
    if mode = .shared ∧ (m.keyState target).sharedCount = 2 ^ 31 - 1 then none
    else some (.granted, m.grant xid target mode)
  else
    let tls := m.lockSet xid
    let marked := { tls with waiting := tls.waiting.insert target mode }
    if m.waitTimeoutMs ≠ 0 ∧ m.waitTimeoutMs.toNat ≤ elapsed then
      let cleared := { marked with waiting := marked.waiting.erase target }
      some (.throws (.runtimeError (str "lock acquire timeout on " ++ target.name)),
        m.storeLockSet xid cleared)
    else some (.waits, m.setLockSet xid marked)

/-- The call up to its first wait. -/
def acquire (xid : TransactionId) (target : LockTarget) (mode : LockMode) (elapsed : Nat) :
    Option (LockOutcome × LockManager) :=
  match m.held xid target with
  | some .shared =>
    if mode = .exclusive then
      some (.throws (.runtimeError (str "lock upgrade not supported: shared→exclusive")), m)
    else some (.granted, m)
  | some .exclusive => some (.granted, m)
  | none => m.attempt xid target mode elapsed

def releaseAll (xid : TransactionId) : LockManager :=
  match m.txnLocks[xid]? with
  | none => m
  | some tls => tls.held.toList.foldl (fun m p => m.releaseLocked xid p.1 p.2) m

end Access

/-! ### What each part changes -/

variable {m : LockManager} {xid x : TransactionId} {target t : LockTarget} {mode : LockMode}

theorem held_lockSet (m : LockManager) (xid : TransactionId) (t : LockTarget) :
    (m.lockSet xid).held[t]? = m.held xid t := by
  rw [lockSet, held]
  cases m.txnLocks[xid]? <;> simp

theorem waiting_lockSet (m : LockManager) (xid : TransactionId) (t : LockTarget) :
    (m.lockSet xid).waiting[t]? = m.waiting xid t := by
  rw [lockSet, waiting]
  cases m.txnLocks[xid]? <;> simp

theorem held_setLockSet (m : LockManager) (xid x : TransactionId) (tls : TransactionLockSet)
    (t : LockTarget) :
    (m.setLockSet xid tls).held x t = if x = xid then tls.held[t]? else m.held x t := by
  simp only [setLockSet, held]
  by_cases hx : x = xid
  · subst hx
    simp
  · have hne : ¬ xid = x := fun h => hx h.symm
    simp [Std.ExtTreeMap.getElem?_insert, hne, hx]

theorem waiting_setLockSet (m : LockManager) (xid x : TransactionId) (tls : TransactionLockSet)
    (t : LockTarget) :
    (m.setLockSet xid tls).waiting x t = if x = xid then tls.waiting[t]? else m.waiting x t := by
  simp only [setLockSet, waiting]
  by_cases hx : x = xid
  · subst hx
    simp
  · have hne : ¬ xid = x := fun h => hx h.symm
    simp [Std.ExtTreeMap.getElem?_insert, hne, hx]

theorem held_storeLockSet (m : LockManager) (xid x : TransactionId) (tls : TransactionLockSet)
    (t : LockTarget) :
    (m.storeLockSet xid tls).held x t = if x = xid then tls.held[t]? else m.held x t := by
  rw [storeLockSet]
  split
  case isTrue he =>
    rw [Bool.and_eq_true, Std.ExtTreeMap.isEmpty_iff, Std.ExtTreeMap.isEmpty_iff] at he
    by_cases hx : x = xid
    · subst hx
      simp [held, he.1]
    · have hne : ¬ xid = x := fun h => hx h.symm
      simp [held, Std.ExtTreeMap.getElem?_erase, hne, hx]
  case isFalse => exact held_setLockSet m xid x tls t

theorem waiting_storeLockSet (m : LockManager) (xid x : TransactionId) (tls : TransactionLockSet)
    (t : LockTarget) :
    (m.storeLockSet xid tls).waiting x t = if x = xid then tls.waiting[t]? else m.waiting x t := by
  rw [storeLockSet]
  split
  case isTrue he =>
    rw [Bool.and_eq_true, Std.ExtTreeMap.isEmpty_iff, Std.ExtTreeMap.isEmpty_iff] at he
    by_cases hx : x = xid
    · subst hx
      simp [waiting, he.2]
    · have hne : ¬ xid = x := fun h => hx h.symm
      simp [waiting, Std.ExtTreeMap.getElem?_erase, hne, hx]
  case isFalse => exact waiting_setLockSet m xid x tls t

@[simp] theorem keyStates_storeLockSet (m : LockManager) (xid : TransactionId)
    (tls : TransactionLockSet) : (m.storeLockSet xid tls).keyStates = m.keyStates := by
  rw [storeLockSet]
  split <;> rfl

@[simp] theorem txnLocks_storeKeyState (m : LockManager) (target : LockTarget) (ks : KeyLockState) :
    (m.storeKeyState target ks).txnLocks = m.txnLocks := by
  rw [storeKeyState]
  split <;> rfl

theorem getElem?_setKeyState (m : LockManager) (ks : KeyLockState) (target t : LockTarget) :
    (m.setKeyState target ks).keyStates[t]? =
      if t = target then some ks else m.keyStates[t]? := by
  simp only [setKeyState, Std.ExtTreeMap.getElem?_insert, Std.LawfulEqCmp.compare_eq_iff_eq,
    eq_comm (a := t)]

theorem getElem?_storeKeyState (m : LockManager) (ks : KeyLockState) (target t : LockTarget) :
    (m.storeKeyState target ks).keyStates[t]? =
      if t = target then if ks.isFree then none else some ks else m.keyStates[t]? := by
  rw [storeKeyState]
  split
  case isTrue =>
    simp only [Std.ExtTreeMap.getElem?_erase, Std.LawfulEqCmp.compare_eq_iff_eq, eq_comm (a := t)]
  case isFalse => exact getElem?_setKeyState m ks target t

/-! ### Granting and marking -/

section Grant
variable (m : LockManager) (xid x : TransactionId) (target t : LockTarget) (mode : LockMode)

theorem held_grant : (m.grant xid target mode).held x t =
    if x = xid ∧ t = target then some mode else m.held x t := by
  rw [grant, held_setLockSet]
  by_cases hx : x = xid
  · subst hx
    rw [if_pos rfl]
    by_cases ht : t = target
    · subst ht
      simp
    · have hne : ¬ target = t := fun h => ht h.symm
      simp [Std.ExtTreeMap.getElem?_insert, hne, ht, held_lockSet]
  · rw [if_neg hx, if_neg fun h => hx h.1]
    rfl

theorem waiting_grant : (m.grant xid target mode).waiting x t =
    if x = xid ∧ t = target then none else m.waiting x t := by
  rw [grant, waiting_setLockSet]
  by_cases hx : x = xid
  · subst hx
    rw [if_pos rfl]
    by_cases ht : t = target
    · subst ht
      simp
    · have hne : ¬ target = t := fun h => ht h.symm
      simp [Std.ExtTreeMap.getElem?_erase, hne, ht, waiting_lockSet]
  · rw [if_neg hx, if_neg fun h => hx h.1]
    rfl

theorem getElem?_grant : (m.grant xid target mode).keyStates[t]? =
    if t = target then some ((m.keyState target).take xid mode) else m.keyStates[t]? :=
  getElem?_setKeyState m _ target t

end Grant

/-! ### One target -/

end LockManager

namespace KeyLockState

/-- The state of a target records its holders, and nobody shares an exclusive holding. -/
structure Agrees (ks : KeyLockState) (held : TransactionId → Option LockMode) : Prop where
  shared : ks.sharedCount = {x | held x = some .shared}.ncard
  exclusive : ∀ x, held x = some .exclusive ↔ ks.hasExcl = true ∧ ks.exclusiveXid = x
  alone : ks.hasExcl = true → ks.sharedCount = 0

theorem agrees_create : create.Agrees fun _ => none where
  shared := by simp [create]
  exclusive x := by simp [create]
  alone h := by cases h

namespace Agrees
variable {ks : KeyLockState} {held : TransactionId → Option LockMode} {xid x y : TransactionId}
  {mode : LockMode}

theorem not_exclusive (h : ks.Agrees held) (hexcl : ks.hasExcl = false) (x : TransactionId) :
    held x ≠ some .exclusive := fun hx => by
  rw [((h.exclusive x).mp hx).1] at hexcl
  cases hexcl

theorem not_shared (h : ks.Agrees held) (hcount : ks.sharedCount ≤ 0) (x : TransactionId) :
    held x ≠ some .shared := fun hx => by
  have hempty : {x | held x = some .shared} = ∅ := by
    rw [h.shared] at hcount
    exact (Set.ncard_eq_zero (Set.toFinite _)).mp (by omega)
  have hmem : x ∈ {x | held x = some .shared} := hx
  rw [hempty] at hmem
  cases hmem

/-- An exclusive holder is the only holder. -/
theorem eq_of_exclusive (h : ks.Agrees held) (hx : held x = some .exclusive) (hy : held y ≠ none) :
    x = y := by
  obtain ⟨hexcl, hxid⟩ := (h.exclusive x).mp hx
  obtain ⟨md, hmd⟩ := Option.ne_none_iff_exists'.mp hy
  cases md with
  | exclusive => exact hxid.symm.trans ((h.exclusive y).mp hmd).2
  | shared => exact absurd hmd (h.not_shared (h.alone hexcl).le y)

theorem isFree_iff (h : ks.Agrees held) : ks.isFree = true ↔ ∀ x, held x = none := by
  rw [isFree, Bool.and_eq_true, Bool.not_eq_true', Bool.not_eq_true']
  constructor
  · rintro ⟨hshared, hexcl⟩ x
    have hcount : ¬ 0 < ks.sharedCount := of_decide_eq_false hshared
    cases hx : held x with
    | none => rfl
    | some md =>
      cases md with
      | shared => exact absurd hx (h.not_shared (by omega) x)
      | exclusive => exact absurd hx (h.not_exclusive hexcl x)
  · intro hnone
    refine ⟨decide_eq_false ?_, ?_⟩
    · rw [h.shared]
      simp [hnone]
    · rw [hasExclusive, Bool.eq_false_iff]
      intro hexcl
      have hheld := (h.exclusive ks.exclusiveXid).mpr ⟨hexcl, rfl⟩
      rw [hnone] at hheld
      cases hheld

/-- A free state can be forgotten. -/
theorem create_of_isFree (h : ks.Agrees held) (hfree : ks.isFree = true) : create.Agrees held := by
  have hnone : held = fun _ => none := funext (h.isFree_iff.mp hfree)
  rw [hnone]
  exact agrees_create

theorem take_shared (h : ks.Agrees held) (hnone : held xid = none) (hexcl : ks.hasExcl = false) :
    (ks.take xid .shared).Agrees (Function.update held xid (some .shared)) where
  shared := by
    have hset : {x | Function.update held xid (some .shared) x = some .shared} =
        insert xid {x | held x = some .shared} := by
      ext x
      by_cases hx : x = xid
      · simp [hx]
      · simp [hx]
    have hout : xid ∉ {x | held x = some .shared} := by simp [hnone]
    have hcount : (ks.take xid .shared).sharedCount = ks.sharedCount + 1 := rfl
    rw [hset, Set.ncard_insert_of_notMem hout (Set.toFinite _), hcount, h.shared]
    omega
  exclusive x := by
    rw [take, hexcl]
    by_cases hx : x = xid
    · simp [hx]
    · simp [Function.update_of_ne hx, h.not_exclusive hexcl x]
  alone he := by
    rw [take, hexcl] at he
    cases he

theorem take_exclusive (h : ks.Agrees held) (hfree : ks.isFree = true) :
    (ks.take xid .exclusive).Agrees (Function.update held xid (some .exclusive)) := by
  have hnone := h.isFree_iff.mp hfree
  have hcount : ks.sharedCount = 0 := by
    rw [h.shared]
    simp [hnone]
  refine ⟨?_, fun x => ?_, fun _ => hcount⟩
  · have hset : {x | Function.update held xid (some .exclusive) x = some .shared} = ∅ := by
      ext x
      by_cases hx : x = xid
      · simp [hx]
      · simp [Function.update_of_ne hx, hnone]
    rw [hset, take, hcount, Set.ncard_empty]
    rfl
  · by_cases hx : x = xid
    · simp [hx, take]
    · simp [Function.update_of_ne hx, hnone, take, Ne.symm hx]

theorem drop (h : ks.Agrees held) (hheld : held xid = some mode) :
    (ks.drop mode).Agrees (Function.update held xid none) := by
  cases mode with
  | shared =>
    have hexcl : ks.hasExcl = false := by
      rw [Bool.eq_false_iff]
      exact fun he => h.not_shared (h.alone he).le xid hheld
    refine ⟨?_, fun x => ?_, fun he => ?_⟩
    · have hset : {x | Function.update held xid none x = some .shared} =
          {x | held x = some .shared} \ {xid} := by
        ext x
        by_cases hx : x = xid
        · simp [hx]
        · simp [hx]
      have hmem : xid ∈ {x | held x = some .shared} := hheld
      have hpos := Set.ncard_pos (Set.toFinite _) |>.mpr ⟨xid, hmem⟩
      have hcount : (ks.drop .shared).sharedCount = ks.sharedCount - 1 := rfl
      rw [hset, Set.ncard_sdiff_singleton_of_mem hmem, hcount, h.shared]
      omega
    · rw [KeyLockState.drop, hexcl]
      by_cases hx : x = xid
      · simp [hx]
      · simp [Function.update_of_ne hx, h.not_exclusive hexcl x]
    · rw [KeyLockState.drop, hexcl] at he
      cases he
  | exclusive =>
    obtain ⟨hexcl, -⟩ := (h.exclusive xid).mp hheld
    have hnone : Function.update held xid none = fun _ => none := by
      funext x
      by_cases hx : x = xid
      · simp [hx]
      · rw [Function.update_of_ne hx]
        by_contra hne
        exact hx (h.eq_of_exclusive hheld hne).symm
    rw [hnone]
    refine ⟨?_, fun x => ?_, fun he => by cases he⟩
    · rw [KeyLockState.drop, h.alone hexcl]
      simp
    · simp [KeyLockState.drop]

end Agrees
end KeyLockState

end JiaMiaoDB
