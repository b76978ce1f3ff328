import Mathlib.Logic.Relation
import Mathlib.Order.Defs.PartialOrder

/-!
# Locks held in scopes

A procedure takes its locks in nested scopes, and the lock of a scope is given back when the scope is
left, also by an exception. A thread is a stack of what it still has to run and of the locks it still
has to give back. Where every lock has a higher rank than those of the scopes around it, no threads
wait for each other in a circle. Which locks are granted when does not matter for that.
-/

set_option autoImplicit false

namespace ScopedLocks

/-- What a procedure locks, and in which modes. What its data decide is left open. -/
inductive Scoped (L M : Type) where
  | done
  | guard (lock : L) (mode : M) (body : Scoped L M)
  | andThen (first second : Scoped L M)
  | either (left right : Scoped L M)
  | repeated (body : Scoped L M)

/-- A handle stands for a lock that is taken. -/
inductive Frame (L M H : Type) where
  | run (p : Scoped L M)
  | wait (lock : L) (mode : M) (handle : H) (body : Scoped L M)
  | release (lock : L) (mode : M) (handle : H)

variable {L M H R : Type}

namespace Frame

def held : Frame L M H → Option L
  | release l _ _ => some l
  | _ => none

def isRelease : Frame L M H → Bool
  | release .. => true
  | _ => false

end Frame

/-- The locks that are to be given back. -/
def held (stack : List (Frame L M H)) : List L := stack.filterMap Frame.held

/-- The lock that comes next, or that is waited for. -/
def wanted : List (Frame L M H) → Option L
  | .run (.guard l _ _) :: _ => some l
  | .wait l _ _ _ :: _ => some l
  | _ => none

/-- Steps between two locks. -/
inductive Quiet : List (Frame L M H) → List (Frame L M H) → Prop
  | done {K : List (Frame L M H)} : Quiet (.run .done :: K) K
  | andThen {p q : Scoped L M} {K : List (Frame L M H)} :
    Quiet (.run (.andThen p q) :: K) (.run p :: .run q :: K)
  | left {p q : Scoped L M} {K : List (Frame L M H)} : Quiet (.run (.either p q) :: K) (.run p :: K)
  | right {p q : Scoped L M} {K : List (Frame L M H)} : Quiet (.run (.either p q) :: K) (.run q :: K)
  | leave {p : Scoped L M} {K : List (Frame L M H)} : Quiet (.run (.repeated p) :: K) K
  | again {p : Scoped L M} {K : List (Frame L M H)} :
    Quiet (.run (.repeated p) :: K) (.run p :: .run (.repeated p) :: K)

/-- An exception leaves all scopes, one after the other. -/
def unwind (K : List (Frame L M H)) : List (Frame L M H) := K.filter Frame.isRelease

/-- What becomes of a thread in one step, whatever the other threads do. -/
inductive Move : List (Frame L M H) → List (Frame L M H) → Prop
  | quiet {K K' : List (Frame L M H)} : Quiet K K' → Move K K'
  | enter {l : L} {m : M} (h : H) {p : Scoped L M} {K : List (Frame L M H)} :
    Move (.run (.guard l m p) :: K) (.run p :: .release l m h :: K)
  | suspend {l : L} {m : M} (h : H) {p : Scoped L M} {K : List (Frame L M H)} :
    Move (.run (.guard l m p) :: K) (.wait l m h p :: K)
  | resume {l : L} {m : M} {h : H} {p : Scoped L M} {K : List (Frame L M H)} :
    Move (.wait l m h p :: K) (.run p :: .release l m h :: K)
  | stay {K : List (Frame L M H)} : Move K K
  | throw {f : Frame L M H} {K : List (Frame L M H)} : f.isRelease = false → Move (f :: K) (unwind K)
  | release {l : L} {m : M} {h : H} {K : List (Frame L M H)} : Move (.release l m h :: K) K

/-! ### Increasing ranks -/

section Rank
variable [Preorder R] (rank : L → R)

/-- Each lock of the procedure ranks above the locks that are held when it is taken. -/
def Scoped.Respects : Scoped L M → List L → Prop
  | done, _ => True
  | guard l _ p, ls => (∀ l' ∈ ls, rank l' < rank l) ∧ p.Respects (l :: ls)
  | andThen p q, ls => p.Respects ls ∧ q.Respects ls
  | either p q, ls => p.Respects ls ∧ q.Respects ls
  | repeated p, ls => p.Respects ls

def Scoped.decidableRespects [DecidableLT R] :
    (p : Scoped L M) → (ls : List L) → Decidable (p.Respects rank ls)
  | .done, _ => .isTrue trivial
  | .guard l _ p, ls =>
    have := p.decidableRespects (l :: ls)
    inferInstanceAs (Decidable ((∀ l' ∈ ls, rank l' < rank l) ∧ p.Respects rank (l :: ls)))
  | .andThen p q, ls =>
    have := p.decidableRespects ls
    have := q.decidableRespects ls
    inferInstanceAs (Decidable (p.Respects rank ls ∧ q.Respects rank ls))
  | .either p q, ls =>
    have := p.decidableRespects ls
    have := q.decidableRespects ls
    inferInstanceAs (Decidable (p.Respects rank ls ∧ q.Respects rank ls))
  | .repeated p, ls => p.decidableRespects ls

instance [DecidableLT R] (p : Scoped L M) (ls : List L) : Decidable (p.Respects rank ls) :=
  p.decidableRespects rank ls

def Ordered : List (Frame L M H) → Prop
  | [] => True
  | .run p :: K => p.Respects rank (held K) ∧ Ordered K
  | .wait l m _ p :: K => (Scoped.guard l m p).Respects rank (held K) ∧ Ordered K
  | .release _ _ _ :: K => Ordered K

variable {rank}

/-- Only the ranks of what is held matter. -/
theorem Scoped.Respects.mono {p : Scoped L M} {ls ls' : List L}
    (hls : ∀ l' ∈ ls', ∃ l ∈ ls, rank l' ≤ rank l) (h : p.Respects rank ls) :
    p.Respects rank ls' := by
  induction p generalizing ls ls' with
  | done => trivial
  | guard l m p ih =>
    refine ⟨?_, ih ?_ h.2⟩
    · intro l' hl'
      obtain ⟨k, hk, hle⟩ := hls l' hl'
      exact lt_of_le_of_lt hle (h.1 k hk)
    · intro l' hl'
      rcases List.mem_cons.1 hl' with rfl | hl'
      · exact ⟨l', List.mem_cons_self, le_refl _⟩
      · obtain ⟨k, hk, hle⟩ := hls l' hl'
        exact ⟨k, List.mem_cons_of_mem _ hk, hle⟩
  | andThen p q ihp ihq => exact ⟨ihp hls h.1, ihq hls h.2⟩
  | either p q ihp ihq => exact ⟨ihp hls h.1, ihq hls h.2⟩
  | repeated p ih => exact ih hls h

theorem ordered_unwind (K : List (Frame L M H)) : Ordered rank (unwind K) := by
  induction K with
  | nil => trivial
  | cons f K ih =>
    cases f with
    | release l m h => exact ih
    | run p => exact ih
    | wait l m h p => exact ih

theorem Quiet.ordered {K K' : List (Frame L M H)} (h : Quiet K K') (hK : Ordered rank K) :
    Ordered rank K' := by
  cases h with
  | done => exact hK.2
  | andThen => exact ⟨hK.1.1, hK.1.2, hK.2⟩
  | left => exact ⟨hK.1.1, hK.2⟩
  | right => exact ⟨hK.1.2, hK.2⟩
  | leave => exact hK.2
  | again => exact ⟨hK.1, hK⟩

theorem Move.ordered {K K' : List (Frame L M H)} (h : Move K K') (hK : Ordered rank K) :
    Ordered rank K' := by
  cases h with
  | quiet h => exact h.ordered hK
  | enter => exact ⟨hK.1.2, hK.2⟩
  | suspend => exact hK
  | resume => exact ⟨hK.1.2, hK.2⟩
  | stay => exact hK
  | throw _ => exact ordered_unwind _
  | release => exact hK

theorem Ordered.lt_wanted {K : List (Frame L M H)} (hK : Ordered rank K) {l l' : L}
    (hl : wanted K = some l) (hl' : l' ∈ held K) : rank l' < rank l := by
  unfold wanted at hl
  split at hl
  · cases hl
    exact hK.1.1 l' hl'
  · cases hl
    exact hK.1.1 l' hl'
  · cases hl

end Rank

/-! ### Circles -/

section Circles
variable {I : Type}

def WaitsOn (threads : I → List (Frame L M H)) (i j : I) : Prop :=
  ∃ l, wanted (threads i) = some l ∧ l ∈ held (threads j)

variable [Preorder R] {rank : L → R} {threads : I → List (Frame L M H)} {i j : I}

theorem wanted_lt_of_transGen (hthreads : ∀ i, Ordered rank (threads i))
    (h : Relation.TransGen (WaitsOn threads) i j) {l l' : L} (hl : wanted (threads i) = some l)
    (hl' : wanted (threads j) = some l') : rank l < rank l' := by
  induction h generalizing l' with
  | single hij =>
    obtain ⟨m, hm, hheld⟩ := hij
    cases hl.symm.trans hm
    exact (hthreads _).lt_wanted hl' hheld
  | tail _ hjk ih =>
    obtain ⟨m, hm, hheld⟩ := hjk
    exact lt_trans (ih hm) ((hthreads _).lt_wanted hl' hheld)

/-- No circle of threads, however long. -/
theorem acyclic (hthreads : ∀ i, Ordered rank (threads i)) (i : I) :
    ¬ Relation.TransGen (WaitsOn threads) i i := by
  intro h
  obtain ⟨j, ⟨l, hl, -⟩, -⟩ := Relation.TransGen.head'_iff.1 h
  exact lt_irrefl _ (wanted_lt_of_transGen hthreads h hl hl)

end Circles

end ScopedLocks
