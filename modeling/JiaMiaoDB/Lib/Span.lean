import Mathlib.Algebra.Ring.Nat
import Mathlib.Order.Interval.Finset.Nat

/-! Ranges of addresses that do not overlap. -/

set_option autoImplicit false

structure Span where
  start : Nat
  size : Nat

namespace Span

def stop (r : Span) : Nat := r.start + r.size

/-- The ranges have no address in common. -/
def Apart (r t : Span) : Prop := r.stop ≤ t.start ∨ t.stop ≤ r.start

instance decidableApart : DecidableRel Apart :=
  fun _ _ => inferInstanceAs (Decidable (_ ∨ _))

def Inside (r t : Span) : Prop := t.start ≤ r.start ∧ r.stop ≤ t.stop

/-- The addresses in the ranges. -/
def bytes : List Span → Finset Nat
  | [] => ∅
  | r :: l => Finset.Ico r.start r.stop ∪ bytes l

variable {r t u : Span} {l : List Span} {lo hi : Nat}

theorem Apart.symm (h : r.Apart t) : t.Apart r := Or.symm h

theorem Apart.of_inside (h : t.Apart u) (hr : r.Inside t) : r.Apart u := by
  unfold Apart Inside stop at *
  omega

theorem Inside.refl (r : Span) : r.Inside r := ⟨Nat.le_refl _, Nat.le_refl _⟩

/-- A range with an address in it is not apart from what it is inside of. -/
theorem Inside.not_apart (h : r.Inside t) (hsize : 0 < r.size) : ¬ r.Apart t := by
  unfold Apart Inside stop at *
  omega

theorem pairwise_apart_perm {l' : List Span} (h : l.Perm l') :
    l.Pairwise Apart ↔ l'.Pairwise Apart :=
  h.pairwise_iff Apart.symm

theorem mem_bytes_iff {x : Nat} : x ∈ bytes l ↔ ∃ r ∈ l, r.start ≤ x ∧ x < r.stop := by
  induction l with
  | nil => simp [bytes]
  | cons r l ih => simp [bytes, ih]

theorem card_bytes (h : l.Pairwise Apart) : (bytes l).card = (l.map size).sum := by
  induction h with
  | nil => rfl
  | @cons r l hr _ ih =>
    have hdisjoint : Disjoint (Finset.Ico r.start r.stop) (bytes l) := by
      rw [Finset.disjoint_left]
      intro x hx hxl
      obtain ⟨t, ht, hxt⟩ := mem_bytes_iff.mp hxl
      have happart := hr t ht
      rw [Finset.mem_Ico] at hx
      unfold Apart at happart
      omega
    rw [bytes, Finset.card_union_of_disjoint hdisjoint, ih, Nat.card_Ico, List.map_cons,
      List.sum_cons, stop, Nat.add_sub_cancel_left]

/-- Ranges that are apart fill at most what they lie in. -/
theorem sum_size_le (happart : l.Pairwise Apart) (hin : ∀ r ∈ l, lo ≤ r.start ∧ r.stop ≤ hi) :
    (l.map size).sum ≤ hi - lo := by
  have hsub : bytes l ⊆ Finset.Ico lo hi := by
    intro x hx
    obtain ⟨r, hr, hxr⟩ := mem_bytes_iff.mp hx
    have hbound := hin r hr
    rw [Finset.mem_Ico]
    omega
  rw [← card_bytes happart, ← Nat.card_Ico]
  exact Finset.card_le_card hsub

end Span
