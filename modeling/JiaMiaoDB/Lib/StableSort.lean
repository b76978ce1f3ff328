import Mathlib.Data.List.Basic

/-!
# Stable sorting by a strict weak order

The order is one on the elements of the list only, which is all that a sort asks of its comparator.
-/

set_option autoImplicit false

namespace StableSort

universe u v
variable {α : Type u} {β : Type v} {less : α → α → Bool} {l : List α} {a b c : α}

structure StrictWeakOn (less : α → α → Bool) (l : List α) : Prop where
  irrefl : ∀ a ∈ l, less a a = false
  trans : ∀ a ∈ l, ∀ b ∈ l, ∀ c ∈ l, less a b = true → less b c = true → less a c = true
  incomparable : ∀ a ∈ l, ∀ b ∈ l, ∀ c ∈ l, less a b = false → less b a = false →
    less b c = false → less c b = false → less a c = false ∧ less c a = false

instance : Decidable (StrictWeakOn less l) :=
  decidable_of_iff
    ((∀ a ∈ l, less a a = false) ∧
      (∀ a ∈ l, ∀ b ∈ l, ∀ c ∈ l, less a b = true → less b c = true → less a c = true) ∧
      ∀ a ∈ l, ∀ b ∈ l, ∀ c ∈ l, less a b = false → less b a = false →
        less b c = false → less c b = false → less a c = false ∧ less c a = false)
    ⟨fun h => ⟨h.1, h.2.1, h.2.2⟩, fun h => ⟨h.irrefl, h.trans, h.incomparable⟩⟩

/-- Neither is below the other. -/
def equivalent (less : α → α → Bool) (a b : α) : Bool := !less a b && !less b a

theorem equivalent_iff : equivalent less a b = true ↔ less a b = false ∧ less b a = false := by
  rw [equivalent, Bool.and_eq_true, Bool.not_eq_true', Bool.not_eq_true']

/-- The list in order, with equivalent elements as they stood. -/
structure StablySorted (less : α → α → Bool) (l sorted : List α) : Prop where
  perm : sorted.Perm l
  ordered : sorted.Pairwise fun a b => less b a = false
  stable : ∀ c ∈ l, sorted.filter (equivalent less c) = l.filter (equivalent less c)

/-- The sort takes an element behind another one unless it is below it. -/
def stableSort (less : α → α → Bool) (l : List α) : List α := l.mergeSort fun a b => !less b a

namespace StrictWeakOn

theorem asymm (h : StrictWeakOn less l) (ha : a ∈ l) (hb : b ∈ l) (hab : less a b = true) :
    less b a = false := by
  by_contra hba
  rw [Bool.not_eq_false] at hba
  have haa := h.trans a ha b hb a ha hab hba
  rw [h.irrefl a ha] at haa
  cases haa

/-- Not being below is transitive. -/
theorem le_trans (h : StrictWeakOn less l) (ha : a ∈ l) (hb : b ∈ l) (hc : c ∈ l)
    (hab : less b a = false) (hbc : less c b = false) : less c a = false := by
  by_contra hca
  rw [Bool.not_eq_false] at hca
  have hab' : less a b = false := by
    by_contra hlt
    rw [h.trans c hc a ha b hb hca (Bool.not_eq_false _ ▸ hlt)] at hbc
    cases hbc
  have hbc' : less b c = false := by
    by_contra hlt
    rw [h.trans b hb c hc a ha (Bool.not_eq_false _ ▸ hlt) hca] at hab
    cases hab
  have hnone := (h.incomparable a ha b hb c hc hab' hab hbc' hbc).2
  rw [hnone] at hca
  cases hca

theorem flip (h : StrictWeakOn less l) : StrictWeakOn (fun a b => less b a) l where
  irrefl := h.irrefl
  trans a ha b hb c hc hab hbc := h.trans c hc b hb a ha hbc hab
  incomparable a ha b hb c hc hab hba hbc hcb :=
    (h.incomparable a ha b hb c hc hba hab hcb hbc).symm

/-- An order that a key decides. -/
theorem of_key (cmp : β → β → Ordering) [Std.TransCmp cmp] (key : α → β)
    (h : ∀ a ∈ l, ∀ b ∈ l, less a b = decide (cmp (key a) (key b) = .lt)) :
    StrictWeakOn less l where
  irrefl a ha := by
    have hself : cmp (key a) (key a) = .eq := Std.ReflCmp.compare_self
    rw [h a ha a ha, hself]
    rfl
  trans a ha b hb c hc hab hbc := by
    rw [h a ha b hb, decide_eq_true_eq] at hab
    rw [h b hb c hc, decide_eq_true_eq] at hbc
    rw [h a ha c hc, decide_eq_true_eq]
    exact Std.TransCmp.lt_trans hab hbc
  incomparable a ha b hb c hc hab hba hbc hcb := by
    have heq : ∀ {x y}, x ∈ l → y ∈ l → less x y = false → less y x = false →
        cmp (key x) (key y) = .eq := by
      intro x y hx hy hxy hyx
      rw [h x hx y hy, decide_eq_false_iff_not] at hxy
      rw [h y hy x hx, decide_eq_false_iff_not, ← Std.OrientedCmp.gt_iff_lt] at hyx
      cases hcmp : cmp (key x) (key y) with
      | lt => exact absurd hcmp hxy
      | eq => rfl
      | gt => exact absurd hcmp hyx
    have hac := Std.TransCmp.eq_trans (heq ha hb hab hba) (heq hb hc hbc hcb)
    rw [h a ha c hc, h c hc a ha, hac, Std.OrientedCmp.eq_symm hac]
    exact ⟨rfl, rfl⟩

end StrictWeakOn

/-- The sort of the list with each element known to be in it. -/
theorem stableSort_attach (less : α → α → Bool) (l : List α) :
    stableSort less l =
      (l.attach.mergeSort fun a b => !less b.val a.val).map Subtype.val := by
  rw [List.map_mergeSort (s := fun a b => !less b a) fun _ _ _ _ => rfl, List.attach_map_subtype_val]
  rfl

section
variable (h : StrictWeakOn less l)
include h

/-- On the elements of the list the sort's order is transitive and total. -/
theorem attach_trans (a b c : {x // x ∈ l}) (hab : (!less b.val a.val) = true)
    (hbc : (!less c.val b.val) = true) : (!less c.val a.val) = true := by
  rw [Bool.not_eq_true'] at hab hbc ⊢
  exact h.le_trans a.2 b.2 c.2 hab hbc

theorem attach_total (a b : {x // x ∈ l}) :
    ((!less b.val a.val) || (!less a.val b.val)) = true := by
  rw [Bool.or_eq_true, Bool.not_eq_true', Bool.not_eq_true']
  by_cases hba : less b.val a.val = true
  · exact .inr (h.asymm b.2 a.2 hba)
  · exact .inl (Bool.eq_false_iff.2 hba)

theorem ordered_stableSort : (stableSort less l).Pairwise fun a b => less b a = false := by
  rw [stableSort_attach, List.pairwise_map]
  apply (List.pairwise_mergeSort (attach_trans h) (attach_total h) l.attach).imp
  intro a b hab
  rwa [Bool.not_eq_true'] at hab

/-- A sublist that is in order stays a sublist. -/
theorem sublist_stableSort {ys : List α} (hys : ys.Pairwise fun a b => less b a = false)
    (hsub : ys.Sublist l) : ys.Sublist (stableSort less l) := by
  rw [← List.attach_map_subtype_val l, List.sublist_map_iff] at hsub
  obtain ⟨zs, hzs, rfl⟩ := hsub
  rw [List.pairwise_map] at hys
  rw [stableSort_attach]
  apply List.Sublist.map
  apply List.sublist_mergeSort (attach_trans h) (attach_total h) _ hzs
  apply hys.imp
  intro a b hab
  rwa [Bool.not_eq_true']

theorem stable_stableSort (hc : c ∈ l) :
    (stableSort less l).filter (equivalent less c) = l.filter (equivalent less c) := by
  have hperm : (stableSort less l).Perm l := List.mergeSort_perm l _
  have hordered : (l.filter (equivalent less c)).Pairwise fun a b => less b a = false := by
    apply List.pairwise_of_forall_mem_list
    intro a ha b hb
    obtain ⟨ha, hca⟩ := List.mem_filter.1 ha
    obtain ⟨hb, hcb⟩ := List.mem_filter.1 hb
    exact h.le_trans ha hc hb (equivalent_iff.1 hca).1 (equivalent_iff.1 hcb).2
  have hsub := (sublist_stableSort h hordered List.filter_sublist).filter (equivalent less c)
  simp only [List.filter_filter, Bool.and_self] at hsub
  exact (hsub.eq_of_length (hperm.filter _).length_eq.symm).symm

/-- A strict weak order makes the sort stable. -/
theorem stablySorted : StablySorted less l (stableSort less l) where
  perm := List.mergeSort_perm l _
  ordered := ordered_stableSort h
  stable _ hc := stable_stableSort h hc

end

end StableSort
