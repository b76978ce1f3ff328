import Mathlib.Data.List.Nodup
import Mathlib.Data.List.TakeWhile

/-!
# Linked lists in a store

`Chain next p xs q` says that following `next` from the pointer `p` visits `xs` and then stands at
`q`. A list that ends is a chain to null.
-/

set_option autoImplicit false

variable {α : Type} {next next' : α → Option α} {p q r : Option α} {xs ys : List α} {x y : α}

def Chain (next : α → Option α) : Option α → List α → Option α → Prop
  | p, [], q => p = q
  | p, x :: xs, q => p = some x ∧ Chain next (next x) xs q

namespace Chain

@[simp] theorem nil_iff : Chain next p [] q ↔ p = q := Iff.rfl

@[simp] theorem cons_iff :
    Chain next p (x :: xs) q ↔ p = some x ∧ Chain next (next x) xs q := Iff.rfl

theorem append_iff : Chain next p (xs ++ ys) q ↔ ∃ r, Chain next p xs r ∧ Chain next r ys q := by
  induction xs generalizing p with
  | nil => simp
  | cons x xs ih =>
    rw [List.cons_append, cons_iff, ih]
    constructor
    · rintro ⟨hp, r, hxs, hys⟩
      exact ⟨r, ⟨hp, hxs⟩, hys⟩
    · rintro ⟨r, ⟨hp, hxs⟩, hys⟩
      exact ⟨hp, r, hxs, hys⟩

theorem append (h : Chain next p xs r) (h' : Chain next r ys q) : Chain next p (xs ++ ys) q :=
  append_iff.mpr ⟨r, h, h'⟩

/-- Only the links of the visited places matter. -/
theorem congr (h : Chain next p xs q) (hnext : ∀ x ∈ xs, next' x = next x) :
    Chain next' p xs q := by
  induction xs generalizing p with
  | nil => exact h
  | cons x xs ih =>
    refine ⟨h.1, ?_⟩
    rw [hnext x List.mem_cons_self]
    exact ih h.2 fun y hy => hnext y (List.mem_cons_of_mem x hy)

/-- A pointer to the first of the visited places, or the end. -/
theorem start (h : Chain next p xs q) : p = xs.head?.or q := by
  cases xs with
  | nil => exact h
  | cons x xs => exact h.1

/-- A list that ends is determined by its start. -/
theorem unique (h : Chain next p xs none) (h' : Chain next p ys none) : xs = ys := by
  induction xs generalizing p ys with
  | nil =>
    cases ys with
    | nil => rfl
    | cons y ys => exact absurd (h.symm.trans h'.1) (by simp)
  | cons x xs ih =>
    cases ys with
    | nil => exact absurd (h'.symm.trans h.1) (by simp)
    | cons y ys =>
      obtain rfl : x = y := Option.some.inj (h.1.symm.trans h'.1)
      rw [ih h.2 h'.2]

/-- A list that ends visits no place twice. -/
theorem nodup (h : Chain next p xs none) : xs.Nodup := by
  induction xs generalizing p with
  | nil => exact List.nodup_nil
  | cons x xs ih =>
    refine List.nodup_cons.mpr ⟨fun hx => ?_, ih h.2⟩
    obtain ⟨as, bs, rfl⟩ := List.append_of_mem hx
    obtain ⟨r, -, hr⟩ := append_iff.mp h.2
    -- The part from the second visit on would be as long as the whole list.
    have hlen := congrArg List.length (unique h.2 hr.2)
    simp at hlen
    omega

end Chain

/-! ### Walking along a list -/

/-- `while (p != nullptr && c(p)) p = next(p)`: what is passed, and where the loop stops. -/
def walk (next : α → Option α) (c : α → Bool) : Nat → Option α → List α × Option α
  | 0, p => ([], p)
  | _ + 1, none => ([], none)
  | fuel + 1, some x =>
    if c x then
      let (passed, stop) := walk next c fuel (next x)
      (x :: passed, stop)
    else ([], some x)

/-- With enough fuel the loop passes the places up to the first one that fails the test. -/
theorem walk_eq {c : α → Bool} {fuel : Nat} (h : Chain next p xs none) (hf : xs.length ≤ fuel) :
    walk next c fuel p = (xs.takeWhile c, (xs.dropWhile c).head?) := by
  induction xs generalizing p fuel with
  | nil =>
    obtain rfl : p = none := h
    cases fuel <;> rfl
  | cons x xs ih =>
    obtain ⟨rfl, h⟩ := h
    rw [List.length_cons] at hf
    obtain ⟨fuel, rfl⟩ : ∃ n, fuel = n + 1 := ⟨fuel - 1, by omega⟩
    rw [walk]
    by_cases hc : c x
    · rw [if_pos hc, ih h (by omega), List.takeWhile_cons_of_pos hc, List.dropWhile_cons_of_pos hc]
    · rw [if_neg hc, List.takeWhile_cons_of_neg hc, List.dropWhile_cons_of_neg hc]
      rfl

/-! ### Sorted lists -/

section Sorted
variable {r : α → α → Prop} {c : α → Bool}

/-- When the places that pass the test come first, a loop that stops at the first failure passes
all of them. -/
theorem takeWhile_of_sorted (h : xs.Pairwise r) (hc : ∀ a b, r a b → c b = true → c a = true) :
    xs.takeWhile c = xs.filter c := by
  induction xs with
  | nil => rfl
  | cons x xs ih =>
    obtain ⟨hx, hxs⟩ := List.pairwise_cons.mp h
    by_cases hcx : c x = true
    · rw [List.takeWhile_cons_of_pos hcx, List.filter_cons_of_pos hcx, ih hxs]
    · rw [List.takeWhile_cons_of_neg hcx, List.filter_cons_of_neg hcx]
      exact (List.filter_eq_nil_iff.mpr fun y hy hcy => hcx (hc x y (hx y hy) hcy)).symm

theorem dropWhile_of_sorted (h : xs.Pairwise r) (hc : ∀ a b, r a b → c b = true → c a = true) :
    xs.dropWhile c = xs.filter fun x => !c x := by
  induction xs with
  | nil => rfl
  | cons x xs ih =>
    obtain ⟨hx, hxs⟩ := List.pairwise_cons.mp h
    by_cases hcx : c x = true
    · rw [List.dropWhile_cons_of_pos hcx, List.filter_cons_of_neg (by simp [hcx]), ih hxs]
    · rw [List.dropWhile_cons_of_neg hcx]
      refine (List.filter_eq_self.mpr fun y hy => ?_).symm
      rcases List.mem_cons.mp hy with rfl | hy
      · simpa using hcx
      · simpa using fun hcy => hcx (hc x y (hx y hy) hcy)

end Sorted
