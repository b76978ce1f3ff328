import Mathlib.Data.List.Nodup
import Mathlib.Data.List.TakeWhile

/-! Traces of two threads, each step tagged with its thread, and the order of steps in a trace. -/

set_option autoImplicit false

namespace Interleaving
variable {α β γ : Type}

instance instLawfulBEqSum [BEq α] [BEq β] [LawfulBEq α] [LawfulBEq β] : LawfulBEq (α ⊕ β) where
  rfl {x} := by
    cases x with
    | inl a => exact beq_self_eq_true a
    | inr b => exact beq_self_eq_true b
  eq_of_beq {x y} h := by
    cases x with
    | inl a =>
      cases y with
      | inl b => exact congrArg Sum.inl (eq_of_beq (α := α) h)
      | inr b => cases h
    | inr a =>
      cases y with
      | inl b => cases h
      | inr b => exact congrArg Sum.inr (eq_of_beq (α := β) h)

def lefts (trace : List (α ⊕ β)) : List α := trace.filterMap Sum.getLeft?

def rights (trace : List (α ⊕ β)) : List β := trace.filterMap Sum.getRight?

/-- A trace in which one thread runs `p` and the other one `q`. -/
structure Shuffle (p : List α) (q : List β) (trace : List (α ⊕ β)) : Prop where
  left : lefts trace = p
  right : rights trace = q

@[simp] theorem lefts_append (trace trace' : List (α ⊕ β)) :
    lefts (trace ++ trace') = lefts trace ++ lefts trace' := List.filterMap_append

@[simp] theorem rights_append (trace trace' : List (α ⊕ β)) :
    rights (trace ++ trace') = rights trace ++ rights trace' := List.filterMap_append

@[simp] theorem lefts_inl (a : α) (trace : List (α ⊕ β)) :
    lefts (.inl a :: trace) = a :: lefts trace := rfl

@[simp] theorem lefts_inr (b : β) (trace : List (α ⊕ β)) : lefts (.inr b :: trace) = lefts trace := rfl

@[simp] theorem rights_inl (a : α) (trace : List (α ⊕ β)) :
    rights (.inl a :: trace) = rights trace := rfl

@[simp] theorem rights_inr (b : β) (trace : List (α ⊕ β)) :
    rights (.inr b :: trace) = b :: rights trace := rfl

@[simp] theorem lefts_nil : lefts ([] : List (α ⊕ β)) = [] := rfl

@[simp] theorem rights_nil : rights ([] : List (α ⊕ β)) = [] := rfl

theorem mem_lefts {trace : List (α ⊕ β)} {a : α} : a ∈ lefts trace ↔ .inl a ∈ trace := by
  rw [lefts, List.mem_filterMap]
  constructor
  · rintro ⟨x | x, hx, h⟩ <;> cases h
    exact hx
  · exact fun h => ⟨.inl a, h, rfl⟩

theorem mem_rights {trace : List (α ⊕ β)} {b : β} : b ∈ rights trace ↔ .inr b ∈ trace := by
  rw [rights, List.mem_filterMap]
  constructor
  · rintro ⟨x | x, hx, h⟩ <;> cases h
    exact hx
  · exact fun h => ⟨.inr b, h, rfl⟩

/-! ### Order -/

section Order
variable [DecidableEq γ] {a b c : γ} {trace done rest : List γ}

/-- `a` stands in the part of the trace before `b`. -/
def Before (trace : List γ) (a b : γ) : Prop := a ∈ trace.takeWhile (· ≠ b)

instance (trace : List γ) (a b : γ) : Decidable (Before trace a b) := by
  unfold Before
  infer_instance

theorem takeWhile_ne (h : b ∉ done) : (done ++ b :: rest).takeWhile (· ≠ b) = done := by
  induction done with
  | nil => simp
  | cons c done ih =>
    rw [List.mem_cons, not_or] at h
    rw [List.cons_append, List.takeWhile_cons_of_pos (by simpa using Ne.symm h.1), ih h.2]

theorem before_iff (h : b ∉ done) : Before (done ++ b :: rest) a b ↔ a ∈ done := by
  rw [Before, takeWhile_ne h]

theorem split_of_mem (h : b ∈ trace) : ∃ done rest, trace = done ++ b :: rest ∧ b ∉ done := by
  induction trace with
  | nil => cases h
  | cons x trace ih =>
    by_cases hx : b = x
    · exact ⟨[], trace, by rw [hx]; rfl, List.not_mem_nil⟩
    · obtain ⟨done, rest, rfl, hnot⟩ := ih ((List.mem_cons.1 h).resolve_left hx)
      exact ⟨x :: done, rest, rfl, by simp [hx, hnot]⟩

theorem Before.irrefl : ¬ Before trace a a := fun h => by
  simpa using List.mem_takeWhile_imp h

theorem Before.mem (h : Before trace a b) : a ∈ trace :=
  (List.takeWhile_prefix _).subset h

theorem Before.trans (hab : Before trace a b) (hbc : Before trace b c) : Before trace a c := by
  obtain ⟨done, rest, htrace, hnot⟩ := split_of_mem hbc.mem
  rw [htrace, before_iff hnot] at hab
  have hc : c ∉ done := fun hc => by
    obtain ⟨d, r, rfl, hd⟩ := split_of_mem hc
    rw [htrace, List.append_assoc, List.cons_append, before_iff hd] at hbc
    exact hnot (by simp [hbc])
  rw [htrace, Before, List.takeWhile_append_of_pos fun x hx => by
    simpa using fun he : x = c => hc (he ▸ hx)]
  exact List.mem_append_left _ hab

theorem Before.asymm (hab : Before trace a b) : ¬ Before trace b a := fun hba =>
  Before.irrefl (hab.trans hba)

theorem before_or_before (ha : a ∈ trace) (hb : b ∈ trace) (hne : a ≠ b) :
    Before trace a b ∨ Before trace b a := by
  obtain ⟨done, rest, rfl, hnot⟩ := split_of_mem hb
  rw [before_iff hnot]
  by_cases hmem : a ∈ done
  · exact .inl hmem
  · refine .inr ?_
    have hrest : a ∈ rest := by
      simpa [hmem, hne] using ha
    obtain ⟨d, r, rfl, hd⟩ := split_of_mem hrest
    have : a ∉ done ++ b :: d := by simp [hmem, hne, hd]
    rw [show done ++ b :: (d ++ a :: r) = (done ++ b :: d) ++ a :: r by simp, before_iff this]
    simp

end Order

section Split
variable [DecidableEq α] [DecidableEq β] {p : List α} {q : List β} {trace done rest : List (α ⊕ β)}

omit [DecidableEq β] in
/-- What has been done when a step of the first thread is due. -/
theorem Shuffle.inl {a : α} (h : Shuffle p q (done ++ .inl a :: rest)) (hp : p.Nodup) :
    lefts done = p.takeWhile (· ≠ a) ∧ a ∉ lefts done := by
  have hsplit : lefts done ++ a :: lefts rest = p := by
    rw [← h.left]
    simp
  rw [← hsplit] at hp
  have hnot : a ∉ lefts done := fun ha =>
    (List.nodup_append.1 hp).2.2 a ha a (by simp) rfl
  exact ⟨by rw [← hsplit, takeWhile_ne hnot], hnot⟩

omit [DecidableEq α] in
theorem Shuffle.inr {b : β} (h : Shuffle p q (done ++ .inr b :: rest)) (hq : q.Nodup) :
    rights done = q.takeWhile (· ≠ b) ∧ b ∉ rights done := by
  have hsplit : rights done ++ b :: rights rest = q := by
    rw [← h.right]
    simp
  rw [← hsplit] at hq
  have hnot : b ∉ rights done := fun hb =>
    (List.nodup_append.1 hq).2.2 b hb b (by simp) rfl
  exact ⟨by rw [← hsplit, takeWhile_ne hnot], hnot⟩

theorem Shuffle.before_inl {a : α} {c : α ⊕ β} (h : Shuffle p q (done ++ .inl a :: rest))
    (hp : p.Nodup) : Before (done ++ .inl a :: rest) c (.inl a) ↔ c ∈ done :=
  before_iff fun hmem => (h.inl hp).2 (mem_lefts.2 hmem)

theorem Shuffle.before_inr {b : β} {c : α ⊕ β} (h : Shuffle p q (done ++ .inr b :: rest))
    (hq : q.Nodup) : Before (done ++ .inr b :: rest) c (.inr b) ↔ c ∈ done :=
  before_iff fun hmem => (h.inr hq).2 (mem_rights.2 hmem)

/-- The steps of a thread keep their order. -/
theorem Shuffle.before_left (h : Shuffle p q trace) (hp : p.Nodup) {a b : α} (hb : b ∈ p) :
    Before trace (.inl a) (.inl b) ↔ Before p a b := by
  have hmem : .inl b ∈ trace := mem_lefts.1 (by rwa [h.left])
  obtain ⟨done, rest, rfl, -⟩ := split_of_mem hmem
  rw [h.before_inl hp, ← mem_lefts, (h.inl hp).1, Before]

theorem Shuffle.before_right (h : Shuffle p q trace) (hq : q.Nodup) {a b : β} (hb : b ∈ q) :
    Before trace (.inr a) (.inr b) ↔ Before q a b := by
  have hmem : .inr b ∈ trace := mem_rights.1 (by rwa [h.right])
  obtain ⟨done, rest, rfl, -⟩ := split_of_mem hmem
  rw [h.before_inr hq, ← mem_rights, (h.inr hq).1, Before]

end Split
end Interleaving
