import JiaMiaoDB.Lib.StateExcept

/-!
# Programs that use up a measure

`Uses I left E n k p`: from a state with `I` and less than `n` left, `p` keeps `I` and leaves at
least `k` less, or ends with an exception in `E`. The bound `n` lets a recursion count down on
what is left.
-/

set_option autoImplicit false

namespace Prog
variable {σ ε α β : Type}

def Uses (I : σ → Prop) (left : σ → Nat) (E : ε → Prop) (n k : Nat) (p : Prog σ ε α) : Prop :=
  ∀ s, I s → left s < n → p.wp (fun _ s' => I s' ∧ left s' + k ≤ left s) (fun e _ => E e) s

namespace Uses
variable {I : σ → Prop} {left : σ → Nat} {E : ε → Prop} {n m k j : Nat} {p q : Prog σ ε α}
  {f : α → Prog σ ε β}

theorem pure (a : α) : Uses I left E n 0 (Pure.pure a) := fun _ hs _ => ⟨hs, Nat.le_refl _⟩

theorem throw {e : ε} (he : E e) : Uses I left E n k (Prog.throw e : Prog σ ε α) :=
  fun _ _ _ => he

/-- Less left and less used up. -/
theorem mono (h : Uses I left E n k p) (hn : m ≤ n) (hk : j ≤ k) : Uses I left E m j p := by
  intro s hs hleft
  refine wp_mono (h s hs (Nat.lt_of_lt_of_le hleft hn)) ?_ (fun _ _ he => he)
  intro a s' h'
  exact ⟨h'.1, by have := h'.2; omega⟩

/-- With no room there is nothing to show. -/
theorem zero : Uses I left E 0 k p := fun _ _ hleft => absurd hleft (Nat.not_lt_zero _)

theorem keep (h : Uses I left E n k p) : Uses I left E n 0 p := h.mono (Nat.le_refl _) (Nat.zero_le _)

/-- What the first program uses up is no longer left for the second. -/
theorem bind_sub (hp : Uses I left E n j p) (hf : ∀ a, Uses I left E (n - j) (k - j) (f a)) :
    Uses I left E n k (p >>= f) := by
  intro s hs hleft
  rw [wp_bind]
  refine wp_mono (hp s hs hleft) ?_ (fun _ _ he => he)
  intro a s' h'
  have hused := h'.2
  refine wp_mono (hf a s' h'.1 (by omega)) ?_ (fun _ _ he => he)
  intro b s'' h''
  have hused' := h''.2
  exact ⟨h''.1, by omega⟩

theorem bind (hp : Uses I left E n k p) (hf : ∀ a, Uses I left E n 0 (f a)) :
    Uses I left E n k (p >>= f) :=
  bind_sub hp fun a => (hf a).mono (Nat.sub_le n k) (by omega)

theorem map {g : α → β} (hp : Uses I left E n k p) : Uses I left E n k (g <$> p) := by
  rw [map_eq_pure_bind]
  exact hp.bind fun a => pure (g a)

theorem ite {c : Prop} [Decidable c] (hp : c → Uses I left E n k p) (hq : ¬ c → Uses I left E n k q) :
    Uses I left E n k (if c then p else q) := by
  split
  · exact hp ‹_›
  · exact hq ‹_›

/-- A test that uses something up when it succeeds. -/
theorem test {t : Prog σ ε Bool}
    (ht : ∀ s, I s → left s < n →
      t.wp (fun b s' => I s' ∧ left s' + b.toNat ≤ left s) (fun e _ => E e) s)
    (hp : Uses I left E (n - 1) (k - 1) p) (hq : Uses I left E n k q) :
    Uses I left E n k (t >>= fun b => if b = true then p else q) := by
  intro s hs hleft
  rw [wp_bind]
  refine wp_mono (ht s hs hleft) ?_ (fun _ _ he => he)
  rintro (_ | _) s' ⟨hs', hused⟩
  · refine wp_mono (hq s' hs' (Nat.lt_of_le_of_lt hused hleft)) ?_ (fun _ _ he => he)
    intro a s'' h''
    exact ⟨h''.1, Nat.le_trans h''.2 hused⟩
  · rw [Bool.toNat_true] at hused
    refine wp_mono (hp s' hs' (by omega)) ?_ (fun _ _ he => he)
    intro a s'' h''
    have hused' := h''.2
    exact ⟨h''.1, by omega⟩

end Uses
end Prog
