import JiaMiaoDB.Lib.Binary64
import Mathlib.Data.List.TakeWhile

/-! Numbers printed in base ten: reading one back, and the bytes it is printed with. -/

set_option autoImplicit false

namespace Binary64

theorem digits_append {base : Nat} {bs : Bytes} {acc count a c : Nat}
    (h : digits base bs acc count = (a, c, [])) (cs : Bytes) :
    digits base (bs ++ cs) acc count = digits base cs a c := by
  induction bs generalizing acc count with
  | nil =>
    cases h
    rfl
  | cons b bs ih =>
    unfold digits at h
    rw [List.cons_append]
    conv_lhs => unfold digits
    cases hb : digit? base b with
    | some d =>
      rw [hb] at h
      exact ih h
    | none =>
      rw [hb] at h
      cases h

theorem digit_of_lt {d : Nat} (hd : d < 10) :
    digit? 10 (UInt8.ofNat (Nat.digitChar d).toNat) = some d := by
  revert d
  decide

theorem decimal_of_lt {n : Nat} (hn : n < 10) :
    decimal n = [UInt8.ofNat (Nat.digitChar n).toNat] := by
  rw [decimal, Nat.toDigits_of_lt_base hn]
  rfl

theorem decimal_of_le {n : Nat} (hn : 10 ≤ n) :
    decimal n = decimal (n / 10) ++ [UInt8.ofNat (Nat.digitChar (n % 10)).toNat] := by
  rw [decimal, Nat.toDigits_of_base_le (by decide) hn, List.map_append]
  rfl

/-- Reading a printed number back. -/
theorem digits_decimal (n : Nat) : ∃ c, 0 < c ∧ digits 10 (decimal n) 0 0 = (n, c, []) := by
  induction n using Nat.strong_induction_on with
  | _ n ih =>
    by_cases hn : n < 10
    · refine ⟨1, Nat.one_pos, ?_⟩
      rw [decimal_of_lt hn]
      simp only [digits, digit_of_lt hn, Nat.zero_mul, Nat.zero_add]
    · rw [not_lt] at hn
      obtain ⟨c, hc, hdiv⟩ := ih (n / 10) (by omega)
      refine ⟨c + 1, Nat.succ_pos c, ?_⟩
      rw [decimal_of_le hn, digits_append hdiv]
      simp only [digits, digit_of_lt (Nat.mod_lt n (by decide : 0 < 10))]
      rw [Nat.div_add_mod' n 10]

theorem mem_decimal {n : Nat} {b : UInt8} (h : b ∈ decimal n) : 48 ≤ b ∧ b ≤ 57 := by
  induction n using Nat.strong_induction_on with
  | _ n ih =>
    have hdigit : ∀ d < 10, 48 ≤ UInt8.ofNat (Nat.digitChar d).toNat ∧
        UInt8.ofNat (Nat.digitChar d).toNat ≤ 57 := by decide
    by_cases hn : n < 10
    · rw [decimal_of_lt hn, List.mem_singleton] at h
      exact h ▸ hdigit n hn
    · rw [not_lt] at hn
      rw [decimal_of_le hn, List.mem_append, List.mem_singleton] at h
      rcases h with h | h
      · exact ih (n / 10) (by omega) h
      · exact h ▸ hdigit (n % 10) (Nat.mod_lt n (by decide))

theorem signed_digit {b : UInt8} (hlo : 48 ≤ b) (bs : Bytes) :
    signed (b :: bs) = (false, b :: bs) := by
  have hne : ∀ c : UInt8, c < 48 → b ≠ c := fun c hc h => absurd (h ▸ hlo) (UInt8.not_le.mpr hc)
  have hspace : isSpace b = false := by
    have hlow : ¬ b ≤ 13 := UInt8.not_le.mpr (UInt8.lt_of_lt_of_le (by decide) hlo)
    simp [isSpace, hne 32 (by decide), hlow]
  unfold signed
  rw [List.dropWhile_cons_of_neg (by simp [hspace])]
  split
  · next h => exact absurd (List.cons.inj h).1 (hne 45 (by decide))
  · next h => exact absurd (List.cons.inj h).1 (hne 43 (by decide))
  · rfl

theorem ne_zero_of_mem_decimal {n : Nat} {b : UInt8} (h : b ∈ decimal n) : (b != 0) = true := by
  rw [bne_iff_ne]
  rintro rfl
  exact absurd (mem_decimal h).1 (by decide)

theorem decimal_ne_nil (n : Nat) : decimal n ≠ [] := by
  obtain ⟨c, hc, hdigits⟩ := digits_decimal n
  intro h
  rw [h] at hdigits
  cases hdigits
  exact absurd hc (by decide)

theorem signed_decimal (n : Nat) : signed (decimal n) = (false, decimal n) := by
  cases hd : decimal n with
  | nil => exact absurd hd (decimal_ne_nil n)
  | cons b bs => exact signed_digit (mem_decimal (hd ▸ List.mem_cons_self : b ∈ decimal n)).1 bs

/-- A number that is in range, once its sign is read. -/
theorem strtoll_of_signed {text : Bytes} {negative : Bool} {n : Nat}
    (hsigned : signed (text.takeWhile (· != 0)) = (negative, decimal n))
    (hrange : (if negative then n ≤ 2 ^ 63 else n < 2 ^ 63 : Prop)) :
    strtoll text = .value (Int64.ofInt (if negative then -(n : Int) else n)) := by
  obtain ⟨c, hc, hdigits⟩ := digits_decimal n
  unfold strtoll
  rw [hsigned]
  dsimp only
  rw [hdigits]
  dsimp only
  rw [if_neg (Nat.ne_of_gt hc), if_neg]
  cases negative with
  | false =>
    simp only [Bool.false_eq_true, if_false] at hrange ⊢
    omega
  | true =>
    simp only [if_true] at hrange ⊢
    omega

theorem strtoll_decimal {n : Nat} (hn : n < 2 ^ 63) :
    strtoll (decimal n) = .value (Int64.ofInt n) := by
  refine @strtoll_of_signed (decimal n) false n ?_ hn
  rw [List.takeWhile_eq_self_iff.mpr fun b hb => ne_zero_of_mem_decimal hb, signed_decimal]

theorem strtoll_neg_decimal {n : Nat} (hn : n ≤ 2 ^ 63) :
    strtoll (45 :: decimal n) = .value (Int64.ofInt (-n)) := by
  refine @strtoll_of_signed (45 :: decimal n) true n ?_ hn
  have hall : ∀ b ∈ (45 :: decimal n : Bytes), (b != 0) = true := by
    intro b hb
    rcases List.mem_cons.mp hb with rfl | hb
    · rfl
    · exact ne_zero_of_mem_decimal hb
  rw [List.takeWhile_eq_self_iff.mpr hall]
  rfl

/-! ### The bytes of a printed number -/

/-- Digits, signs, the point, and the letters of an exponent, an infinity and a NaN. -/
def Numeric (bs : Bytes) : Prop :=
  ∀ b ∈ bs, (48 ≤ b ∧ b ≤ 57) ∨ b ∈ ([43, 45, 46, 97, 101, 102, 105, 110] : Bytes)

instance (bs : Bytes) : Decidable (Numeric bs) := inferInstanceAs (Decidable (∀ b ∈ bs, _))

theorem Numeric.append {bs cs : Bytes} (hbs : Numeric bs) (hcs : Numeric cs) :
    Numeric (bs ++ cs) := fun b hb => (List.mem_append.mp hb).elim (hbs b) (hcs b)

theorem Numeric.subset {bs cs : Bytes} (h : Numeric bs) (hsub : cs ⊆ bs) : Numeric cs :=
  fun b hb => h b (hsub hb)

theorem numeric_decimal (n : Nat) : Numeric (decimal n) := fun _ hb => .inl (mem_decimal hb)

theorem numeric_zeros (n : Nat) : Numeric (List.replicate n 48) := by
  intro b hb
  rw [List.eq_of_mem_replicate hb]
  exact .inl (by decide +kernel)

theorem numeric_sign (negative : Bool) : Numeric (if negative then [45] else []) := by
  cases negative <;> decide +kernel

theorem numeric_withFraction {whole fraction : Bytes} (hwhole : Numeric whole)
    (hfraction : Numeric fraction) : Numeric (withFraction whole fraction) := by
  have hdrop : Numeric (dropTrailingZeros fraction) := by
    refine hfraction.subset fun b hb => List.mem_reverse.mp ?_
    exact (List.dropWhile_sublist _).subset (List.mem_reverse.mp hb)
  unfold withFraction
  split
  · exact hwhole
  · exact (hwhole.append (by decide +kernel)).append hdrop

theorem withFraction_ne_nil {whole fraction : Bytes} (h : whole ≠ []) :
    withFraction whole fraction ≠ [] := by
  unfold withFraction
  split
  · exact h
  · simp [h]

theorem numeric_toGeneral (x : Binary64) : Numeric x.toGeneral := by
  have hdigits := numeric_decimal
  have htake := fun n m => (hdigits n).subset (List.take_subset m _)
  have hdrop := fun n m => (hdigits n).subset (List.drop_subset m _)
  unfold toGeneral
  dsimp only
  split
  · exact (numeric_sign _).append (by decide +kernel)
  split
  · exact (numeric_sign _).append (by decide +kernel)
  split
  · exact (numeric_sign _).append (by decide +kernel)
  generalize (if _ = 10 ^ 6 then _ else _ : Nat × Int) = me
  obtain ⟨m, e⟩ := me
  dsimp only
  split
  · refine (((numeric_sign _).append (numeric_withFraction (htake _ _) (hdrop _ _))).append ?_).append
      ((numeric_zeros _).append (hdigits _))
    split <;> decide +kernel
  split
  · exact (numeric_sign _).append (numeric_withFraction (htake _ _) (hdrop _ _))
  · exact (numeric_sign _).append
      (numeric_withFraction (by decide +kernel) ((numeric_zeros _).append (hdigits _)))

theorem toGeneral_ne_nil (x : Binary64) : x.toGeneral ≠ [] := by
  unfold toGeneral
  dsimp only
  split
  · simp
  split
  · simp
  split
  · simp
  generalize (if _ = 10 ^ 6 then _ else _ : Nat × Int) = me
  obtain ⟨m, e⟩ := me
  dsimp only
  split
  · simp
  split
  · have htake : (decimal m).take (e.toNat + 1) ≠ [] := by
      cases hd : decimal m with
      | nil => exact absurd hd (decimal_ne_nil m)
      | cons b bs => simp
    simp [withFraction_ne_nil htake]
  · simp [withFraction_ne_nil]

end Binary64
