import Mathlib.Logic.Basic

/-! Counters in 64-bit integers, below the wrap-around. -/

set_option autoImplicit false

namespace FixedWidth

theorem toInt_succ {n : Int64} (h : n ≠ Int64.maxValue) : (n + 1).toInt = n.toInt + 1 := by
  have hlt : n.toInt < 2 ^ 63 - 1 := by
    have hbound := n.toInt_lt
    have hne : n.toInt ≠ Int64.maxValue.toInt := fun e => h (Int64.toInt_inj.1 e)
    rw [Int64.toInt_maxValue] at hne
    omega
  have hlo := n.le_toInt
  rw [Int64.toInt_add, Int64.toInt_one, Int.bmod_eq_of_le (by omega) (by omega)]

theorem lt_succ {n : Int64} (h : n ≠ Int64.maxValue) : n < n + 1 := by
  rw [Int64.lt_iff_toInt_lt, toInt_succ h]
  omega

theorem ne_max_of_le {m n : Int64} (h : m ≤ n) (hn : n ≠ Int64.maxValue) : m ≠ Int64.maxValue := by
  rintro rfl
  refine hn (Int64.le_antisymm ?_ h)
  rw [Int64.le_iff_toInt_le, Int64.toInt_maxValue]
  have := n.toInt_lt
  omega

theorem succ_le_succ {m n : Int64} (h : m ≤ n) (hn : n ≠ Int64.maxValue) : m + 1 ≤ n + 1 := by
  rw [Int64.le_iff_toInt_le] at h ⊢
  rw [toInt_succ hn, toInt_succ (ne_max_of_le (Int64.le_iff_toInt_le.2 h) hn)]
  omega

theorem max_def (a b : Int64) : max a b = if a ≤ b then b else a := rfl

theorem max_eq_right {m n : Int64} (h : m ≤ n) : max m n = n := by
  rw [max_def, if_pos h]

theorem le_max_left (a b : Int64) : a ≤ max a b := by
  rw [max_def]
  split
  · assumption
  · exact Int64.le_refl a

theorem le_max_right (a b : Int64) : b ≤ max a b := by
  rw [max_def]
  split
  · exact Int64.le_refl b
  · exact Int64.le_of_lt (Int64.not_le.mp ‹_›)

end FixedWidth
