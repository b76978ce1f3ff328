import JiaMiaoDB.Lib.ByteFormat
import JiaMiaoDB.Lib.Span

/-! Memory as a byte at each address, and what a range still contains after writes elsewhere. -/

set_option autoImplicit false

abbrev ByteMemory := Nat → UInt8

namespace ByteMemory
open ByteFormat

def read (m : ByteMemory) (a n : Nat) : Bytes := (List.range n).map fun i => m (a + i)

def write (m : ByteMemory) (a : Nat) (bs : Bytes) : ByteMemory :=
  fun x => if a ≤ x ∧ x < a + bs.length then bs.getD (x - a) 0 else m x

/-- Eight bytes, least significant first. -/
def load64 (m : ByteMemory) (a : Nat) : Nat := getLE (read m a 8)

def store64 (m : ByteMemory) (a v : Nat) : ByteMemory := write m a (putLE 8 v)

/-- The source is read before anything is written. -/
def copy (m : ByteMemory) (dst src n : Nat) : ByteMemory := write m dst (read m src n)

def fill (m : ByteMemory) (a : Nat) (b : UInt8) (n : Nat) : ByteMemory :=
  write m a (List.replicate n b)

/-- The two memories have the same bytes in the range. -/
def AgreeOn (r : Span) (m m' : ByteMemory) : Prop :=
  ∀ x, r.start ≤ x → x < r.stop → m' x = m x

variable {m m' m'' : ByteMemory} {r t : Span} {a b n v : Nat} {bs : Bytes} {x : Nat}

@[simp]
theorem length_read : (read m a n).length = n := by
  rw [read, List.length_map, List.length_range]

theorem getElem?_read {i : Nat} (h : i < n) : (read m a n)[i]? = some (m (a + i)) := by
  rw [read, List.getElem?_map, List.getElem?_range h]
  rfl

theorem write_of_outside (h : x < a ∨ a + bs.length ≤ x) : write m a bs x = m x := by
  apply if_neg
  omega

theorem write_of_inside {i : Nat} (h : i < bs.length) :
    write m a bs (a + i) = bs.getD i 0 := by
  have hinside : a ≤ a + i ∧ a + i < a + bs.length := by omega
  rw [write, if_pos hinside, Nat.add_sub_cancel_left]

namespace AgreeOn

theorem refl (r : Span) (m : ByteMemory) : AgreeOn r m m := fun _ _ _ => rfl

theorem trans (h : AgreeOn r m m') (h' : AgreeOn r m' m'') : AgreeOn r m m'' :=
  fun x hlo hhi => (h' x hlo hhi).trans (h x hlo hhi)

theorem of_inside (h : AgreeOn t m m') (hin : r.Inside t) : AgreeOn r m m' := by
  intro x hlo hhi
  apply h x
  · exact Nat.le_trans hin.1 hlo
  · exact Nat.lt_of_lt_of_le hhi hin.2

theorem read_eq (h : AgreeOn ⟨a, n⟩ m m') : read m' a n = read m a n := by
  apply List.map_congr_left
  intro i hi
  have hlt := List.mem_range.mp hi
  apply h
  · exact Nat.le_add_right a i
  · exact Nat.add_lt_add_left hlt a

theorem load64_eq (h : AgreeOn ⟨a, 8⟩ m m') : load64 m' a = load64 m a :=
  congrArg getLE h.read_eq

end AgreeOn

/-- A write leaves the ranges that it does not meet. -/
theorem agreeOn_write (h : r.Apart ⟨a, bs.length⟩) : AgreeOn r m (write m a bs) := by
  intro x hlo hhi
  apply write_of_outside
  rcases h with h | h
  · exact Or.inl (Nat.lt_of_lt_of_le hhi h)
  · exact Or.inr (Nat.le_trans h hlo)

theorem agreeOn_store64 (h : r.Apart ⟨a, 8⟩) : AgreeOn r m (store64 m a v) := by
  apply agreeOn_write
  rw [length_putLE]
  exact h

theorem agreeOn_copy (h : r.Apart ⟨a, n⟩) : AgreeOn r m (copy m a b n) := by
  apply agreeOn_write
  rw [length_read]
  exact h

theorem read_write : read (write m a bs) a bs.length = bs := by
  apply List.ext_getElem?
  intro i
  by_cases hi : i < bs.length
  · rw [getElem?_read hi, write_of_inside hi, List.getD_eq_getElem?_getD,
      List.getElem?_eq_getElem hi, Option.getD_some]
  · have hlength : (read (write m a bs) a bs.length).length ≤ i := by
      rw [length_read]
      omega
    rw [List.getElem?_eq_none hlength, List.getElem?_eq_none (by omega)]

theorem load64_store64 (h : v < 256 ^ 8) : load64 (store64 m a v) a = v := by
  have hread : read (store64 m a v) a 8 = putLE 8 v := by
    have hwrite : read (write m a (putLE 8 v)) a (putLE 8 v).length = putLE 8 v := read_write
    rw [length_putLE] at hwrite
    exact hwrite
  rw [load64, hread]
  exact getLE_putLE_of_lt h

/-- Where the copy went, there is what was read. -/
theorem copy_add {i : Nat} (h : i < n) : copy m a b n (a + i) = m (b + i) := by
  have hlength : i < (read m b n).length := by rwa [length_read]
  rw [copy, write_of_inside hlength, List.getD_eq_getElem?_getD, getElem?_read h, Option.getD_some]

theorem fill_cases {c : UInt8} : fill m a c n x = c ∨ fill m a c n x = m x := by
  unfold fill write
  rw [List.length_replicate]
  split
  · left
    rw [List.getD_eq_getElem?_getD, List.getElem?_replicate, if_pos (by omega), Option.getD_some]
  · exact Or.inr rfl

theorem load64_zero (h : ∀ i, i < 8 → m (a + i) = 0) : load64 m a = 0 := by
  have hread : read m a 8 = List.replicate 8 0 := by
    apply List.ext_getElem?
    intro i
    by_cases hi : i < 8
    · rw [getElem?_read hi, List.getElem?_replicate, if_pos hi, h i hi]
    · have hlength : (read m a 8).length ≤ i := by
        rw [length_read]
        omega
      rw [List.getElem?_eq_none hlength, List.getElem?_replicate, if_neg hi]
  rw [load64, hread]
  rfl

end ByteMemory
