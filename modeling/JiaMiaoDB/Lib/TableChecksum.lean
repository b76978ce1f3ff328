import Mathlib.Data.List.Induction

/-!
# Checksums driven by a byte table

A 32-bit register that is shifted right by a byte and xored with a table entry. When the top bytes
of the table's entries are all different, a change within four consecutive bytes of a message
always shows in the register: the top byte of the register names the entry used last, the next one
the entry before, and so on, and from there on each step can be undone.
-/

set_option autoImplicit false

namespace TableChecksum

/-- The place of the table that a register and the next byte select. -/
def index (c : UInt32) (b : UInt8) : UInt32 := (c ^^^ b.toUInt32) &&& 0xFF

section Register
variable (table : UInt32 → UInt32)

def update (c : UInt32) (b : UInt8) : UInt32 := table (index c b) ^^^ (c >>> 8)

def register (c : UInt32) (bs : List UInt8) : UInt32 := bs.foldl (update table) c

/-- The top byte of an entry tells which entry it is. -/
def Separates : Prop :=
  ∀ i j : UInt32, i < 256 → j < 256 → table i >>> 24 = table j >>> 24 → i = j

/-- Two registers that differ at most in their `k` low bytes. -/
def Agree (k : Nat) (c c' : UInt32) : Prop := c.toBitVec >>> (8 * k) = c'.toBitVec >>> (8 * k)

end Register

theorem index_lt (c : UInt32) (b : UInt8) : index c b < 256 := by
  rw [index, UInt32.lt_iff_toNat_lt, UInt32.toNat_and]
  exact Nat.and_lt_two_pow _ (n := 8) (by decide)

theorem toBitVec_index (c : UInt32) (b : UInt8) :
    (index c b).toBitVec = (c.toBitVec ^^^ b.toBitVec.setWidth 32) &&& 0xFF#32 := by
  rfl

theorem toBitVec_shiftRight_eight (c : UInt32) : (c >>> 8).toBitVec = c.toBitVec >>> 8 := by
  rfl

theorem low_bits : ∀ i : Nat, (0xFF#32).getLsbD i = decide (i < 8) := by
  intro i
  rw [BitVec.getLsbD_ofNat, show (0xFF : Nat) = 2 ^ 8 - 1 by rfl, Nat.testBit_two_pow_sub_one,
    ← Bool.decide_and]
  apply decide_eq_decide.2
  omega

theorem getLsbD_index (c : UInt32) (b : UInt8) {i : Nat} (hi : i < 8) :
    (index c b).toBitVec.getLsbD i = (c.toBitVec.getLsbD i ^^ b.toBitVec.getLsbD i) := by
  rw [toBitVec_index, BitVec.getLsbD_and, BitVec.getLsbD_xor, low_bits, BitVec.getLsbD_setWidth]
  simp [hi, show i < 32 by omega]

/-- Over one register, the place of the table tells the byte. -/
theorem byte_eq_of_index {c : UInt32} {b b' : UInt8} (h : index c b = index c b') : b = b' := by
  apply UInt8.toBitVec_inj.1
  apply BitVec.eq_of_getLsbD_eq
  intro i hi
  have hbit := congrArg (fun x : UInt32 => x.toBitVec.getLsbD i) h
  simp only [getLsbD_index _ _ hi] at hbit
  exact Bool.xor_right_inj.1 hbit

/-- For one byte, the place of the table tells the low byte of the register. -/
theorem eq_of_index {c c' : UInt32} {b : UInt8} (h : index c b = index c' b) (hhigh : Agree 1 c c') :
    c = c' := by
  apply UInt32.toBitVec_inj.1
  apply BitVec.eq_of_getLsbD_eq
  intro i _
  by_cases hi : i < 8
  · have hbit := congrArg (fun x : UInt32 => x.toBitVec.getLsbD i) h
    simp only [getLsbD_index _ _ hi] at hbit
    exact Bool.xor_left_inj.1 hbit
  · have hbit := congrArg (fun x : BitVec 32 => x.getLsbD (i - 8)) hhigh
    simp only [BitVec.getLsbD_ushiftRight] at hbit
    rwa [show 8 * 1 + (i - 8) = i by omega] at hbit

section Steps
variable {table : UInt32 → UInt32}

theorem agree_zero {c c' : UInt32} : Agree 0 c c' ↔ c = c' := by
  simp [Agree, UInt32.toBitVec_inj]

theorem Agree.mono {k k' : Nat} {c c' : UInt32} (h : Agree k c c') (hk : k ≤ k') :
    Agree k' c c' := by
  have hsum : 8 * k' = 8 * k + 8 * (k' - k) := by omega
  rw [Agree, hsum, BitVec.shiftRight_add, BitVec.shiftRight_add, h]

theorem toBitVec_update (c : UInt32) (b : UInt8) :
    (update table c b).toBitVec = (table (index c b)).toBitVec ^^^ (c.toBitVec >>> 8) := by
  rw [update, UInt32.toBitVec_xor, toBitVec_shiftRight_eight]

/-- The top byte of the register is that of the entry used last. -/
theorem index_eq_of_top (ht : Separates table) {c c' : UInt32} {b b' : UInt8}
    (h : Agree 3 (update table c b) (update table c' b')) : index c b = index c' b' := by
  apply ht _ _ (index_lt c b) (index_lt c' b')
  have hgone (x : UInt32) : x.toBitVec >>> 8 >>> 24 = 0#32 := by
    rw [← BitVec.shiftRight_add]
    exact BitVec.ushiftRight_eq_zero (by decide)
  rw [Agree, toBitVec_update, toBitVec_update, BitVec.ushiftRight_xor_distrib,
    BitVec.ushiftRight_xor_distrib, hgone, hgone, BitVec.xor_zero, BitVec.xor_zero] at h
  exact UInt32.toBitVec_inj.1 h

/-- Undoing one step: the place used, and one byte less of the register. -/
theorem agree_before (ht : Separates table) {k : Nat} (hk : k ≤ 3) {c c' : UInt32} {b b' : UInt8}
    (h : Agree k (update table c b) (update table c' b')) :
    index c b = index c' b' ∧ Agree (k + 1) c c' := by
  have hindex := index_eq_of_top ht (h.mono hk)
  refine ⟨hindex, ?_⟩
  rw [Agree, toBitVec_update, toBitVec_update, hindex, BitVec.ushiftRight_xor_distrib,
    BitVec.ushiftRight_xor_distrib, BitVec.xor_right_inj, ← BitVec.shiftRight_add,
    ← BitVec.shiftRight_add] at h
  rwa [Agree, Nat.mul_succ, Nat.add_comm]

theorem register_append (c : UInt32) (bs bs' : List UInt8) :
    register table c (bs ++ bs') = register table (register table c bs) bs' := List.foldl_append

/-- Equal bytes keep two registers apart. -/
theorem register_injective (ht : Separates table) (bs : List UInt8) {c c' : UInt32}
    (h : register table c bs = register table c' bs) : c = c' := by
  induction bs generalizing c c' with
  | nil => exact h
  | cons b bs ih =>
    have hnext := agree_zero.2 (ih h)
    obtain ⟨hindex, hhigh⟩ := agree_before ht (Nat.zero_le 3) hnext
    exact eq_of_index hindex hhigh

/-- Registers that met after a window agreed above the window's length before it. -/
theorem agree_of_register (ht : Separates table) {w w' : List UInt8} (hlen : w'.length = w.length)
    (hw : w.length ≤ 4) {c c' : UInt32} (h : register table c w = register table c' w') :
    Agree w.length c c' := by
  induction w generalizing w' c c' with
  | nil =>
    rw [List.length_nil, List.length_eq_zero_iff] at hlen
    rw [hlen] at h
    exact agree_zero.2 h
  | cons b w ih =>
    obtain ⟨b', w', rfl⟩ := List.exists_cons_of_length_pos (l := w') (by simp [hlen])
    rw [List.length_cons] at hlen hw
    exact (agree_before ht (by omega) (ih (by simpa using hlen) (by omega) h)).2

/-- A window of at most four bytes can be told from the register behind it. -/
theorem window_injective (ht : Separates table) {w w' : List UInt8} (hlen : w'.length = w.length)
    (hw : w.length ≤ 4) {c : UInt32} (h : register table c w = register table c w') : w = w' := by
  induction w generalizing w' c with
  | nil => exact (List.length_eq_zero_iff.1 hlen).symm
  | cons b w ih =>
    obtain ⟨b', w', rfl⟩ := List.exists_cons_of_length_pos (l := w') (by simp [hlen])
    rw [List.length_cons, List.length_cons, Nat.succ.injEq] at hlen
    rw [List.length_cons] at hw
    have hagree := agree_of_register ht hlen (by omega) h
    have hb : b = b' := byte_eq_of_index (agree_before ht (by omega) hagree).1
    subst hb
    rw [ih hlen (by omega) h]

/-- A change within four consecutive bytes changes the register at the end of the message. -/
theorem burst_detected (ht : Separates table) (c : UInt32) (front back : List UInt8)
    {w w' : List UInt8} (hlen : w'.length = w.length) (hw : w.length ≤ 4) (hne : w' ≠ w) :
    register table c (front ++ (w' ++ back)) ≠ register table c (front ++ (w ++ back)) := by
  intro h
  rw [register_append, register_append, register_append, register_append] at h
  exact hne (window_injective ht hlen hw (register_injective ht back h).symm).symm

end Steps
end TableChecksum
