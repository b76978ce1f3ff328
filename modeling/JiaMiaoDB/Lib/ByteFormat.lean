import JiaMiaoDB.Lib.StateExcept
import Mathlib.Tactic.Ring

/-!
# Binary formats: writers and readers

A writer is a function to `Bytes`; a reader is a program on the bytes not read yet. `Reads r b a`
says that `r` consumes exactly `b` and yields `a`, whatever follows. The rules compose these
statements along a format, so that a round trip is proved field by field.
-/

set_option autoImplicit false

abbrev Bytes := List UInt8

namespace ByteFormat

/-- The `n` low bytes of `v`, least significant first. -/
def putLE : Nat → Nat → Bytes
  | 0, _ => []
  | n + 1, v => UInt8.ofNat (v % 256) :: putLE n (v / 256)

def getLE : Bytes → Nat
  | [] => 0
  | b :: bs => b.toNat + 256 * getLE bs

@[simp] theorem length_putLE (n v : Nat) : (putLE n v).length = n := by
  induction n generalizing v with
  | zero => rfl
  | succ n ih => simp [putLE, ih]

theorem getLE_lt (bs : Bytes) : getLE bs < 256 ^ bs.length := by
  induction bs with
  | nil => simp [getLE]
  | cons b bs ih =>
    have hb : b.toNat < 256 := b.toNat_lt
    simp only [getLE, List.length_cons, Nat.pow_succ]
    omega

theorem getLE_putLE (n v : Nat) : getLE (putLE n v) = v % 256 ^ n := by
  induction n generalizing v with
  | zero => simp [putLE, getLE, Nat.mod_one]
  | succ n ih =>
    have hlow : (UInt8.ofNat (v % 256)).toNat = v % 256 := by
      simp [UInt8.toNat_ofNat']
    rw [putLE, getLE, ih, hlow, Nat.pow_succ', Nat.mod_mul]

theorem getLE_putLE_of_lt {n v : Nat} (h : v < 256 ^ n) : getLE (putLE n v) = v := by
  rw [getLE_putLE, Nat.mod_eq_of_lt h]

/-- A number too large for its field is written like its remainder. -/
theorem putLE_mod (n v : Nat) : putLE n (v % 256 ^ n) = putLE n v := by
  induction n generalizing v with
  | zero => rfl
  | succ n ih =>
    rw [putLE, putLE, Nat.pow_succ', Nat.mod_mul_right_mod, Nat.mod_mul_right_div_self, ih]

theorem putLE_getLE (bs : Bytes) : putLE bs.length (getLE bs) = bs := by
  induction bs with
  | nil => rfl
  | cons b bs ih =>
    have hb : b.toNat < 256 := b.toNat_lt
    have hlow : (b.toNat + 256 * getLE bs) % 256 = b.toNat := by omega
    have hhigh : (b.toNat + 256 * getLE bs) / 256 = getLE bs := by omega
    rw [getLE, List.length_cons, putLE, hlow, hhigh, ih, UInt8.ofNat_toNat]

theorem putLE_injective {n v w : Nat} (hv : v < 256 ^ n) (hw : w < 256 ^ n)
    (h : putLE n v = putLE n w) : v = w := by
  rw [← getLE_putLE_of_lt hv, ← getLE_putLE_of_lt hw, h]

/-- Splits off the first `n` bytes, when there are as many. -/
def splitBytes : Nat → Bytes → Option (Bytes × Bytes)
  | 0, bs => some ([], bs)
  | _ + 1, [] => none
  | n + 1, b :: bs => (splitBytes n bs).map fun (front, rest) => (b :: front, rest)

theorem splitBytes_append (front rest : Bytes) :
    splitBytes front.length (front ++ rest) = some (front, rest) := by
  induction front with
  | nil => rfl
  | cons b bs ih => simp [splitBytes, ih]

theorem splitBytes_eq_some {n : Nat} {bs front rest : Bytes}
    (h : splitBytes n bs = some (front, rest)) : bs = front ++ rest ∧ front.length = n := by
  induction n generalizing bs front with
  | zero => simp only [splitBytes, Option.some.injEq, Prod.mk.injEq] at h; simp [← h.1, h.2]
  | succ n ih =>
    cases bs with
    | nil => simp [splitBytes] at h
    | cons b bs =>
      simp only [splitBytes, Option.map_eq_some_iff, Prod.exists, Prod.mk.injEq] at h
      obtain ⟨f, r, hfr, rfl, rfl⟩ := h
      obtain ⟨rfl, rfl⟩ := ih hfr
      exact ⟨rfl, rfl⟩

/-- A reader works on the bytes not read yet. -/
abbrev Reader (ε α : Type) := Prog Bytes ε α

section Readers
variable {ε α β : Type}

def readBytes (n : Nat) (short : ε) : Reader ε Bytes := ⟨fun bs =>
  match splitBytes n bs with
  | some (front, rest) => (.ok front, rest)
  | none => (.error short, bs)⟩

def readLE (n : Nat) (short : ε) : Reader ε Nat := getLE <$> readBytes n short

/-- Runs `r` the given number of times. -/
def readMany (r : Reader ε α) : Nat → Reader ε (List α)
  | 0 => pure []
  | n + 1 => do
    let a ← r
    let as ← readMany r n
    pure (a :: as)

/-- A byte string after its length in `n` bytes. -/
def putPrefixed (n : Nat) (bs : Bytes) : Bytes := putLE n bs.length ++ bs

def readPrefixed (n : Nat) (short : ε) : Reader ε Bytes := do
  let len ← readLE n short
  readBytes len short

/-- Nothing may be left. -/
def readEnd (extra : ε) : Reader ε Unit := do
  let bs ← Prog.get
  Prog.require (bs.isEmpty = true) extra

theorem run_readEnd_of_ne {bs : Bytes} (h : bs ≠ []) (extra : ε) :
    (readEnd extra).run bs = (.error extra, bs) := by
  rw [readEnd, Prog.bind_ok (Prog.run_get bs)]
  apply Prog.run_require_false
  rwa [List.isEmpty_iff]

/-- `r` consumes exactly `bs` and yields `a`, whatever follows. -/
def Reads (r : Reader ε α) (bs : Bytes) (a : α) : Prop :=
  ∀ rest, r.run (bs ++ rest) = (.ok a, rest)

namespace Reads

theorem pure (a : α) : Reads (ε := ε) (Pure.pure a) [] a := fun _ => rfl

theorem bind {r : Reader ε α} {f : α → Reader ε β} {bs bs' : Bytes} {a : α} {b : β}
    (hr : Reads r bs a) (hf : Reads (f a) bs' b) : Reads (r >>= f) (bs ++ bs') b := fun rest => by
  rw [List.append_assoc, Prog.bind_ok (hr (bs' ++ rest)), hf rest]

theorem map {r : Reader ε α} {bs : Bytes} {a : α} (f : α → β) (hr : Reads r bs a) :
    Reads (f <$> r) bs (f a) := by
  rw [map_eq_pure_bind]
  have h := hr.bind (f := fun x => Pure.pure (f x)) (pure (f a))
  rwa [List.append_nil] at h

theorem bytes (short : ε) (bs : Bytes) : Reads (readBytes bs.length short) bs bs := fun rest => by
  simp [readBytes, splitBytes_append]

theorem bytes' {n : Nat} (short : ε) {bs : Bytes} (h : bs.length = n) :
    Reads (readBytes n short) bs bs :=
  h ▸ bytes short bs

theorem le {n v : Nat} (short : ε) (h : v < 256 ^ n) : Reads (readLE n short) (putLE n v) v := by
  have hb := (bytes' short (length_putLE n v)).map getLE
  rwa [getLE_putLE_of_lt h] at hb

theorem leMod (n v : Nat) (short : ε) :
    Reads (readLE n short) (putLE n v) (v % 256 ^ n) := by
  have hb := (bytes' short (length_putLE n v)).map getLE
  rwa [getLE_putLE] at hb

theorem prefixed {n : Nat} (short : ε) {bs : Bytes} (h : bs.length < 256 ^ n) :
    Reads (readPrefixed n short) (putPrefixed n bs) bs :=
  (le short h).bind (bytes short bs)

/-- Each item is read back as its image under `g`. -/
theorem manyMap {r : Reader ε α} {w : β → Bytes} {g : β → α} {items : List β}
    (h : ∀ b ∈ items, Reads r (w b) (g b)) :
    Reads (readMany r items.length) (items.flatMap w) (items.map g) := by
  induction items with
  | nil => exact pure []
  | cons b items ih =>
    rw [List.flatMap_cons]
    refine (h b (by simp)).bind ?_
    have htail := (ih fun c hc => h c (by simp [hc])).bind
      (f := fun as => Pure.pure (g b :: as)) (pure (ε := ε) (g b :: items.map g))
    rwa [List.append_nil] at htail

theorem many {r : Reader ε α} {w : α → Bytes} {l : List α}
    (h : ∀ a ∈ l, Reads r (w a) a) : Reads (readMany r l.length) (l.flatMap w) l := by
  have := manyMap (g := id) h
  rwa [List.map_id] at this

/-- A reader followed by the construction of its result. -/
theorem bindPure {r : Reader ε α} {bs : Bytes} {a : α} {g : α → β} (hr : Reads r bs a) :
    Reads (do let x ← r; Pure.pure (g x)) bs (g a) := by
  have := hr.bind (f := fun x => Pure.pure (g x)) (pure (g a))
  rwa [List.append_nil] at this

/-- The last step of a format: the end of the input. -/
theorem run_end {r : Reader ε α} {bs : Bytes} {a : α} (hr : Reads r bs a) (extra : ε) :
    (do let x ← r; readEnd extra; Pure.pure x : Reader ε α).run bs = (.ok a, []) := by
  have h := hr []
  rw [List.append_nil] at h
  rw [Prog.bind_ok h]
  rfl

end Reads

/-! ### Readers that do not look ahead -/

/-- What `r` reads does not depend on the bytes behind it. -/
def Local (r : Reader ε α) : Prop :=
  ∀ bs a rest, r.run bs = (.ok a, rest) → ∀ tail, r.run (bs ++ tail) = (.ok a, rest ++ tail)

/-- `r` consumes the front of its input and does not depend on what follows. -/
structure Tight (r : Reader ε α) : Prop where
  consumes : ∀ {bs a rest}, r.run bs = (.ok a, rest) → ∃ front, bs = front ++ rest ∧ Reads r front a
  inside : ∀ bs, (r.run bs).2 <:+ bs

namespace Tight

theorem isLocal {r : Reader ε α} (h : Tight r) : Local r := by
  intro bs a rest hrun tail
  obtain ⟨front, rfl, hread⟩ := h.consumes hrun
  rw [List.append_assoc]
  exact hread (rest ++ tail)

theorem pure (a : α) : Tight (ε := ε) (Pure.pure a) where
  consumes h := by
    cases h
    exact ⟨[], rfl, Reads.pure a⟩
  inside bs := List.suffix_refl bs

theorem throw (e : ε) : Tight (α := α) (Prog.throw e) where
  consumes h := by cases h
  inside bs := List.suffix_refl bs

theorem bind {r : Reader ε α} {f : α → Reader ε β} (hr : Tight r) (hf : ∀ a, Tight (f a)) :
    Tight (r >>= f) where
  consumes {bs b rest} h := by
    rw [Prog.run_bind] at h
    rcases hrun : r.run bs with ⟨e | a, mid⟩
    · rw [hrun] at h
      cases h
    · rw [hrun] at h
      obtain ⟨front, rfl, hread⟩ := hr.consumes hrun
      obtain ⟨front', rfl, hread'⟩ := (hf a).consumes h
      exact ⟨front ++ front', (List.append_assoc _ _ _).symm, hread.bind hread'⟩
  inside bs := by
    have hmid := hr.inside bs
    rw [Prog.run_bind]
    rcases hrun : r.run bs with ⟨e | a, mid⟩
    · rw [hrun] at hmid
      exact hmid
    · rw [hrun] at hmid
      exact ((hf a).inside mid).trans hmid

theorem map {r : Reader ε α} (f : α → β) (hr : Tight r) : Tight (f <$> r) := by
  rw [map_eq_pure_bind]
  exact hr.bind fun a => pure (f a)

theorem require (c : Prop) [Decidable c] (e : ε) : Tight (Prog.require c e) := by
  rw [Prog.require]
  split
  · exact pure ()
  · exact throw e

theorem bytes (n : Nat) (short : ε) : Tight (readBytes n short) where
  consumes {bs a rest} h := by
    simp only [readBytes] at h
    cases hs : splitBytes n bs with
    | none =>
      rw [hs] at h
      cases h
    | some p =>
      rw [hs] at h
      cases h
      obtain ⟨hbs, hlength⟩ := splitBytes_eq_some hs
      exact ⟨p.1, hbs, Reads.bytes' short hlength⟩
  inside bs := by
    simp only [readBytes]
    cases hs : splitBytes n bs with
    | none => exact List.suffix_refl bs
    | some p => exact ⟨p.1, (splitBytes_eq_some hs).1.symm⟩

theorem le (n : Nat) (short : ε) : Tight (readLE n short) := (bytes n short).map getLE

theorem prefixed (n : Nat) (short : ε) : Tight (readPrefixed n short) :=
  (le n short).bind fun len => bytes len short

theorem many {r : Reader ε α} (hr : Tight r) (n : Nat) : Tight (readMany r n) := by
  induction n with
  | zero => exact pure []
  | succ n ih => exact hr.bind fun a => ih.bind fun as => pure (a :: as)

end Tight

theorem eq_putLE_of_run_readLE {n v : Nat} {short : ε} {bs rest : Bytes}
    (h : (readLE n short).run bs = (.ok v, rest)) : bs = putLE n v ++ rest ∧ v < 256 ^ n := by
  rw [readLE, map_eq_pure_bind] at h
  obtain ⟨front, mid, hfront, hv⟩ := Prog.exists_of_bind_ok h
  cases hv
  simp only [readBytes] at hfront
  cases hs : splitBytes n bs with
  | none =>
    rw [hs] at hfront
    cases hfront
  | some p =>
    rw [hs] at hfront
    cases hfront
    obtain ⟨hbs, rfl⟩ := splitBytes_eq_some hs
    exact ⟨by rw [putLE_getLE, hbs], getLE_lt _⟩

namespace Local

/-- Nothing but the whole of a format is read to its end. -/
theorem eq_of_prefix {r : Reader ε α} (hr : Local r) {bs front : Bytes} {a b : α}
    (hbs : Reads r bs a) (hfront : front <+: bs) (h : r.run front = (.ok b, [])) : front = bs := by
  obtain ⟨tail, rfl⟩ := hfront
  have hwhole := hbs []
  rw [List.append_nil, hr front b [] h tail] at hwhole
  have htail : tail = [] := (Prod.mk.inj hwhole).2
  rw [htail, List.append_nil]

end Local

/-! ### What a reader can yield -/

theorem wp_readBytes (n : Nat) (short : ε) (s : Bytes) :
    (readBytes n short).wp (fun bs _ => bs.length = n) (fun _ _ => True) s := by
  unfold Prog.wp readBytes
  cases h : splitBytes n s with
  | none => simp only [h]
  | some p => simpa only [h] using (splitBytes_eq_some h).2

theorem wp_readLE (n : Nat) (short : ε) (s : Bytes) :
    (readLE n short).wp (fun v _ => v < 256 ^ n) (fun _ _ => True) s := by
  rw [readLE, Prog.wp_map]
  refine Prog.wp_mono (wp_readBytes n short s) (fun bs _ h => ?_) (fun _ _ _ => trivial)
  rw [← h]
  exact getLE_lt bs

/-- Whatever `r` reads satisfies `P`. -/
def Yields (P : α → Prop) (r : Reader ε α) : Prop :=
  ∀ s, r.wp (fun a _ => P a) (fun _ _ => True) s

namespace Yields
variable {P : α → Prop} {Q : β → Prop}

theorem of_run {r : Reader ε α} (h : Yields P r) {s s' : Bytes} {a : α}
    (hrun : r.run s = (.ok a, s')) : P a :=
  Prog.wp_ok (Q := fun a _ => P a) (h s) hrun

theorem pure {a : α} (h : P a) : Yields (ε := ε) P (Pure.pure a) := fun _ => h

theorem throw (e : ε) : Yields P (Prog.throw e) := fun _ => trivial

theorem any (r : Reader ε α) : Yields (fun _ => True) r := fun _ => Prog.wp_true r

theorem mono {r : Reader ε α} {P' : α → Prop} (h : Yields P r) (hP : ∀ a, P a → P' a) :
    Yields P' r := fun s =>
  Prog.wp_mono (h s) (fun a _ ha => hP a ha) fun _ _ _ => trivial

theorem bind {r : Reader ε α} {f : α → Reader ε β} (hr : Yields P r)
    (hf : ∀ a, P a → Yields Q (f a)) : Yields Q (r >>= f) := fun s =>
  Prog.wp_bind.mpr (Prog.wp_mono (hr s) (fun a s' ha => hf a ha s') fun _ _ _ => trivial)

theorem map {r : Reader ε α} {f : α → β} (hr : Yields P r) (hf : ∀ a, P a → Q (f a)) :
    Yields Q (f <$> r) := fun s =>
  Prog.wp_map.mpr (Prog.wp_mono (hr s) (fun a _ ha => hf a ha) fun _ _ _ => trivial)

theorem bytes (n : Nat) (short : ε) : Yields (fun bs => bs.length = n) (readBytes n short) :=
  wp_readBytes n short

theorem le (n : Nat) (short : ε) : Yields (fun v => v < 256 ^ n) (readLE n short) :=
  wp_readLE n short

theorem prefixed (n : Nat) (short : ε) :
    Yields (fun bs => bs.length < 256 ^ n) (readPrefixed n short) :=
  (le n short).bind fun len hlen => (bytes len short).mono fun _ hbs => hbs ▸ hlen

theorem many {r : Reader ε α} (h : Yields P r) (n : Nat) :
    Yields (fun as => as.length = n ∧ ∀ a ∈ as, P a) (readMany r n) := by
  induction n with
  | zero => exact pure ⟨rfl, by simp⟩
  | succ n ih =>
    refine h.bind fun a ha => ih.bind fun as has => pure ?_
    exact ⟨by simp [has.1], List.forall_mem_cons.2 ⟨ha, has.2⟩⟩

end Yields

end Readers
end ByteFormat
