import JiaMiaoDB.Common.JsonText
import JiaMiaoDB.Common.JsonReader
import JiaMiaoDB.Lib.Decimal
import Mathlib.Algebra.BigOperators.Group.List.Basic

/-! Reading a written JSON value back. Keys are written as they are and read like any string, so the
text gives the value back when no key holds a quote or a backslash, and then only. -/

set_option autoImplicit false

namespace JiaMiaoDB
open ByteFormat

namespace Json

/-! ### Strings -/

theorem parseString_quote (bs : Bytes) : parseString (34 :: bs) = ([], bs) := by
  rw [parseString]

theorem parseString_plain {c : UInt8} (hquote : c ≠ 34) (hslash : c ≠ 92) (bs : Bytes) :
    parseString (c :: bs) = (c :: (parseString bs).1, (parseString bs).2) := by
  rw [parseString]
  · exact hquote
  · exact fun h => absurd h hslash
  · exact fun _ _ h => absurd h hslash

/-- The character a backslash and `c` stand for. -/
def unescape (c : UInt8) : UInt8 :=
  if c = 110 then 10 else if c = 116 then 9 else if c = 114 then 13 else c

theorem parseString_slash (c : UInt8) (bs : Bytes) :
    parseString (92 :: c :: bs) = (unescape c :: (parseString bs).1, (parseString bs).2) := by
  rw [parseString]
  rfl

@[elab_as_elim]
theorem string_induction {motive : Bytes → Prop} (nil : motive [])
    (quote : ∀ rest, motive (34 :: rest)) (cut : motive [92])
    (slash : ∀ c rest, motive rest → motive (92 :: c :: rest))
    (plain : ∀ c rest, c ≠ 34 → c ≠ 92 → motive rest → motive (c :: rest)) (bs : Bytes) :
    motive bs := by
  induction bs using parseString.induct with
  | case1 => exact nil
  | case2 rest => exact quote rest
  | case3 => exact cut
  | case4 c rest _ _ _ ih => exact slash c rest ih
  | case5 c rest hquote hend hslash _ _ _ ih =>
    refine plain c rest hquote ?_ ih
    intro hc
    cases rest with
    | nil => exact hend hc rfl
    | cons d rest => exact hslash d rest hc rfl

theorem parseString_escape (c : UInt8) (bs : Bytes) :
    parseString (escape c ++ bs) = (c :: (parseString bs).1, (parseString bs).2) := by
  unfold escape
  split
  · next h =>
    subst h
    exact parseString_slash 34 bs
  split
  · next h =>
    subst h
    exact parseString_slash 92 bs
  split
  · next h =>
    subst h
    exact parseString_slash 110 bs
  split
  · next h =>
    subst h
    exact parseString_slash 116 bs
  · next hquote hslash _ _ => exact parseString_plain hquote hslash bs

theorem parseString_flatMap_escape (s : Str) (bs : Bytes) :
    parseString (s.flatMap escape ++ 34 :: bs) = (s, bs) := by
  induction s with
  | nil => exact parseString_quote bs
  | cons c s ih => rw [List.flatMap_cons, List.append_assoc, parseString_escape, ih]

theorem parseString_plainKey {k : Str} (hquote : 34 ∉ k) (hslash : 92 ∉ k) (bs : Bytes) :
    parseString (k ++ 34 :: bs) = (k, bs) := by
  induction k with
  | nil => exact parseString_quote bs
  | cons c k ih =>
    rw [List.mem_cons, not_or] at hquote hslash
    rw [List.cons_append, parseString_plain (Ne.symm hquote.1) (Ne.symm hslash.1),
      ih hquote.2 hslash.2]

/-! ### Numbers -/

/-- No byte a number could go on with. -/
def EndsNumber (bs : Bytes) : Prop :=
  ∀ c ∈ bs.head?, isDigit c = false ∧ c ≠ 46 ∧ c ≠ 101 ∧ c ≠ 69

theorem endsNumber_cons {c : UInt8} {bs : Bytes}
    (h : isDigit c = false ∧ c ≠ 46 ∧ c ≠ 101 ∧ c ≠ 69) : EndsNumber (c :: bs) := by
  intro c' hc'
  cases hc'
  exact h

theorem isDigit_of_mem_decimal {n : Nat} {b : UInt8} (h : b ∈ Binary64.decimal n) :
    isDigit b = true := by
  obtain ⟨hlo, hhi⟩ := Binary64.mem_decimal h
  simp [isDigit, hlo, hhi]

theorem takeWhile_decimal {n : Nat} {rest : Bytes} (hrest : EndsNumber rest) :
    (Binary64.decimal n ++ rest).takeWhile isDigit = Binary64.decimal n := by
  rw [List.takeWhile_append_of_pos fun b hb => isDigit_of_mem_decimal hb]
  cases rest with
  | nil => simp
  | cons c rest => simp [(hrest c rfl).1]

theorem dropWhile_decimal {n : Nat} {rest : Bytes} (hrest : EndsNumber rest) :
    (Binary64.decimal n ++ rest).dropWhile isDigit = rest := by
  rw [List.dropWhile_append_of_pos fun b hb => isDigit_of_mem_decimal hb]
  cases rest with
  | nil => rfl
  | cons c rest => simp [(hrest c rfl).1]

theorem scanNumber_neg_decimal (n : Nat) {rest : Bytes} (hrest : EndsNumber rest) :
    scanNumber (45 :: (Binary64.decimal n ++ rest)) = (45 :: Binary64.decimal n, false, rest) := by
  unfold scanNumber
  simp only [takeWhile_decimal hrest, dropWhile_decimal hrest]
  cases rest with
  | nil => simp
  | cons c rest =>
    obtain ⟨_, h46, h101, h69⟩ := hrest c rfl
    simp [h46, h101, h69]

theorem scanNumber_decimal (n : Nat) {rest : Bytes} (hrest : EndsNumber rest) :
    scanNumber (Binary64.decimal n ++ rest) = (Binary64.decimal n, false, rest) := by
  have hsign : ∀ r, Binary64.decimal n ++ rest ≠ 45 :: r := by
    cases hd : Binary64.decimal n with
    | nil => exact absurd hd (Binary64.decimal_ne_nil n)
    | cons b bs =>
      have hb := isDigit_of_mem_decimal (hd ▸ List.mem_cons_self : b ∈ Binary64.decimal n)
      rintro r h
      rw [(List.cons.inj h).1] at hb
      exact absurd hb (by decide)
  unfold scanNumber
  split
  · next h =>
    split at h
    · next heq => exact absurd heq (hsign _)
    · cases h
      simp only [takeWhile_decimal hrest, dropWhile_decimal hrest]
      cases rest with
      | nil => simp
      | cons c rest =>
        obtain ⟨_, h46, h101, h69⟩ := hrest c rfl
        simp [h46, h101, h69]

theorem scanNumber_int (i : Int) {rest : Bytes} (hrest : EndsNumber rest) :
    scanNumber (intToString i ++ rest) = (intToString i, false, rest) := by
  unfold intToString
  split
  · exact scanNumber_neg_decimal _ hrest
  · exact scanNumber_decimal _ hrest

theorem strtoll_intToString (i : Int64) : Binary64.strtoll (intToString i.toInt) = .value i := by
  have hlo := i.le_toInt
  have hhi := i.toInt_lt
  unfold intToString
  split
  · next hneg =>
    rw [Binary64.strtoll_neg_decimal (by omega), Int.ofNat_natAbs_of_nonpos hneg.le, neg_neg,
      Int64.ofInt_toInt]
  · next hpos =>
    rw [Binary64.strtoll_decimal (by omega), Int.natAbs_of_nonneg (not_lt.mp hpos),
      Int64.ofInt_toInt]

theorem intToString_head (i : Int) :
    ∃ c text, intToString i = c :: text ∧ (c = 45 ∨ isDigit c = true) := by
  unfold intToString
  split
  · exact ⟨45, _, rfl, .inl rfl⟩
  · cases hd : Binary64.decimal i.natAbs with
    | nil => exact absurd hd (Binary64.decimal_ne_nil _)
    | cons c text =>
      exact ⟨c, text, rfl, .inr (isDigit_of_mem_decimal (hd ▸ List.mem_cons_self))⟩

theorem parseNumber_int (i : Int64) {rest : Bytes} (hrest : EndsNumber rest) :
    parseNumber (intToString i.toInt ++ rest) = .ok (int i, rest) := by
  rw [parseNumber, scanNumber_int i.toInt hrest]
  dsimp only
  rw [if_neg (by decide), stoll, strtoll_intToString]
  rfl

/-! ### The values in a value -/

/-- The value itself and all that are nested in it. -/
def parts : Json → List Json
  | array js => array js :: partsItems js
  | object ms => object ms :: partsMembers ms
  | j => [j]
where
  partsItems : List Json → List Json
    | [] => []
    | j :: js => parts j ++ partsItems js
  partsMembers : List (Str × Json) → List Json
    | [] => []
    | (_, j) :: ms => parts j ++ partsMembers ms

def keys (j : Json) : List Str := j.members.map (·.1)

/-- `P` of the value and of all that are nested in it. -/
def Each (P : Json → Prop) (j : Json) : Prop := ∀ p ∈ j.parts, P p

instance (P : Json → Prop) [DecidablePred P] (j : Json) : Decidable (Each P j) :=
  inferInstanceAs (Decidable (∀ p ∈ j.parts, P p))

/-- The members of each object stand as in a map. -/
def Ordered : Json → Prop := Each fun p => p.keys.Pairwise fun k k' => compare k k' = .lt

def isFloat : Json → Bool
  | float _ => true
  | _ => false

def Floatless : Json → Prop := Each fun p => p.isFloat = false

def PlainKeys : Json → Prop := Each fun p => ∀ k ∈ p.keys, 34 ∉ k ∧ 92 ∉ k

instance (j : Json) : Decidable j.Ordered := inferInstanceAs (Decidable (Each _ j))

instance (j : Json) : Decidable j.Floatless := inferInstanceAs (Decidable (Each _ j))

instance (j : Json) : Decidable j.PlainKeys := inferInstanceAs (Decidable (Each _ j))

variable {P : Json → Prop}

theorem mem_partsItems {js : List Json} {p : Json} :
    p ∈ parts.partsItems js ↔ ∃ j ∈ js, p ∈ j.parts := by
  induction js with
  | nil => simp [parts.partsItems]
  | cons j js ih => simp [parts.partsItems, ih]

theorem mem_partsMembers {ms : List (Str × Json)} {p : Json} :
    p ∈ parts.partsMembers ms ↔ ∃ m ∈ ms, p ∈ m.2.parts := by
  induction ms with
  | nil => simp [parts.partsMembers]
  | cons m ms ih => simp [parts.partsMembers, ih]

theorem Each.self {j : Json} (h : Each P j) : P j := by
  refine h j ?_
  cases j <;> simp [parts]

theorem each_array {js : List Json} : Each P (array js) ↔ P (array js) ∧ ∀ j ∈ js, Each P j := by
  simp only [Each, parts, List.forall_mem_cons, mem_partsItems]
  exact and_congr_right' ⟨fun h j hj p hp => h p ⟨j, hj, hp⟩, fun h p ⟨j, hj, hp⟩ => h j hj p hp⟩

theorem each_object {ms : List (Str × Json)} :
    Each P (object ms) ↔ P (object ms) ∧ ∀ m ∈ ms, Each P m.2 := by
  simp only [Each, parts, List.forall_mem_cons, mem_partsMembers]
  exact and_congr_right' ⟨fun h m hm p hp => h p ⟨m, hm, hp⟩, fun h p ⟨m, hm, hp⟩ => h m hm p hp⟩

/-! ### Values -/

/-- What one value must be for its text to give it back. -/
structure Legible (p : Json) : Prop where
  ordered : p.keys.Pairwise fun k k' => compare k k' = .lt
  floatless : p.isFloat = false
  plain : ∀ k ∈ p.keys, 34 ∉ k ∧ 92 ∉ k

theorem each_legible {j : Json} :
    Each Legible j ↔ j.Ordered ∧ j.Floatless ∧ j.PlainKeys :=
  ⟨fun h => ⟨fun p hp => (h p hp).ordered, fun p hp => (h p hp).floatless,
      fun p hp => (h p hp).plain⟩,
    fun ⟨ho, hf, hk⟩ p hp => ⟨ho p hp, hf p hp, hk p hp⟩⟩

/-- A written value starts with a byte of its own. -/
theorem pretty_head (f : Layout) {j : Json} (hj : j.isFloat = false) (level : Nat) :
    ∃ c text, j.pretty f level = c :: text ∧ isWs c = false ∧ c ≠ 93 ∧ c ≠ 125 := by
  cases j with
  | null => exact ⟨_, _, rfl, by decide⟩
  | bool b => cases b <;> exact ⟨_, _, rfl, by decide⟩
  | int i =>
    obtain ⟨c, text, htext, hc⟩ := intToString_head i.toInt
    refine ⟨c, text, htext, ?_⟩
    rcases hc with rfl | hc
    · decide
    · obtain ⟨hlo, hhi⟩ := digit_range hc
      simp only [isWs]
      grind
  | float d => cases hj
  | string s => exact ⟨34, _, rfl, by decide⟩
  | array js => exact ⟨91, _, rfl, by decide⟩
  | object ms => exact ⟨123, _, rfl, by decide⟩

theorem insertMember_last {k : Str} {j : Json} {ms : List (Str × Json)}
    (h : ∀ m ∈ ms, compare m.1 k = .lt) : insertMember k j ms = ms ++ [(k, j)] := by
  induction ms with
  | nil => rfl
  | cons m ms ih =>
    obtain ⟨k', j'⟩ := m
    rw [List.forall_mem_cons] at h
    rw [insertMember, Std.OrientedCmp.gt_iff_lt.mpr h.1, ih h.2]
    rfl

theorem endsNumber_ws {w bs : Bytes} (hw : ∀ b ∈ w, isWs b = true) (hbs : EndsNumber bs) :
    EndsNumber (w ++ bs) := by
  cases w with
  | nil => exact hbs
  | cons c w =>
    refine endsNumber_cons ?_
    have hc := hw c List.mem_cons_self
    simp only [isWs, Bool.or_eq_true, beq_iff_eq] at hc
    rcases hc with ((rfl | rfl) | rfl) | rfl <;> decide

theorem skipWs_prettyItems (f : Layout) (j : Json) (js : List Json) (level : Nat) (bs : Bytes)
    (hj : j.isFloat = false) :
    (skipWs (pretty.prettyItems f (j :: js) level ++ bs)).head? ≠ some 93 := by
  obtain ⟨c, text, htext, hws, hc, -⟩ := pretty_head f hj level
  rw [pretty.prettyItems, htext]
  simp only [List.append_assoc]
  rw [skipWs_append (f.newline_ws level), List.cons_append, skipWs_cons hws]
  simpa using hc

theorem skipWs_prettyMembers (f : Layout) (k : Str) (j : Json) (ms : List (Str × Json))
    (level : Nat) (bs : Bytes) :
    skipWs (pretty.prettyMembers f ((k, j) :: ms) level ++ bs) =
      34 :: (k ++ 34 :: 58 :: (f.gap ++ (j.pretty f level ++
        ((if ms.isEmpty then [] else [44]) ++ (pretty.prettyMembers f ms level ++ bs))))) := by
  rw [pretty.prettyMembers]
  simp only [List.append_assoc]
  rw [skipWs_append (f.newline_ws level)]
  exact skipWs_cons (by decide) _

mutual

/-- The induction is on the value. The text is at most half as long as the fuel, since an item costs
a call for the item and one for the list. -/
theorem parseValue_pretty (f : Layout) (j : Json) (hj : Each Legible j) {fuel level : Nat}
    {rest : Bytes} (hfuel : 2 * (j.pretty f level).length ≤ fuel) (hrest : EndsNumber rest) :
    parseValue fuel (j.pretty f level ++ rest) = .ok (j, rest) := by
  obtain ⟨c, text, hpretty, hws, -⟩ := pretty_head f hj.self.floatless level
  have hskip : skipWs (j.pretty f level ++ rest) = j.pretty f level ++ rest := by
    rw [hpretty]
    exact skipWs_cons hws _
  obtain ⟨fuel, rfl⟩ : ∃ n, fuel = n + 1 := by
    refine Nat.exists_eq_succ_of_ne_zero ?_
    rintro rfl
    rw [hpretty] at hfuel
    simp at hfuel
  rw [parseValue_eq_ok, hskip]
  cases j with
  | null => exact .null rest
  | bool b =>
    cases b
    · exact .false rest
    · exact .true rest
  | int i =>
    obtain ⟨c, text, htext, hc⟩ := intToString_head i.toInt
    have hread := parseNumber_int i hrest
    rw [htext] at hread
    rw [pretty, htext]
    exact .number hc hread
  | float d => cases hj.self.floatless
  | string s =>
    rw [pretty, List.append_assoc, List.append_assoc]
    exact .string (parseString_flatMap_escape s rest)
  | array js =>
    cases js with
    | nil => exact .emptyArray rfl
    | cons j js =>
      have hjs := (each_array.mp hj).2
      have htext : (array (j :: js)).pretty f level ++ rest =
          91 :: (pretty.prettyItems f (j :: js) (level + 1) ++ (f.newline level ++ 93 :: rest)) := by
        simp [pretty]
      rw [htext]
      simp only [pretty, List.length_append, List.length_singleton] at hfuel
      exact .array (skipWs_prettyItems f j js _ _ (hjs j List.mem_cons_self).self.floatless)
        (parseItems_pretty f (j :: js) hjs (List.cons_ne_nil j js) (f.newline_ws level) (by omega))
  | object ms =>
    cases ms with
    | nil => exact .emptyObject rfl
    | cons m ms =>
      have hms := (each_object.mp hj).2
      have hself := hj.self
      have htext : (object (m :: ms)).pretty f level ++ rest = 123 ::
          (pretty.prettyMembers f (m :: ms) (level + 1) ++ (f.newline level ++ 125 :: rest)) := by
        simp [pretty]
      rw [htext]
      simp only [pretty, List.length_append, List.length_singleton] at hfuel
      have hread := @parseMembers_pretty f (m :: ms) hms (List.cons_ne_nil m ms) [] hself.ordered
        (fun m' hm' => hself.plain _ (List.mem_map_of_mem hm')) fuel (level + 1) (f.newline level)
        rest (f.newline_ws level) (by omega)
      refine .object ?_ hread
      rw [skipWs_prettyMembers]
      simp

theorem parseItems_pretty (f : Layout) (js : List Json) (hjs : ∀ j ∈ js, Each Legible j)
    (hne : js ≠ []) {fuel level : Nat} {w rest : Bytes} (hw : ∀ b ∈ w, isWs b = true)
    (hfuel : 2 * (pretty.prettyItems f js level).length + 1 ≤ fuel) :
    parseItems fuel (pretty.prettyItems f js level ++ (w ++ 93 :: rest)) = .ok (js, rest) := by
  obtain ⟨fuel, rfl⟩ : ∃ n, fuel = n + 1 := Nat.exists_eq_succ_of_ne_zero (by omega)
  rw [parseItems_eq_ok]
  cases js with
  | nil => exact absurd rfl hne
  | cons j js =>
    rw [List.forall_mem_cons] at hjs
    cases js with
    | nil =>
      simp only [pretty.prettyItems, List.length_append] at hfuel
      have hread := @parseValue_pretty f j hjs.1 fuel level (w ++ 93 :: rest) (by omega)
        (endsNumber_ws hw (endsNumber_cons (by decide)))
      have htext : pretty.prettyItems f [j] level ++ (w ++ 93 :: rest) =
          f.newline level ++ (j.pretty f level ++ (w ++ 93 :: rest)) := by
        simp [pretty.prettyItems]
      rw [htext]
      refine .last ((parseValue_ws (f.newline_ws level) _ _).trans hread) ?_
      rw [skipWs_append hw, skipWs_cons (by decide)]
      exact .bracket rest
    | cons j' js =>
      have htext : pretty.prettyItems f (j :: j' :: js) level ++ (w ++ 93 :: rest) =
          f.newline level ++ (j.pretty f level ++
            44 :: (pretty.prettyItems f (j' :: js) level ++ (w ++ 93 :: rest))) := by
        rw [pretty.prettyItems]
        simp
      rw [pretty.prettyItems] at hfuel
      simp only [List.isEmpty_cons, Bool.false_eq_true, if_false, List.length_append,
        List.length_singleton] at hfuel
      rw [htext]
      exact .more ((parseValue_ws (f.newline_ws level) _ _).trans
          (parseValue_pretty f j hjs.1 (by omega) (endsNumber_cons (by decide))))
        (skipWs_cons (by decide) _)
        (parseItems_pretty f (j' :: js) hjs.2 (List.cons_ne_nil j' js) hw (by omega))

theorem parseMembers_pretty (f : Layout) (ms : List (Str × Json)) (hms : ∀ m ∈ ms, Each Legible m.2)
    (hne : ms ≠ []) {acc : List (Str × Json)}
    (hkeys : ((acc ++ ms).map (·.1)).Pairwise fun k k' => compare k k' = .lt)
    (hplain : ∀ m ∈ ms, 34 ∉ m.1 ∧ 92 ∉ m.1) {fuel level : Nat} {w rest : Bytes}
    (hw : ∀ b ∈ w, isWs b = true)
    (hfuel : 2 * (pretty.prettyMembers f ms level).length + 1 ≤ fuel) :
    parseMembers fuel (pretty.prettyMembers f ms level ++ (w ++ 125 :: rest)) acc =
      .ok (acc ++ ms, rest) := by
  obtain ⟨fuel, rfl⟩ : ∃ n, fuel = n + 1 := Nat.exists_eq_succ_of_ne_zero (by omega)
  rw [parseMembers_eq_ok]
  cases ms with
  | nil => exact absurd rfl hne
  | cons m ms =>
    obtain ⟨k, j⟩ := m
    rw [List.forall_mem_cons] at hms hplain
    have hlast : insertMember k j acc = acc ++ [(k, j)] := by
      refine insertMember_last fun m hm => ?_
      rw [List.map_append, List.pairwise_append] at hkeys
      exact hkeys.2.2 _ (List.mem_map_of_mem hm) k List.mem_cons_self
    have hkey := parseString_plainKey hplain.1.1 hplain.1.2
    rw [skipWs_prettyMembers]
    cases ms with
    | nil =>
      simp only [pretty.prettyMembers, List.length_append] at hfuel
      rw [← hlast]
      refine .last acc (hkey _) (skipWs_cons (by decide) _)
        ((parseValue_ws f.gap_ws _ _).trans (parseValue_pretty f j hms.1 (by omega) ?_)) ?_
      · simp only [pretty.prettyMembers, List.isEmpty_nil, if_true, List.nil_append]
        exact endsNumber_ws hw (endsNumber_cons (by decide))
      · simp only [pretty.prettyMembers, List.isEmpty_nil, if_true, List.nil_append]
        rw [skipWs_append hw, skipWs_cons (by decide)]
        exact .bracket rest
    | cons m' ms =>
      rw [pretty.prettyMembers] at hfuel
      simp only [List.isEmpty_cons, Bool.false_eq_true, if_false, List.length_append,
        List.length_singleton] at hfuel
      have htail := @parseMembers_pretty f (m' :: ms) hms.2 (List.cons_ne_nil m' ms)
        (insertMember k j acc) (by rw [hlast]; simpa using hkeys) hplain.2 fuel level w rest hw
        (by omega)
      rw [hlast, List.append_assoc] at htail
      rw [← hlast] at htail
      exact .more (hkey _) (skipWs_cons (by decide) _)
        ((parseValue_ws f.gap_ws _ _).trans
          (parseValue_pretty f j hms.1 (by omega) (endsNumber_cons (by decide))))
        (skipWs_cons (by decide) _) htail

end

/-! ### Backslashes

Whatever a parser makes of a text, the strings it gives need at least as many backslashes when they
are written again as values, and keys written as they are need fewer than they took. -/

/-- One, unless a backslash in front would write a line break or a tab. -/
def turn (bs : Bytes) : Nat := if bs.head? = some 110 ∨ bs.head? = some 116 then 0 else 1

/-- Backslashes, without those of a line break or a tab. -/
def marks : Bytes → Nat
  | [] => 0
  | c :: bs => (if c = 92 then turn bs else 0) + marks bs

/-- Bytes that a key would have to escape. -/
def specials (s : Str) : Nat := s.countP fun c => c = 34 ∨ c = 92

theorem marks_plain {bs : Bytes} (h : 92 ∉ bs) (rest : Bytes) : marks (bs ++ rest) = marks rest := by
  induction bs with
  | nil => rfl
  | cons c bs ih =>
    rw [List.mem_cons, not_or] at h
    rw [List.cons_append, marks, if_neg (Ne.symm h.1), ih h.2, Nat.zero_add]

theorem turn_append_quote (bs rest : Bytes) : turn (bs ++ 34 :: rest) = turn (bs ++ [34]) := by
  cases bs <;> rfl

/-- A quote keeps what is on its two sides apart. -/
theorem marks_append_quote (bs rest : Bytes) :
    marks (bs ++ 34 :: rest) = marks (bs ++ [34]) + marks rest := by
  induction bs with
  | nil => simp [marks]
  | cons c bs ih =>
    simp only [List.cons_append, marks, ih, turn_append_quote, Nat.add_assoc]

theorem marks_le_of_suffix {bs rest : Bytes} (h : rest <:+ bs) : marks rest ≤ marks bs := by
  obtain ⟨front, rfl⟩ := h
  induction front with
  | nil => exact le_rfl
  | cons c front ih => exact ih.trans (Nat.le_add_left _ _)

theorem turn_le_one (bs : Bytes) : turn bs ≤ 1 := by
  unfold turn
  split <;> decide

/-- A letter that writes a line break or a tab is read as it stands. -/
theorem turn_parseString (bs : Bytes) :
    turn ((parseString bs).1.flatMap escape ++ [34]) ≤ turn bs ∧
      turn ((parseString bs).1 ++ [34]) ≤ turn bs := by
  by_cases h : bs.head? = some 110 ∨ bs.head? = some 116
  · rcases h with h | h
    all_goals
      obtain ⟨rest, rfl⟩ := List.head?_eq_some_iff.mp h
      rw [parseString_plain (by decide) (by decide)]
      exact ⟨Nat.le_refl 0, Nat.le_refl 0⟩
  · have hbs : turn bs = 1 := if_neg h
    rw [hbs]
    exact ⟨turn_le_one _, turn_le_one _⟩

theorem marks_escape (c : UInt8) (bs : Bytes) :
    marks (escape c ++ bs) =
      (if c = 34 then 1 else if c = 92 then 1 + turn bs else 0) + marks bs := by
  unfold escape
  split
  · simp [marks, turn]
  split
  · simp [marks, turn, Nat.add_assoc]
  split
  · simp [marks, turn]
  split
  · simp [marks, turn]
  · next hslash _ _ => simp [marks, hslash]

/-- What a backslash and `c` cost in the text covers what their character costs when it is written
as a value, where `t` and `t'` are the turns of what follows. -/
theorem escape_unescape_le (c : UInt8) {t t' : Nat} (h : t ≤ t') :
    (if unescape c = 34 then 1 else if unescape c = 92 then 1 + t else 0) ≤
      (if c = 110 ∨ c = 116 then 0 else 1) + if c = 92 then t' else 0 := by
  unfold unescape
  grind

/-- The same for a key: its own mark, and the escape it would need. -/
theorem special_unescape_le (c : UInt8) {t t' : Nat} (h : t ≤ t') :
    (if unescape c = 92 then t else 0) + (if unescape c = 34 ∨ unescape c = 92 then 1 else 0) ≤
      (if c = 110 ∨ c = 116 then 0 else 1) + if c = 92 then t' else 0 := by
  unfold unescape
  grind

theorem marks_slash (c : UInt8) (bs : Bytes) :
    marks (92 :: c :: bs) =
      (if c = 110 ∨ c = 116 then 0 else 1) + (if c = 92 then turn bs else 0) + marks bs := by
  simp [marks, turn, Nat.add_assoc]

theorem marks_parseString (bs : Bytes) :
    marks ((parseString bs).1.flatMap escape ++ [34]) + marks (parseString bs).2 ≤ marks bs := by
  induction bs using string_induction with
  | nil => simp [parseString, marks]
  | quote rest => simp [parseString_quote, marks]
  | cut => simp [parseString, marks]
  | slash c rest ih =>
    have hle := escape_unescape_le c (turn_parseString rest).1
    rw [parseString_slash, marks_slash, List.flatMap_cons, List.append_assoc, marks_escape]
    dsimp only
    omega
  | plain c rest hquote hslash ih =>
    rw [parseString_plain hquote hslash, List.flatMap_cons, List.append_assoc, marks_escape,
      if_neg hquote, if_neg hslash, marks, if_neg hslash]
    dsimp only
    omega

theorem specials_parseString (bs : Bytes) :
    marks ((parseString bs).1 ++ [34]) + specials (parseString bs).1 + marks (parseString bs).2 ≤
      marks bs := by
  induction bs using string_induction with
  | nil => simp [parseString, marks, specials]
  | quote rest => simp [parseString_quote, marks, specials]
  | cut => simp [parseString, marks, specials]
  | slash c rest ih =>
    have hle := special_unescape_le c (turn_parseString rest).2
    rw [parseString_slash, marks_slash, List.cons_append, marks, specials, List.countP_cons]
    rw [specials] at ih
    simp only [decide_eq_true_eq]
    omega
  | plain c rest hquote hslash ih =>
    rw [parseString_plain hquote hslash, List.cons_append, marks, if_neg hslash, marks,
      if_neg hslash, specials, List.countP_cons]
    rw [specials] at ih
    simp only [hquote, hslash, or_self, decide_false, Bool.false_eq_true, if_false]
    omega

/-- What one value costs: its string written as a value, or its keys at `cost` each. -/
def partWeight (cost : Str → Nat) (p : Json) : Nat :=
  match p with
  | string s => marks (s.flatMap escape ++ [34])
  | p => (p.keys.map cost).sum

def weight (cost : Str → Nat) (j : Json) : Nat := (j.parts.map (partWeight cost)).sum

def membersWeight (cost : Str → Nat) (ms : List (Str × Json)) : Nat :=
  (ms.map fun m => cost m.1 + weight cost m.2).sum

/-- A key as it is written. -/
def written (k : Str) : Nat := marks (k ++ [34])

/-- A key as it was read. -/
def read (k : Str) : Nat := written k + specials k

variable {cost : Str → Nat}

theorem weight_array (js : List Json) :
    weight cost (array js) = (js.map (weight cost)).sum := by
  have hitems : ((parts.partsItems js).map (partWeight cost)).sum =
      (js.map (weight cost)).sum := by
    induction js with
    | nil => rfl
    | cons j js ih => simp [parts.partsItems, ih, weight]
  rw [weight, parts, List.map_cons, List.sum_cons, hitems]
  exact Nat.zero_add _

theorem weight_object (ms : List (Str × Json)) :
    weight cost (object ms) = membersWeight cost ms := by
  have hmembers : ((parts.partsMembers ms).map (partWeight cost)).sum =
      (ms.map fun m => weight cost m.2).sum := by
    induction ms with
    | nil => rfl
    | cons m ms ih => simp [parts.partsMembers, ih, weight]
  rw [weight, parts, List.map_cons, List.sum_cons, hmembers, membersWeight, List.sum_map_add]
  simp [partWeight, keys, members, Function.comp_def]

theorem weight_string (s : Str) :
    weight cost (string s) = marks (s.flatMap escape ++ [34]) := by
  simp [weight, parts, partWeight]

theorem weight_leaf {j : Json} (hparts : j.parts = [j]) (hkeys : j.keys = [])
    (hstring : ∀ s, j ≠ string s) : weight cost j = 0 := by
  rw [weight, hparts]
  cases j <;> simp_all [partWeight, keys]

/-- The keys themselves, apart from what they are written with. -/
theorem weight_read (j : Json) :
    weight read j = weight written j + (j.parts.map fun p => (p.keys.map specials).sum).sum := by
  have hpart : ∀ p : Json, partWeight read p = partWeight written p + (p.keys.map specials).sum := by
    intro p
    cases p with
    | string s => rfl
    | _ => exact List.sum_map_add
  rw [weight, weight, ← List.sum_map_add]
  exact congrArg List.sum (List.map_congr_left fun p _ => hpart p)

theorem intToString_plain (i : Int) : 92 ∉ intToString i := by
  have hdecimal : ∀ n, (92 : UInt8) ∉ Binary64.decimal n := by
    intro n h
    exact absurd (Binary64.mem_decimal h).2 (by decide)
  unfold intToString
  split
  · simp [hdecimal]
  · exact hdecimal _

theorem ws_plain {w : Str} (hw : ∀ b ∈ w, isWs b = true) : 92 ∉ w :=
  fun h => absurd (hw 92 h) (by decide)

theorem marks_ws {w : Str} (hw : ∀ b ∈ w, isWs b = true) (bs : Bytes) :
    marks (w ++ bs) = marks bs := marks_plain (ws_plain hw) bs

theorem marks_unless (p : Bool) {w : Str} (hw : 92 ∉ w) (bs : Bytes) :
    marks ((if p then [] else w) ++ bs) = marks bs := by
  cases p
  · exact marks_plain hw bs
  · rfl

theorem marks_cons {c : UInt8} (hc : c ≠ 92) (bs : Bytes) : marks (c :: bs) = marks bs := by
  rw [marks, if_neg hc, Nat.zero_add]

mutual

/-- A text has the marks of its strings and keys and no others. -/
theorem marks_pretty (f : Layout) (j : Json) (hj : j.Floatless) (level : Nat) (rest : Bytes) :
    marks (j.pretty f level ++ rest) = weight written j + marks rest := by
  cases j with
  | null => rw [pretty, marks_plain (by decide), weight_leaf rfl rfl (by simp), Nat.zero_add]
  | bool b =>
    rw [pretty, marks_plain (by cases b <;> decide), weight_leaf rfl rfl (by simp), Nat.zero_add]
  | int i =>
    rw [pretty, marks_plain (intToString_plain _), weight_leaf rfl rfl (by simp), Nat.zero_add]
  | float d => cases hj.self
  | string s =>
    rw [pretty, List.append_assoc, List.append_assoc, marks_plain (by decide), weight_string]
    exact marks_append_quote _ rest
  | array js =>
    simp only [pretty, List.append_assoc, List.cons_append, List.nil_append]
    rw [marks_cons (by decide), marks_prettyItems f js (each_array.mp hj).2,
      marks_unless _ (ws_plain (f.newline_ws level)), marks_cons (by decide), weight_array]
  | object ms =>
    simp only [pretty, List.append_assoc, List.cons_append, List.nil_append]
    rw [marks_cons (by decide), marks_prettyMembers f ms (each_object.mp hj).2,
      marks_unless _ (ws_plain (f.newline_ws level)), marks_cons (by decide), weight_object]

theorem marks_prettyItems (f : Layout) (js : List Json) (hjs : ∀ j ∈ js, j.Floatless) (level : Nat)
    (rest : Bytes) :
    marks (pretty.prettyItems f js level ++ rest) = (js.map (weight written)).sum + marks rest := by
  cases js with
  | nil => simp [pretty.prettyItems]
  | cons j js =>
    rw [List.forall_mem_cons] at hjs
    simp only [pretty.prettyItems, List.append_assoc]
    rw [marks_ws (f.newline_ws level), marks_pretty f j hjs.1, marks_unless _ (by decide),
      marks_prettyItems f js hjs.2, List.map_cons, List.sum_cons, Nat.add_assoc]

theorem marks_prettyMembers (f : Layout) (ms : List (Str × Json)) (hms : ∀ m ∈ ms, m.2.Floatless)
    (level : Nat) (rest : Bytes) :
    marks (pretty.prettyMembers f ms level ++ rest) = membersWeight written ms + marks rest := by
  cases ms with
  | nil => simp [pretty.prettyMembers, membersWeight]
  | cons m ms =>
    obtain ⟨k, j⟩ := m
    rw [List.forall_mem_cons] at hms
    simp only [pretty.prettyMembers, List.append_assoc, List.cons_append, List.nil_append]
    rw [marks_ws (f.newline_ws level), marks_cons (by decide), marks_append_quote k,
      @marks_cons 58 (by decide), marks_ws f.gap_ws, marks_pretty f j hms.1,
      marks_unless _ (by decide), marks_prettyMembers f ms hms.2]
    simp only [membersWeight, List.map_cons, List.sum_cons, written, Nat.add_assoc]

end

/-- A key given twice keeps its place, and the earlier value is lost. -/
theorem membersWeight_insertMember (k : Str) (j : Json) (ms : List (Str × Json)) :
    membersWeight cost (insertMember k j ms) ≤
      membersWeight cost ms + (cost k + weight cost j) := by
  induction ms with
  | nil => simp [insertMember, membersWeight]
  | cons m ms ih =>
    obtain ⟨k', j'⟩ := m
    simp only [membersWeight, List.map_cons, List.sum_cons] at ih ⊢
    rw [insertMember]
    split
    · simp only [List.map_cons, List.sum_cons]
      omega
    · next heq =>
      rw [Std.LawfulEqCmp.eq_of_compare heq]
      simp only [List.map_cons, List.sum_cons]
      omega
    · simp only [List.map_cons, List.sum_cons]
      omega

theorem marks_skipWs (bs : Bytes) : marks (skipWs bs) = marks bs := by
  obtain ⟨w, hw, hbs⟩ := exists_skipWs bs
  conv_rhs => rw [hbs]
  exact (marks_ws hw _).symm

theorem scanNumber_suffix (bs : Bytes) : (scanNumber bs).2.2 <:+ bs := by
  have hdigits := fun l : Bytes => (List.dropWhile_suffix isDigit : _ <:+ l)
  have htail := fun (c : UInt8) (l : Bytes) => List.suffix_cons c l
  unfold scanNumber
  dsimp only
  repeat' split
  all_goals grind [List.IsSuffix.trans]

theorem parseNumber_weight {bs rest : Bytes} {j : Json} (h : parseNumber bs = .ok (j, rest)) :
    weight cost j = 0 ∧ rest <:+ bs := by
  have hsuffix := scanNumber_suffix bs
  unfold parseNumber at h
  dsimp only at h
  split at h
  · obtain ⟨d, -, hd⟩ := ExceptList.map_ok_iff.mp h
    cases hd
    exact ⟨weight_leaf rfl rfl (by simp), hsuffix⟩
  · obtain ⟨i, -, hi⟩ := ExceptList.map_ok_iff.mp h
    cases hi
    exact ⟨weight_leaf rfl rfl (by simp), hsuffix⟩

theorem marks_closes {bracket : UInt8} {bs rest : Bytes} (hbracket : bracket ≠ 92)
    (h : Closes bracket bs rest) : marks rest = marks bs := by
  cases h with
  | bracket => exact (marks_cons hbracket _).symm
  | missing => rfl

theorem weight_member {bs after val after' : Bytes} {key : Str} {j : Json}
    (ms : List (Str × Json)) (hkey : parseString bs = (key, after))
    (hcolon : skipWs after = 58 :: val) (hj : weight read j + marks after' ≤ marks val) :
    membersWeight read (insertMember key j ms) + marks after' ≤
      membersWeight read ms + marks bs := by
  have hstring := specials_parseString bs
  have hinsert := @membersWeight_insertMember read key j ms
  rw [hkey, ← marks_skipWs after, hcolon, marks_cons (by decide)] at hstring
  simp only [read, written] at hinsert hstring
  omega

/-- Reading never gives more than the marks of what it takes. The induction is on the fuel, one case
for each way a call can end. -/
theorem weight_parse (fuel : Nat) :
    (∀ bs j rest, parseValue fuel bs = .ok (j, rest) →
      weight read j + marks rest ≤ marks bs) ∧
    (∀ bs js rest, parseItems fuel bs = .ok (js, rest) →
      (js.map (weight read)).sum + marks rest ≤ marks bs) ∧
    ∀ bs ms ms' rest, parseMembers fuel bs ms = .ok (ms', rest) →
      membersWeight read ms' + marks rest ≤ membersWeight read ms + marks bs := by
  induction fuel with
  | zero =>
    refine ⟨?_, ?_, ?_⟩
    · intro _ _ _ h
      cases h
    · intro _ _ _ h
      cases h
    · intro _ _ _ _ h
      cases h
  | succ fuel ih =>
    obtain ⟨ihValue, ihItems, ihMembers⟩ := ih
    refine ⟨?_, ?_, ?_⟩
    · intro bs j rest h
      rw [parseValue_eq_ok] at h
      rw [← marks_skipWs bs]
      generalize skipWs bs = text at h
      cases h with
      | @string bs rest s h =>
        have hle := marks_parseString bs
        rw [h] at hle
        rw [weight_string, marks_cons (by decide)]
        exact hle
      | @emptyObject bs rest h =>
        rw [weight_object, marks_cons (by decide), ← marks_skipWs bs, h, marks_cons (by decide)]
        exact (Nat.zero_add _).le
      | @object bs rest ms hopen h =>
        have hle := ihMembers _ _ _ _ h
        rw [weight_object, marks_cons (by decide)]
        simpa [membersWeight] using hle
      | @emptyArray bs rest h =>
        rw [weight_array, marks_cons (by decide), ← marks_skipWs bs, h, marks_cons (by decide)]
        exact (Nat.zero_add _).le
      | array hopen h =>
        rw [weight_array, marks_cons (by decide)]
        exact ihItems _ _ _ h
      | true => rw [marks_plain (by decide), weight_leaf rfl rfl (by simp), Nat.zero_add]
      | false => rw [marks_plain (by decide), weight_leaf rfl rfl (by simp), Nat.zero_add]
      | null => rw [marks_plain (by decide), weight_leaf rfl rfl (by simp), Nat.zero_add]
      | number hc h =>
        obtain ⟨hzero, hsuffix⟩ := parseNumber_weight h
        rw [hzero, Nat.zero_add]
        exact marks_le_of_suffix hsuffix
    · intro bs js rest h
      rw [parseItems_eq_ok] at h
      cases h with
      | @last after rest j hj hclose =>
        have hvalue := ihValue _ _ _ hj
        rw [marks_closes (by decide) hclose, marks_skipWs]
        simpa using hvalue
      | @more after next rest j js hj hcomma hjs =>
        have hvalue := ihValue _ _ _ hj
        have hitems := ihItems _ _ _ hjs
        rw [← marks_skipWs after, hcomma, marks_cons (by decide)] at hvalue
        rw [List.map_cons, List.sum_cons]
        omega
    · intro bs ms ms' rest h
      rw [parseMembers_eq_ok] at h
      rw [← marks_skipWs bs]
      generalize skipWs bs = text at h
      cases h with
      | close => rw [marks_cons (by decide)]
      | last ms hkey hcolon hj hclose =>
        rw [marks_closes (by decide) hclose, marks_skipWs, marks_cons (by decide)]
        exact weight_member ms hkey hcolon (ihValue _ _ _ hj)
      | @more bs after val after' next rest key j ms ms' hkey hcolon hj hcomma hms =>
        have hmember := weight_member ms hkey hcolon (ihValue _ _ _ hj)
        rw [← marks_skipWs after', hcomma, marks_cons (by decide)] at hmember
        rw [marks_cons (by decide)]
        exact (ihMembers _ _ _ _ hms).trans hmember

/-! ### The round trip -/

theorem parse_eq_ok {text : Str} {j : Json} :
    parse text = .ok j ↔ ∃ rest, parseValue (2 * text.length + 2) text = .ok (j, rest) := by
  rw [parse, ExceptList.map_ok_iff]
  constructor
  · rintro ⟨⟨j', rest⟩, h, rfl⟩
    exact ⟨rest, h⟩
  · rintro ⟨rest, h⟩
    exact ⟨_, h, rfl⟩

theorem parse_pretty (f : Layout) {j : Json} (hj : Each Legible j) (level : Nat) :
    parse (j.pretty f level) = .ok j := by
  have hread := @parseValue_pretty f j hj (2 * (j.pretty f level).length + 2) level [] (by omega)
    (fun c hc => by cases hc)
  rw [List.append_nil] at hread
  exact parse_eq_ok.mpr ⟨[], hread⟩

/-- A key that would need an escape costs more when it was read than when it is written. -/
theorem plainKeys_of_parse (f : Layout) {j : Json} (hf : j.Floatless) {level : Nat}
    (h : parse (j.pretty f level) = .ok j) : j.PlainKeys := by
  obtain ⟨rest, hread⟩ := parse_eq_ok.mp h
  have hle := (weight_parse _).1 _ _ _ hread
  have htext := marks_pretty f j hf level []
  rw [List.append_nil] at htext
  rw [htext, weight_read] at hle
  have hzero : (j.parts.map fun p => (p.keys.map specials).sum).sum = 0 := by
    have hnil : marks [] = 0 := rfl
    omega
  intro p hp k hk
  have hp0 := List.sum_eq_zero_iff_forall_eq_nat.mp hzero _ (List.mem_map_of_mem hp)
  have hk0 := List.sum_eq_zero_iff_forall_eq_nat.mp hp0 _ (List.mem_map_of_mem hk)
  rw [specials, List.countP_eq_zero] at hk0
  refine ⟨fun h34 => ?_, fun h92 => ?_⟩
  · exact absurd (hk0 34 h34) (by decide)
  · exact absurd (hk0 92 h92) (by decide)

/-- Text and back, for every indentation: the widths must be ones that `dump` can write, and no key
may hold a quote or a backslash. -/
theorem parse_dump_iff (indent : Int32) (j : Json) (ho : j.Ordered) (hf : j.Floatless) :
    (∃ text, j.dumpIndented indent = some text ∧ parse text = .ok j) ↔
      j.WidthsFit indent ∧ j.PlainKeys := by
  constructor
  · rintro ⟨text, hdump, hparse⟩
    obtain ⟨hfit, rfl⟩ := dumpIndented_eq_some.mp hdump
    exact ⟨hfit, plainKeys_of_parse _ hf hparse⟩
  · rintro ⟨hfit, hk⟩
    exact ⟨_, dumpIndented_eq_some.mpr ⟨hfit, rfl⟩,
      parse_pretty _ (each_legible.mpr ⟨ho, hf, hk⟩) 0⟩

/-- An object in an array, with a text that needs escapes. -/
def escapedItems : Json :=
  array [object [(str "a", int (-1)), (str "b", array [null, bool true])], string [34, 92, 10]]

theorem parse_dump_escapedItems :
    ∃ text, escapedItems.dumpIndented 2 = some text ∧ parse text = .ok escapedItems :=
  (parse_dump_iff 2 escapedItems (by decide +kernel) (by decide +kernel)).mpr
    ⟨by decide +kernel, by decide +kernel⟩

/-- One key that holds a quote. -/
def quotedKey : Json := object [([34], int 1)]

theorem parse_dump_quotedKey :
    quotedKey.Ordered ∧ quotedKey.Floatless ∧
      ¬ ∃ text, quotedKey.dumpIndented 0 = some text ∧ parse text = .ok quotedKey := by
  refine ⟨by decide +kernel, by decide +kernel, ?_⟩
  rintro ⟨text, hdump, hparse⟩
  rw [dumpIndented_zero] at hdump
  cases hdump
  have hfail : (parse quotedKey.dump).isOk = false := by decide +kernel
  rw [hparse] at hfail
  cases hfail

end Json
end JiaMiaoDB
