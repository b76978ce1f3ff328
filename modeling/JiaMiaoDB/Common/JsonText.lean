import JiaMiaoDB.Common.Json

/-! The text `dump` writes with an indentation. What the indentation puts in is white space, so the
text is one of a family: the same tokens under some `Layout`. -/

set_option autoImplicit false

namespace JiaMiaoDB
open ByteFormat

namespace Json

/-! ### Output with indentation -/

/-- What goes before an item and before a closing bracket. `std::string` throws on a negative width,
and the product of two `int`s may leave their range: both are `none`. -/
def lineBreak (indent : Int32) (level : Nat) : Option Str :=
  if indent = 0 then some []
  else
    let width := level * indent.toInt
    if 0 ≤ width ∧ width < 2 ^ 31 then some (10 :: List.replicate width.toNat 32) else none

def afterColon (indent : Int32) : Str := if indent = 0 then [] else [32]

/-- Keys are written as they are, only string values are escaped. -/
def serialize (indent : Int32) : Json → Nat → Option Str
  | null, _ => some (str "null")
  | bool b, _ => some (if b then str "true" else str "false")
  | int i, _ => some (intToString i.toInt)
  | float d, _ => some (floatText d)
  | string s, _ => some ([34] ++ s.flatMap escape ++ [34])
  | array js, level => do
    let body ← serializeItems js (level + 1)
    let close ← if js.isEmpty then some [] else lineBreak indent level
    some ([91] ++ body ++ close ++ [93])
  | object ms, level => do
    let body ← serializeMembers ms (level + 1)
    let close ← if ms.isEmpty then some [] else lineBreak indent level
    some ([123] ++ body ++ close ++ [125])
where
  serializeItems : List Json → Nat → Option Str
    | [], _ => some []
    | j :: js, level => do
      let lead ← lineBreak indent level
      let item ← serialize indent j level
      let rest ← serializeItems js level
      some (lead ++ item ++ (if js.isEmpty then [] else [44]) ++ rest)
  serializeMembers : List (Str × Json) → Nat → Option Str
    | [], _ => some []
    | (k, j) :: ms, level => do
      let lead ← lineBreak indent level
      let item ← serialize indent j level
      let rest ← serializeMembers ms level
      some (lead ++ [34] ++ k ++ [34, 58] ++ afterColon indent ++ item ++
        (if ms.isEmpty then [] else [44]) ++ rest)

def dumpIndented (indent : Int32) (j : Json) : Option Str := j.serialize indent 0

/-! ### Layouts -/

structure Layout where
  newline : Nat → Str
  gap : Str
  newline_ws : ∀ level, ∀ b ∈ newline level, isWs b = true
  gap_ws : ∀ b ∈ gap, isWs b = true

def Layout.ofIndent (indent : Int32) : Layout where
  newline level :=
    if indent = 0 then [] else 10 :: List.replicate (level * indent.toInt).toNat 32
  gap := afterColon indent
  newline_ws := by
    intro level b hb
    split at hb
    · cases hb
    · rcases List.mem_cons.mp hb with rfl | hb
      · rfl
      · rw [List.eq_of_mem_replicate hb]
        rfl
  gap_ws := by
    intro b hb
    unfold afterColon at hb
    split at hb
    · cases hb
    · rw [List.mem_singleton.mp hb]
      rfl

def pretty (f : Layout) : Json → Nat → Str
  | null, _ => str "null"
  | bool b, _ => if b then str "true" else str "false"
  | int i, _ => intToString i.toInt
  | float d, _ => floatText d
  | string s, _ => [34] ++ s.flatMap escape ++ [34]
  | array js, level =>
    [91] ++ prettyItems js (level + 1) ++ (if js.isEmpty then [] else f.newline level) ++ [93]
  | object ms, level =>
    [123] ++ prettyMembers ms (level + 1) ++ (if ms.isEmpty then [] else f.newline level) ++ [125]
where
  prettyItems : List Json → Nat → Str
    | [], _ => []
    | j :: js, level =>
      f.newline level ++ pretty f j level ++ (if js.isEmpty then [] else [44]) ++ prettyItems js level
  prettyMembers : List (Str × Json) → Nat → Str
    | [], _ => []
    | (k, j) :: ms, level =>
      f.newline level ++ [34] ++ k ++ [34, 58] ++ f.gap ++ pretty f j level ++
        (if ms.isEmpty then [] else [44]) ++ prettyMembers ms level

/-! ### The widths an `int` can hold -/

/-- Nesting of the containers that hold something; the others are written on one line. -/
def depth : Json → Nat
  | array (j :: js) => 1 + max (depth j) (depthItems js)
  | object ((_, j) :: ms) => 1 + max (depth j) (depthMembers ms)
  | _ => 0
where
  depthItems : List Json → Nat
    | [] => 0
    | j :: js => max (depth j) (depthItems js)
  depthMembers : List (Str × Json) → Nat
    | [] => 0
    | (_, j) :: ms => max (depth j) (depthMembers ms)

/-- `dump` can indent lines down to `level`. -/
def Room (indent : Int32) (level : Nat) : Prop :=
  indent = 0 ∨ 0 < indent.toInt ∧ level * indent.toInt < 2 ^ 31

def WidthsFit (indent : Int32) (j : Json) : Prop := j.depth = 0 ∨ Room indent j.depth

instance (indent : Int32) (level : Nat) : Decidable (Room indent level) :=
  inferInstanceAs (Decidable (_ ∨ _))

instance (indent : Int32) (j : Json) : Decidable (WidthsFit indent j) :=
  inferInstanceAs (Decidable (_ ∨ _))

variable {indent : Int32} {level : Nat}

theorem Room.mono {level' : Nat} (h : Room indent level) (hle : level' ≤ level) :
    Room indent level' := by
  rcases h with h | ⟨hpos, hlt⟩
  · exact .inl h
  · refine .inr ⟨hpos, lt_of_le_of_lt ?_ hlt⟩
    exact Int.mul_le_mul_of_nonneg_right (Int.ofNat_le.mpr hle) hpos.le

theorem room_max {a b : Nat} :
    Room indent (level + max a b) ↔ Room indent (level + a) ∧ Room indent (level + b) := by
  constructor
  · intro h
    exact ⟨h.mono (by omega), h.mono (by omega)⟩
  · intro h
    rcases Nat.le_total a b with hab | hab
    · rw [Nat.max_eq_right hab]
      exact h.2
    · rw [Nat.max_eq_left hab]
      exact h.1

theorem lineBreak_eq_some {lead : Str} (hlevel : 0 < level) :
    lineBreak indent level = some lead ↔
      Room indent level ∧ lead = (Layout.ofIndent indent).newline level := by
  unfold lineBreak Room Layout.ofIndent
  by_cases h0 : indent = 0
  · simp [h0, eq_comm]
  · have hne : indent.toInt ≠ 0 := fun h => h0 (Int32.toInt_inj.mp h)
    have hpos : 0 ≤ level * indent.toInt ↔ 0 < indent.toInt := by
      constructor
      · intro h
        exact lt_of_le_of_ne (nonneg_of_mul_nonneg_right h (by exact_mod_cast hlevel)) hne.symm
      · intro h
        exact mul_nonneg (Int.natCast_nonneg level) h.le
    simp only [hpos, h0, false_or]
    split <;> simp_all [eq_comm]

theorem lineBreak_zero : lineBreak indent 0 = some ((Layout.ofIndent indent).newline 0) := by
  unfold lineBreak Layout.ofIndent
  split <;> simp_all

theorem lineBreak_of_room (h : Room indent (level + 1)) :
    lineBreak indent level = some ((Layout.ofIndent indent).newline level) := by
  cases level with
  | zero => exact lineBreak_zero
  | succ level => exact (lineBreak_eq_some level.succ_pos).mpr ⟨h.mono (by omega), rfl⟩

/-- A container that holds something closes on a line of its own. -/
theorem closed_eq_some {fits : Prop} {items : Option Str} {body opening closing text : Str}
    (hitems : ∀ t, items = some t ↔ fits ∧ t = body) (hroom : fits → Room indent (level + 1)) :
    (items.bind fun t => (lineBreak indent level).bind fun close =>
        some (opening ++ t ++ close ++ closing)) = some text ↔
      fits ∧ text = opening ++ body ++ (Layout.ofIndent indent).newline level ++ closing := by
  simp only [Option.bind_eq_some_iff, hitems]
  constructor
  · rintro ⟨t, ⟨hfits, rfl⟩, close, hclose, ht⟩
    rw [lineBreak_of_room (hroom hfits)] at hclose
    exact ⟨hfits, by rw [← Option.some.inj ht, Option.some.inj hclose]⟩
  · rintro ⟨hfits, rfl⟩
    exact ⟨_, ⟨hfits, rfl⟩, _, lineBreak_of_room (hroom hfits), rfl⟩

mutual

theorem serialize_eq_some (j : Json) (level : Nat) (text : Str) :
    j.serialize indent level = some text ↔
      (j.depth = 0 ∨ Room indent (level + j.depth)) ∧
        text = j.pretty (Layout.ofIndent indent) level := by
  cases j with
  | array js =>
    cases js with
    | nil => simp [serialize, serialize.serializeItems, pretty, pretty.prettyItems, depth, eq_comm]
    | cons j js =>
      have hitems := fun t => serializeItems_eq_some (j :: js) (level + 1) t level.succ_pos
      have hdepth : level + (array (j :: js)).depth =
          level + 1 + depth.depthItems (j :: js) := by
        simp only [depth, depth.depthItems]
        omega
      have hpos : (array (j :: js)).depth ≠ 0 := by simp [depth]
      rw [hdepth, or_iff_right hpos]
      simp only [or_iff_right (List.cons_ne_nil j js)] at hitems
      exact closed_eq_some hitems fun h => h.mono (by omega)
  | object ms =>
    cases ms with
    | nil =>
      simp [serialize, serialize.serializeMembers, pretty, pretty.prettyMembers, depth, eq_comm]
    | cons m ms =>
      have hmembers := fun t => serializeMembers_eq_some (m :: ms) (level + 1) t level.succ_pos
      have hdepth : level + (object (m :: ms)).depth =
          level + 1 + depth.depthMembers (m :: ms) := by
        simp only [depth, depth.depthMembers]
        omega
      have hpos : (object (m :: ms)).depth ≠ 0 := by simp [depth]
      rw [hdepth, or_iff_right hpos]
      simp only [or_iff_right (List.cons_ne_nil m ms)] at hmembers
      exact closed_eq_some hmembers fun h => h.mono (by omega)
  | _ => simp [serialize, pretty, depth, eq_comm]

theorem serializeItems_eq_some (js : List Json) (level : Nat) (text : Str) (hlevel : 0 < level) :
    serialize.serializeItems indent js level = some text ↔
      (js = [] ∨ Room indent (level + depth.depthItems js)) ∧
        text = pretty.prettyItems (Layout.ofIndent indent) js level := by
  cases js with
  | nil => simp [serialize.serializeItems, pretty.prettyItems, eq_comm]
  | cons j js =>
    simp only [serialize.serializeItems, Option.bind_eq_bind, Option.bind_eq_some_iff,
      lineBreak_eq_some hlevel, serialize_eq_some j level, serializeItems_eq_some js level _ hlevel,
      depth.depthItems, room_max, pretty.prettyItems]
    constructor
    · rintro ⟨lead, ⟨hroom, rfl⟩, item, ⟨hitem, rfl⟩, rest, ⟨hrest, rfl⟩, ht⟩
      refine ⟨.inr ⟨?_, ?_⟩, (Option.some.inj ht).symm⟩
      · rcases hitem with h0 | h
        · rwa [h0]
        · exact h
      · rcases hrest with rfl | h
        · exact hroom
        · exact h
    · rintro ⟨hroom, rfl⟩
      obtain ⟨hj, hjs⟩ := hroom.resolve_left (List.cons_ne_nil _ _)
      exact ⟨_, ⟨hj.mono (by omega), rfl⟩, _, ⟨.inr hj, rfl⟩, _, ⟨.inr hjs, rfl⟩, rfl⟩

theorem serializeMembers_eq_some (ms : List (Str × Json)) (level : Nat) (text : Str)
    (hlevel : 0 < level) :
    serialize.serializeMembers indent ms level = some text ↔
      (ms = [] ∨ Room indent (level + depth.depthMembers ms)) ∧
        text = pretty.prettyMembers (Layout.ofIndent indent) ms level := by
  cases ms with
  | nil => simp [serialize.serializeMembers, pretty.prettyMembers, eq_comm]
  | cons m ms =>
    obtain ⟨k, j⟩ := m
    simp only [serialize.serializeMembers, Option.bind_eq_bind, Option.bind_eq_some_iff,
      lineBreak_eq_some hlevel, serialize_eq_some j level,
      serializeMembers_eq_some ms level _ hlevel, depth.depthMembers, room_max,
      pretty.prettyMembers]
    constructor
    · rintro ⟨lead, ⟨hroom, rfl⟩, item, ⟨hitem, rfl⟩, rest, ⟨hrest, rfl⟩, ht⟩
      refine ⟨.inr ⟨?_, ?_⟩, (Option.some.inj ht).symm⟩
      · rcases hitem with h0 | h
        · rwa [h0]
        · exact h
      · rcases hrest with rfl | h
        · exact hroom
        · exact h
    · rintro ⟨hroom, rfl⟩
      obtain ⟨hj, hms⟩ := hroom.resolve_left (List.cons_ne_nil _ _)
      exact ⟨_, ⟨hj.mono (by omega), rfl⟩, _, ⟨.inr hj, rfl⟩, _, ⟨.inr hms, rfl⟩, rfl⟩

end

@[simp] theorem newline_compact (level : Nat) : (Layout.ofIndent 0).newline level = [] := rfl

@[simp] theorem gap_compact : (Layout.ofIndent 0).gap = [] := rfl

mutual

theorem pretty_compact (j : Json) (level : Nat) : j.pretty (Layout.ofIndent 0) level = j.dump := by
  cases j with
  | array js => simp [pretty, dump, prettyItems_compact js (level + 1)]
  | object ms => simp [pretty, dump, prettyMembers_compact ms (level + 1)]
  | _ => rfl

theorem prettyItems_compact (js : List Json) (level : Nat) :
    pretty.prettyItems (Layout.ofIndent 0) js level = dump.dumpItems js := by
  cases js with
  | nil => rfl
  | cons j js =>
    have hj := pretty_compact j level
    have hjs := prettyItems_compact js level
    cases js <;> simp_all [pretty.prettyItems, dump.dumpItems]

theorem prettyMembers_compact (ms : List (Str × Json)) (level : Nat) :
    pretty.prettyMembers (Layout.ofIndent 0) ms level = dump.dumpMembers ms := by
  cases ms with
  | nil => rfl
  | cons m ms =>
    obtain ⟨k, j⟩ := m
    have hj := pretty_compact j level
    have hms := prettyMembers_compact ms level
    cases ms <;> simp_all [pretty.prettyMembers, dump.dumpMembers]

end

theorem dumpIndented_eq_some {j : Json} {text : Str} :
    j.dumpIndented indent = some text ↔
      j.WidthsFit indent ∧ text = j.pretty (Layout.ofIndent indent) 0 := by
  rw [dumpIndented, serialize_eq_some, Nat.zero_add]
  rfl

theorem dumpIndented_zero (j : Json) : j.dumpIndented 0 = some j.dump :=
  dumpIndented_eq_some.mpr ⟨.inr (.inl rfl), (pretty_compact j 0).symm⟩

end Json
end JiaMiaoDB
