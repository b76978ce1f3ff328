import JiaMiaoDB.Common.JsonRoundTrip

/-! Prefixes of a written JSON value. The parser reads a text as soon as it has come to the first
value that holds nothing: what is still open then counts as closed. -/

set_option autoImplicit false

namespace Binary64

/-- A point or an exponent without a digit in front is no number. -/
theorem strtod_noDigits {bs : Bytes} (h : ∀ b ∈ bs.head?, b = 101 ∨ b = 69) :
    strtod (45 :: bs) = .noConversion ∧ strtod (45 :: 46 :: bs) = .noConversion := by
  cases bs with
  | nil => decide
  | cons c bs =>
    rcases h c rfl with rfl | rfl <;>
      simp [strtod, signed, isSpace, startsWith, lower, mantissa, digits, digit?]

end Binary64

namespace JiaMiaoDB
open ByteFormat

namespace Json

/-! ### The shortest texts -/

/-- The inside of a string: no quote in it closes it. -/
inductive Inside : Bytes → Prop
  | nil : Inside []
  | plain {c : UInt8} {bs : Bytes} (hquote : c ≠ 34) (hslash : c ≠ 92) (h : Inside bs) :
      Inside (c :: bs)
  | slash (c : UInt8) {bs : Bytes} (h : Inside bs) : Inside (92 :: c :: bs)

/-- Texts that are read as a value, and no shorter part of them is. -/
inductive Least : Bytes → Prop
  | space {c : UInt8} {bs : Bytes} (hc : isWs c = true) (h : Least bs) : Least (c :: bs)
  | string : Least [34]
  | digit {c : UInt8} (hc : isDigit c = true) : Least [c]
  | negative {c : UInt8} (hc : isDigit c = true) : Least [45, c]
  | fraction {c : UInt8} (hc : isDigit c = true) : Least [45, 46, c]
  | true : Least (str "true")
  | false : Least (str "false")
  | null : Least (str "null")
  | emptyArray {w : Bytes} (hw : ∀ b ∈ w, isWs b = Bool.true) : Least (91 :: (w ++ [93]))
  | emptyObject {w : Bytes} (hw : ∀ b ∈ w, isWs b = Bool.true) : Least (123 :: (w ++ [125]))
  | array {bs : Bytes} (h : Least bs) : Least (91 :: bs)
  | object {w key w' val : Bytes} (hw : ∀ b ∈ w, isWs b = Bool.true) (hkey : Inside key)
      (hw' : ∀ b ∈ w', isWs b = Bool.true) (h : Least val) :
      Least (123 :: (w ++ 34 :: (key ++ 34 :: (w' ++ 58 :: val))))

/-- The text comes to a value that can be read. -/
def Leads (text : Bytes) : Prop := ∃ p, Least p ∧ p <+: text

theorem parseString_inside {key : Bytes} (h : Inside key) (bs : Bytes) :
    (parseString (key ++ 34 :: bs)).2 = bs := by
  induction h with
  | nil => rw [List.nil_append, parseString_quote]
  | plain hquote hslash _ ih => rw [List.cons_append, parseString_plain hquote hslash, ih]
  | slash c _ ih => rw [List.cons_append, List.cons_append, parseString_slash, ih]

/-- What is left after a string was closed. -/
theorem inside_of_parseString {bs : Bytes} (h : (parseString bs).2 ≠ []) :
    ∃ key, Inside key ∧ bs = key ++ 34 :: (parseString bs).2 := by
  induction bs using string_induction with
  | nil => exact absurd rfl h
  | quote rest => exact ⟨[], .nil, by rw [parseString_quote]; rfl⟩
  | cut => exact absurd rfl h
  | slash c rest ih =>
    rw [parseString_slash] at h ⊢
    obtain ⟨key, hkey, hrest⟩ := ih h
    exact ⟨92 :: c :: key, .slash c hkey, by rw [List.cons_append, List.cons_append, ← hrest]⟩
  | plain c rest hquote hslash ih =>
    rw [parseString_plain hquote hslash] at h ⊢
    obtain ⟨key, hkey, hrest⟩ := ih h
    exact ⟨c :: key, .plain hquote hslash hkey, by rw [List.cons_append, ← hrest]⟩

theorem least_ws {w bs : Bytes} (hw : ∀ b ∈ w, isWs b = true) (h : Least bs) : Least (w ++ bs) := by
  induction w with
  | nil => exact h
  | cons c w ih =>
    rw [List.forall_mem_cons] at hw
    exact .space hw.1 (ih hw.2)

theorem leads_ws {w bs : Bytes} (hw : ∀ b ∈ w, isWs b = true) (h : Leads bs) :
    Leads (w ++ bs) := by
  obtain ⟨p, hp, hpre⟩ := h
  exact ⟨w ++ p, least_ws hw hp, (List.prefix_append_right_inj w).mpr hpre⟩

theorem leads_skipWs {bs : Bytes} (h : Leads (skipWs bs)) : Leads bs := by
  obtain ⟨w, hw, hbs⟩ := exists_skipWs bs
  rw [hbs]
  exact leads_ws hw h

/-! ### What is read leads to a value -/

/-- The fraction of a number. -/
def scanFraction (bs : Bytes) : Str × Bool × Bytes :=
  match bs with
  | 46 :: r => (46 :: r.takeWhile isDigit, true, r.dropWhile isDigit)
  | r => ([], false, r)

/-- The exponent of a number. -/
def scanExponent (bs : Bytes) : Str × Bool × Bytes :=
  match bs with
  | c :: r =>
    if c = 101 ∨ c = 69 then
      let (sg, r) := match r with
        | c' :: r' => if c' = 43 ∨ c' = 45 then ([c'], r') else ([], c' :: r')
        | [] => ([], [])
      (c :: sg ++ r.takeWhile isDigit, true, r.dropWhile isDigit)
    else ([], false, c :: r)
  | [] => ([], false, [])

theorem scanNumber_minus (bs : Bytes) :
    scanNumber (45 :: bs) =
      let fraction := scanFraction (bs.dropWhile isDigit)
      let exponent := scanExponent fraction.2.2
      (45 :: bs.takeWhile isDigit ++ fraction.1 ++ exponent.1, fraction.2.1 || exponent.2.1,
        exponent.2.2) := rfl

theorem scanExponent_head (bs : Bytes) :
    (∀ b ∈ (scanExponent bs).1.head?, b = 101 ∨ b = 69) ∧
      ((scanExponent bs).2.1 = false → (scanExponent bs).1 = []) := by
  unfold scanExponent
  split
  · split
    · next h =>
      refine ⟨?_, fun h => (by cases h)⟩
      intro b hb
      cases hb
      exact h
    · exact ⟨fun b hb => (by cases hb), fun _ => rfl⟩
  · exact ⟨fun b hb => (by cases hb), fun _ => rfl⟩

/-- A sign without a digit after it, or after the point, is refused. -/
theorem parseNumber_noDigits {bs : Bytes} (hdigit : ∀ b ∈ bs.head?, isDigit b = false) :
    (bs.head? ≠ some 46 → (parseNumber (45 :: bs)).isOk = false) ∧
      (parseNumber (45 :: 46 :: bs)).isOk = false := by
  have htake : bs.takeWhile isDigit = [] := by
    cases bs with
    | nil => rfl
    | cons c bs => simp [hdigit c rfl]
  have hdrop : bs.dropWhile isDigit = bs := by
    cases bs with
    | nil => rfl
    | cons c bs => simp [hdigit c rfl]
  obtain ⟨hhead, hinteger⟩ := scanExponent_head bs
  obtain ⟨hplain, hpoint⟩ := Binary64.strtod_noDigits hhead
  constructor
  · intro h46
    have hfraction : scanFraction bs = ([], false, bs) := by
      unfold scanFraction
      split
      · exact absurd rfl h46
      · rfl
    rw [parseNumber, scanNumber_minus, htake, hdrop, hfraction]
    dsimp only
    split
    · simp only [List.append_nil, List.cons_append, List.nil_append, stod, hplain]
      rfl
    · next hfloat =>
      rw [hinteger (by simpa using hfloat)]
      rfl
  · rw [parseNumber, scanNumber_minus]
    have htake' : (46 :: bs).takeWhile isDigit = [] := rfl
    have hdrop' : (46 :: bs).dropWhile isDigit = 46 :: bs := rfl
    rw [htake', hdrop', scanFraction, htake, hdrop]
    simp only [List.cons_append, List.nil_append, Bool.true_or, if_true, stod, hpoint]
    rfl

theorem leads_of_parseNumber {c : UInt8} {bs rest : Bytes} {j : Json}
    (hc : c = 45 ∨ isDigit c = true) (h : parseNumber (c :: bs) = .ok (j, rest)) :
    Leads (c :: bs) := by
  rcases hc with rfl | hc
  · by_cases hdigit : ∀ b ∈ bs.head?, isDigit b = false
    · have hpoint : bs.head? = some 46 := by
        by_contra h46
        have hfail := (parseNumber_noDigits hdigit).1 h46
        rw [h] at hfail
        cases hfail
      obtain ⟨bs, rfl⟩ := List.head?_eq_some_iff.mp hpoint
      by_cases hdigit' : ∀ b ∈ bs.head?, isDigit b = false
      · have hfail := (parseNumber_noDigits hdigit').2
        rw [h] at hfail
        cases hfail
      · push Not at hdigit'
        obtain ⟨d, hd, hisDigit⟩ := hdigit'
        obtain ⟨bs, rfl⟩ := List.head?_eq_some_iff.mp hd
        exact ⟨[45, 46, d], .fraction (by simpa using hisDigit), List.prefix_append [45, 46, d] bs⟩
    · push Not at hdigit
      obtain ⟨d, hd, hisDigit⟩ := hdigit
      obtain ⟨bs, rfl⟩ := List.head?_eq_some_iff.mp hd
      exact ⟨[45, d], .negative (by simpa using hisDigit), List.prefix_append [45, d] bs⟩
  · exact ⟨[c], .digit hc, List.prefix_append [c] bs⟩

theorem leads_array {bs : Bytes} (h : Leads bs) : Leads (91 :: bs) := by
  obtain ⟨p, hp, hpre⟩ := h
  exact ⟨91 :: p, .array hp, List.cons_prefix_cons.mpr ⟨rfl, hpre⟩⟩

/-- An object whose first value can be read. -/
theorem leads_member {w body after val key : Bytes} (hw : ∀ b ∈ w, isWs b = true)
    (hkey : parseString body = (key, after)) (hcolon : skipWs after = 58 :: val) (h : Leads val) :
    Leads (123 :: (w ++ 34 :: body)) := by
  obtain ⟨p, hp, tail, rfl⟩ := h
  have hafter : (parseString body).2 ≠ [] := by
    rw [hkey]
    rintro rfl
    cases hcolon
  obtain ⟨inside, hinside, hbody⟩ := inside_of_parseString hafter
  obtain ⟨w', hw', hspace⟩ := exists_skipWs after
  rw [hkey] at hbody
  dsimp only at hbody
  rw [hbody, hspace, hcolon]
  exact ⟨_, .object hw hinside hw' hp, tail, by simp⟩

theorem leads_of_parseValue {fuel : Nat} {bs rest : Bytes} {j : Json}
    (h : parseValue fuel bs = .ok (j, rest)) : Leads bs := by
  induction fuel using Nat.strong_induction_on generalizing bs rest j with
  | _ fuel ih =>
    cases fuel with
    | zero => cases h
    | succ fuel =>
      rw [parseValue_eq_ok] at h
      refine leads_skipWs ?_
      generalize skipWs bs = text at h
      cases h with
      | string => exact ⟨[34], .string, List.prefix_append [34] _⟩
      | @emptyObject bs rest hopen =>
        obtain ⟨w, hw, hbs⟩ := exists_skipWs bs
        rw [hbs, hopen]
        exact ⟨_, .emptyObject hw, rest, by simp⟩
      | @object bs rest ms hopen h =>
        cases fuel with
        | zero => cases h
        | succ fuel =>
          obtain ⟨w, hw, hbs⟩ := exists_skipWs bs
          rw [parseMembers_eq_ok] at h
          rw [hbs]
          generalize skipWs bs = text at h hopen
          cases h with
          | close => exact absurd rfl hopen
          | last _ hkey hcolon hj _ => exact leads_member hw hkey hcolon (ih fuel (by omega) hj)
          | more hkey hcolon hj _ _ => exact leads_member hw hkey hcolon (ih fuel (by omega) hj)
      | @emptyArray bs rest hopen =>
        obtain ⟨w, hw, hbs⟩ := exists_skipWs bs
        rw [hbs, hopen]
        exact ⟨_, .emptyArray hw, rest, by simp⟩
      | @array bs rest js hopen h =>
        cases fuel with
        | zero => cases h
        | succ fuel =>
          rw [parseItems_eq_ok] at h
          have hitem : Leads bs := by
            cases h with
            | last hj _ => exact ih fuel (by omega) hj
            | more hj _ _ => exact ih fuel (by omega) hj
          exact leads_array hitem
      | true rest => exact ⟨_, .true, List.prefix_append _ _⟩
      | false rest => exact ⟨_, .false, List.prefix_append _ _⟩
      | null rest => exact ⟨_, .null, List.prefix_append _ _⟩
      | number hc h => exact leads_of_parseNumber hc h

/-! ### What leads to a value is read -/

theorem length_pos_of_least {bs : Bytes} (h : Least bs) : 0 < bs.length := by
  cases h with
  | true | false | null => decide
  | _ => simp

theorem parseNumber_digit {c : UInt8} (hc : isDigit c = true) {sign : Bytes}
    (hsign : sign ∈ [[], [45], [45, 46]]) : ∃ j, parseNumber (sign ++ [c]) = .ok (j, []) := by
  have hall : ∀ n : Fin 256, isDigit (UInt8.ofNat n) = true → ∀ sign ∈ [[], [45], [45, 46]],
      (parseNumber (sign ++ [UInt8.ofNat n])).toOption.map (·.2) = some [] := by
    decide +kernel
  have hrest := hall ⟨c.toNat, c.toNat_lt⟩
  simp only [UInt8.ofNat_toNat] at hrest
  have hsome := hrest hc sign hsign
  cases hread : parseNumber (sign ++ [c]) with
  | error e =>
    rw [hread] at hsome
    cases hsome
  | ok p =>
    rw [hread] at hsome
    obtain ⟨j, rest⟩ := p
    cases hsome
    exact ⟨j, rfl⟩

theorem isWs_of_isDigit {c : UInt8} (hc : isDigit c = true) : isWs c = false := by
  obtain ⟨hlo, hhi⟩ := digit_range hc
  simp only [isWs]
  grind

theorem head_ne_of_readsValue {fuel : Nat} {bs rest : Bytes} {j : Json}
    (h : ReadsValue fuel bs j rest) : bs.head? ≠ some 93 := by
  cases h with
  | number hc _ =>
    rintro heq
    cases heq
    revert hc
    decide
  | true | false | null => exact fun heq => absurd (Option.some.inj heq) (by decide)
  | _ => exact fun heq => absurd (Option.some.inj heq) (by decide)

/-- A shortest text is read to its end, whatever it leaves open. -/
theorem parseValue_least {bs : Bytes} (h : Least bs) {fuel : Nat}
    (hfuel : 2 * bs.length ≤ fuel + 1) : ∃ j, parseValue (fuel + 1) bs = .ok (j, []) := by
  induction h generalizing fuel with
  | @space c bs hc h ih =>
    obtain ⟨j, hj⟩ := @ih fuel (by rw [List.length_cons] at hfuel; omega)
    refine ⟨j, (@parseValue_ws [c] ?_ (fuel + 1) bs).trans hj⟩
    intro b hb
    rwa [List.mem_singleton.mp hb]
  | string => exact ⟨_, parseValue_eq_ok.mpr (.string rfl)⟩
  | @digit c hc =>
    obtain ⟨j, hj⟩ := @parseNumber_digit c hc [] (by simp)
    refine ⟨j, parseValue_eq_ok.mpr ?_⟩
    rw [skipWs_cons (isWs_of_isDigit hc)]
    exact .number (.inr hc) hj
  | @negative c hc =>
    obtain ⟨j, hj⟩ := @parseNumber_digit c hc [45] (by simp)
    exact ⟨j, parseValue_eq_ok.mpr (.number (.inl rfl) hj)⟩
  | @fraction c hc =>
    obtain ⟨j, hj⟩ := @parseNumber_digit c hc [45, 46] (by simp)
    exact ⟨j, parseValue_eq_ok.mpr (.number (.inl rfl) hj)⟩
  | true => exact ⟨_, parseValue_eq_ok.mpr (.true [])⟩
  | false => exact ⟨_, parseValue_eq_ok.mpr (.false [])⟩
  | null => exact ⟨_, parseValue_eq_ok.mpr (.null [])⟩
  | @emptyArray w hw =>
    exact ⟨_, parseValue_eq_ok.mpr (.emptyArray (skipWs_append hw [93]))⟩
  | @emptyObject w hw =>
    exact ⟨_, parseValue_eq_ok.mpr (.emptyObject (skipWs_append hw [125]))⟩
  | @array bs h ih =>
    have hpos := length_pos_of_least h
    rw [List.length_cons] at hfuel
    obtain ⟨fuel, rfl⟩ : ∃ n, fuel = n + 1 + 1 := ⟨fuel - 2, by omega⟩
    obtain ⟨j, hj⟩ := @ih fuel (by omega)
    have hitems : parseItems (fuel + 1 + 1) bs = .ok ([j], []) :=
      parseItems_eq_ok.mpr (.last hj (.missing (by decide) (by decide)))
    exact ⟨_, parseValue_eq_ok.mpr (.array (head_ne_of_readsValue (parseValue_eq_ok.mp hj)) hitems)⟩
  | @object w key w' val hw hkey hw' h ih =>
    have hpos := length_pos_of_least h
    simp only [List.length_cons, List.length_append] at hfuel
    obtain ⟨fuel, rfl⟩ : ∃ n, fuel = n + 1 + 1 := ⟨fuel - 2, by omega⟩
    obtain ⟨j, hj⟩ := @ih fuel (by omega)
    have hopen : skipWs (w ++ 34 :: (key ++ 34 :: (w' ++ 58 :: val))) =
        34 :: (key ++ 34 :: (w' ++ 58 :: val)) := skipWs_append hw _
    have hkey' : parseString (key ++ 34 :: (w' ++ 58 :: val)) =
        ((parseString (key ++ 34 :: (w' ++ 58 :: val))).1, w' ++ 58 :: val) :=
      Prod.ext rfl (parseString_inside hkey _)
    have hmembers := ReadsMembers.last [] hkey' (skipWs_append hw' (58 :: val)) hj
      (.missing (by decide) (by decide))
    rw [← hopen, ← parseMembers_eq_ok] at hmembers
    refine ⟨_, parseValue_eq_ok.mpr (.object ?_ hmembers)⟩
    rw [hopen]
    exact fun heq => absurd (Option.some.inj heq) (by decide)

/-! ### The end of a text -/

/-- A byte that ends a value: no white space, and nothing opens with it. -/
def EndsValue (v : UInt8) : Prop := isWs v = false ∧ v ≠ 91 ∧ v ≠ 123

instance (v : UInt8) : Decidable (EndsValue v) := inferInstanceAs (Decidable (_ ∧ _))

theorem endsValue_numeric {bs : Bytes} (hbs : Binary64.Numeric bs) (hne : bs ≠ []) :
    ∃ t v, bs = t ++ [v] ∧ EndsValue v := by
  refine ⟨bs.dropLast, bs.getLast hne, (List.dropLast_append_getLast hne).symm, ?_⟩
  rcases hbs _ (List.getLast_mem hne) with hdigit | hletter
  · have hdigit : isDigit (bs.getLast hne) = true := by simp [isDigit, hdigit]
    refine ⟨isWs_of_isDigit hdigit, ?_, ?_⟩
    all_goals
      intro heq
      rw [heq] at hdigit
      exact absurd hdigit (by decide)
  · have hall : ∀ v ∈ ([43, 45, 46, 97, 101, 102, 105, 110] : Bytes), EndsValue v := by
      decide +kernel
    exact hall _ hletter

theorem numeric_intToString (i : Int) : Binary64.Numeric (intToString i) := by
  unfold intToString
  split
  · exact @Binary64.Numeric.append [45] _ (by decide +kernel) (Binary64.numeric_decimal _)
  · exact Binary64.numeric_decimal _

theorem intToString_ne_nil (i : Int) : intToString i ≠ [] := by
  obtain ⟨c, text, htext, -⟩ := intToString_head i
  rw [htext]
  exact List.cons_ne_nil c text

theorem pretty_last (f : Layout) (j : Json) (level : Nat) :
    ∃ t v, j.pretty f level = t ++ [v] ∧ EndsValue v := by
  cases j with
  | null => exact ⟨[110, 117, 108], 108, rfl, by decide⟩
  | bool b =>
    cases b
    · exact ⟨[102, 97, 108, 115], 101, rfl, by decide⟩
    · exact ⟨[116, 114, 117], 101, rfl, by decide⟩
  | int i => exact endsValue_numeric (numeric_intToString _) (intToString_ne_nil _)
  | float d =>
    rw [pretty, floatText]
    split
    · exact endsValue_numeric ((numeric_intToString _).append (by decide +kernel))
        (List.append_ne_nil_of_right_ne_nil _ (by decide))
    · exact endsValue_numeric (Binary64.numeric_toGeneral d) (Binary64.toGeneral_ne_nil d)
  | string s => exact ⟨_, 34, rfl, by decide⟩
  | array js => exact ⟨_, 93, rfl, by decide⟩
  | object ms => exact ⟨_, 125, rfl, by decide⟩

theorem prettyItems_last (f : Layout) (j : Json) (js : List Json) (level : Nat) :
    ∃ t v, pretty.prettyItems f (j :: js) level = t ++ [v] ∧ EndsValue v := by
  induction js generalizing j with
  | nil =>
    obtain ⟨t, v, ht, hv⟩ := pretty_last f j level
    exact ⟨f.newline level ++ t, v, by simp [pretty.prettyItems, ht], hv⟩
  | cons j' js ih =>
    obtain ⟨t, v, ht, hv⟩ := ih j'
    refine ⟨f.newline level ++ (j.pretty f level ++ ([44] ++ t)), v, ?_, hv⟩
    rw [pretty.prettyItems, ht]
    simp

theorem prettyMembers_last (f : Layout) (m : Str × Json) (ms : List (Str × Json)) (level : Nat) :
    ∃ t v, pretty.prettyMembers f (m :: ms) level = t ++ [v] ∧ EndsValue v := by
  induction ms generalizing m with
  | nil =>
    obtain ⟨k, j⟩ := m
    obtain ⟨t, v, ht, hv⟩ := pretty_last f j level
    exact ⟨f.newline level ++ ([34] ++ (k ++ ([34, 58] ++ (f.gap ++ t)))), v,
      by simp [pretty.prettyMembers, ht], hv⟩
  | cons m' ms ih =>
    obtain ⟨k, j⟩ := m
    obtain ⟨t, v, ht, hv⟩ := ih m'
    refine ⟨f.newline level ++ ([34] ++ (k ++ ([34, 58] ++ (f.gap ++ (j.pretty f level ++
      ([44] ++ t)))))), v, ?_, hv⟩
    rw [pretty.prettyMembers, ht]
    simp

/-- A container that holds something: an array or an object with an item. -/
def HoldsItems (j : Json) : Prop := j.items ≠ [] ∨ j.members ≠ []

/-- The closing bracket of a container comes after a value. -/
theorem pretty_close (f : Layout) {j : Json} (hj : j.HoldsItems) (level : Nat) :
    ∃ t v w c, j.pretty f level = t ++ v :: (w ++ [c]) ∧ EndsValue v ∧
      (∀ b ∈ w, isWs b = true) ∧ (c = 93 ∨ c = 125) := by
  cases j with
  | array js =>
    cases js with
    | nil => simp [HoldsItems, items, members] at hj
    | cons j js =>
      obtain ⟨t, v, ht, hv⟩ := prettyItems_last f j js (level + 1)
      exact ⟨91 :: t, v, f.newline level, 93, by simp [pretty, ht], hv, f.newline_ws level, .inl rfl⟩
  | object ms =>
    cases ms with
    | nil => simp [HoldsItems, items, members] at hj
    | cons m ms =>
      obtain ⟨t, v, ht, hv⟩ := prettyMembers_last f m ms (level + 1)
      exact ⟨123 :: t, v, f.newline level, 125, by simp [pretty, ht], hv, f.newline_ws level,
        .inr rfl⟩
  | _ => simp [HoldsItems, items, members] at hj

/-- `q` ends with an opening bracket and white space. -/
def LeavesOpen (q : Bytes) : Prop :=
  ∃ t b w, q = t ++ b :: w ∧ (b = 91 ∨ b = 123) ∧ ∀ b' ∈ w, isWs b' = true

theorem LeavesOpen.append {q : Bytes} (h : LeavesOpen q) (front : Bytes) :
    LeavesOpen (front ++ q) := by
  obtain ⟨t, b, w, rfl, hb, hw⟩ := h
  exact ⟨front ++ t, b, w, (List.append_assoc ..).symm, hb, hw⟩

/-- A bracket at the end of a shortest text closes the one that was opened last. -/
theorem least_last {bs : Bytes} (h : Least bs) :
    ∃ q c, bs = q ++ [c] ∧ (c = 93 ∨ c = 125 → LeavesOpen q) := by
  have hleaf : ∀ (q : Bytes) (c : UInt8), ¬ (c = 93 ∨ c = 125) →
      ∃ q' c', q ++ [c] = q' ++ [c'] ∧ (c' = 93 ∨ c' = 125 → LeavesOpen q') :=
    fun q c hc => ⟨q, c, rfl, fun h => absurd h hc⟩
  have hfront : ∀ (front : Bytes) {bs : Bytes},
      (∃ q c, bs = q ++ [c] ∧ (c = 93 ∨ c = 125 → LeavesOpen q)) →
      ∃ q c, front ++ bs = q ++ [c] ∧ (c = 93 ∨ c = 125 → LeavesOpen q) := by
    rintro front _ ⟨q, c, rfl, hc⟩
    exact ⟨front ++ q, c, (List.append_assoc ..).symm, fun h => (hc h).append front⟩
  have hdigit : ∀ {c : UInt8}, isDigit c = true → ¬ (c = 93 ∨ c = 125) := by
    rintro c hc (rfl | rfl)
    · exact absurd hc (by decide)
    · exact absurd hc (by decide)
  induction h with
  | @space c _ _ _ ih => exact hfront [c] ih
  | string => exact hleaf [] 34 (by decide)
  | digit hc => exact hleaf [] _ (hdigit hc)
  | negative hc => exact hleaf [45] _ (hdigit hc)
  | fraction hc => exact hleaf [45, 46] _ (hdigit hc)
  | true => exact hleaf [116, 114, 117] 101 (by decide)
  | false => exact hleaf [102, 97, 108, 115] 101 (by decide)
  | null => exact hleaf [110, 117, 108] 108 (by decide)
  | @emptyArray w hw => exact ⟨91 :: w, 93, rfl, fun _ => ⟨[], 91, w, rfl, .inl rfl, hw⟩⟩
  | @emptyObject w hw => exact ⟨123 :: w, 125, rfl, fun _ => ⟨[], 123, w, rfl, .inr rfl, hw⟩⟩
  | array _ ih => exact hfront [91] ih
  | @object w key w' val _ _ _ _ ih =>
    have htext := hfront (123 :: (w ++ 34 :: (key ++ 34 :: (w' ++ [58])))) ih
    simpa using htext

/-- The last byte before white space at the end is one and the same. -/
theorem eq_of_append_ws {t t' w w' : Bytes} {v b : UInt8} (h : t ++ v :: w = t' ++ b :: w')
    (hw : ∀ b ∈ w, isWs b = true) (hw' : ∀ b ∈ w', isWs b = true) (hv : isWs v = false)
    (hb : isWs b = false) : v = b := by
  have hdrop : ∀ (t : Bytes) (v : UInt8) (w : Bytes), (∀ b ∈ w, isWs b = true) → isWs v = false →
      (t ++ v :: w).reverse.dropWhile isWs = v :: t.reverse := by
    intro t v w hw hv
    rw [List.reverse_append, List.reverse_cons, List.append_assoc,
      List.dropWhile_append_of_pos fun b hb => hw b (List.mem_reverse.mp hb)]
    exact List.dropWhile_cons_of_neg (by simp [hv])
  have hcons := hdrop t v w hw hv
  rw [h, hdrop t' b w' hw' hb] at hcons
  exact (List.cons.inj hcons).1.symm

theorem not_least_pretty (f : Layout) {j : Json} (hj : j.HoldsItems) (level : Nat) :
    ¬ Least (j.pretty f level) := by
  intro h
  obtain ⟨t, v, w, c, htext, hv, hw, hc⟩ := pretty_close f hj level
  obtain ⟨q, c', hq, hopen⟩ := least_last h
  have hsplit : (t ++ v :: w) ++ [c] = q ++ [c'] := by
    rw [← hq, htext]
    simp
  obtain ⟨hfront, hlast⟩ := List.append_inj' hsplit rfl
  cases hlast
  obtain ⟨t', b, w', rfl, hb, hw'⟩ := hopen hc
  have hbrace : isWs b = false := by rcases hb with rfl | rfl <;> rfl
  rcases eq_of_append_ws hfront hw hw' hv.1 hbrace with rfl
  exact hb.elim hv.2.1 hv.2.2

/-! ### The prefixes of a text -/

theorem leads_of_parse {bs : Bytes} {j : Json} (h : parse bs = .ok j) : Leads bs := by
  obtain ⟨rest, hread⟩ := parse_eq_ok.mp h
  exact leads_of_parseValue hread

theorem parse_of_least {bs : Bytes} (h : Least bs) : ∃ j, parse bs = .ok j := by
  obtain ⟨j, hj⟩ := @parseValue_least bs h (2 * bs.length + 1) (by omega)
  exact ⟨j, parse_eq_ok.mpr ⟨[], hj⟩⟩

theorem Leads.mono {bs cs : Bytes} (h : Leads bs) (hpre : bs <+: cs) : Leads cs := by
  obtain ⟨p, hp, hpbs⟩ := h
  exact ⟨p, hp, hpbs.trans hpre⟩

/-- One bracket alone is not read. -/
theorem not_parse_bracket {a b : UInt8} (hbracket : (parse [a]).isOk = false) {p : Bytes}
    (hpre : p <+: [a, b]) (hne : p ≠ [a, b]) (j : Json) : parse p ≠ .ok j := by
  have hcases : p = [] ∨ p = [a] := by
    rcases List.prefix_cons_iff.mp hpre with rfl | ⟨q, rfl, hq⟩
    · exact .inl rfl
    · rcases List.prefix_cons_iff.mp hq with rfl | ⟨q', rfl, hq'⟩
      · exact .inr rfl
      · rw [List.prefix_nil.mp hq'] at hne
        exact absurd rfl hne
  intro h
  rcases hcases with rfl | rfl
  · cases h
  · rw [h] at hbracket
    cases hbracket

/-- No part of the text of an array or an object is read, if it is empty or if its text does not
come to a value that can be read; otherwise one is. -/
theorem prefixes_rejected_iff {indent : Int32} {j : Json} {text : Str}
    (hj : (∃ js, j = array js) ∨ ∃ ms, j = object ms) (hdump : j.dumpIndented indent = some text) :
    (∀ p, p <+: text → p ≠ text → ¬ ∃ j', parse p = .ok j') ↔ ¬ j.HoldsItems ∨ ¬ Leads text := by
  obtain ⟨-, rfl⟩ := dumpIndented_eq_some.mp hdump
  constructor
  · intro h
    by_contra hcon
    push Not at hcon
    obtain ⟨hitems, p, hp, hpre⟩ := hcon
    refine h p hpre ?_ (parse_of_least hp)
    rintro rfl
    exact not_least_pretty _ hitems 0 hp
  · rintro hcase p hpre hne ⟨j', hread⟩
    have hleads := leads_of_parse hread
    rcases hcase with hempty | hleads'
    · rcases hj with ⟨js, rfl⟩ | ⟨ms, rfl⟩
      · cases js with
        | nil => exact not_parse_bracket (by decide +kernel) hpre hne j' hread
        | cons j js => exact hempty (.inl (List.cons_ne_nil j js))
      · cases ms with
        | nil => exact not_parse_bracket (by decide +kernel) hpre hne j' hread
        | cons m ms => exact hempty (.inr (List.cons_ne_nil m ms))
    · exact hleads' (hleads.mono hpre)

/-- The brackets of an empty array come together or not at all. -/
theorem prefixes_rejected_emptyArray :
    (array []).dumpIndented 2 = some (str "[]") ∧
      ∀ p, p <+: str "[]" → p ≠ str "[]" → ¬ ∃ j', parse p = .ok j' :=
  ⟨rfl, (@prefixes_rejected_iff 2 (array []) (str "[]") (.inl ⟨[], rfl⟩) rfl).mpr
    (.inl (by simp [HoldsItems, items, members]))⟩

/-- One number, and the text without its closing bracket. -/
theorem parse_openArray :
    (array [int 1]).dumpIndented 0 = some (str "[1]") ∧ str "[1" <+: str "[1]" ∧
      str "[1" ≠ str "[1]" ∧ parse (str "[1") = .ok (array [int 1]) :=
  ⟨rfl, by decide, by decide, rfl⟩

theorem leads_int (i : Int) : Leads (intToString i) := by
  have hdigits : ∀ n, ∃ c text, Binary64.decimal n = c :: text ∧ isDigit c = true := by
    intro n
    cases hd : Binary64.decimal n with
    | nil => exact absurd hd (Binary64.decimal_ne_nil n)
    | cons c text => exact ⟨c, text, rfl, isDigit_of_mem_decimal (hd ▸ List.mem_cons_self)⟩
  obtain ⟨c, text, htext, hc⟩ := hdigits i.natAbs
  unfold intToString
  rw [htext]
  split
  · exact ⟨[45, c], .negative hc, List.prefix_append [45, c] text⟩
  · exact ⟨[c], .digit hc, List.prefix_append [c] text⟩

/-- Without floats, and with keys that need no escape, every text comes to a value that can be
read: a container that holds something has a part that is taken for the whole. -/
theorem leads_pretty (f : Layout) (j : Json) (hf : j.Floatless) (hk : j.PlainKeys) (level : Nat) :
    Leads (j.pretty f level) := by
  match j with
  | .null => exact ⟨_, .null, List.prefix_refl _⟩
  | .bool true => exact ⟨_, .true, List.prefix_refl _⟩
  | .bool false => exact ⟨_, .false, List.prefix_refl _⟩
  | .int i => exact leads_int i.toInt
  | .float d => cases hf.self
  | .string s => exact ⟨[34], .string, _, rfl⟩
  | .array [] => exact ⟨_, .emptyArray (w := []) (by simp), List.prefix_refl _⟩
  | .object [] => exact ⟨_, .emptyObject (w := []) (by simp), List.prefix_refl _⟩
  | .array (j :: js) =>
    have hlead := leads_pretty f j ((each_array.mp hf).2 j List.mem_cons_self)
      ((each_array.mp hk).2 j List.mem_cons_self) (level + 1)
    simp only [pretty, pretty.prettyItems, List.append_assoc, List.cons_append, List.nil_append]
    exact leads_array (leads_ws (f.newline_ws _) (hlead.mono (List.prefix_append _ _)))
  | .object ((k, j) :: ms) =>
    have hlead := leads_pretty f j ((each_object.mp hf).2 (k, j) List.mem_cons_self)
      ((each_object.mp hk).2 (k, j) List.mem_cons_self) (level + 1)
    obtain ⟨hquote, hslash⟩ := hk.self k List.mem_cons_self
    simp only [pretty, pretty.prettyMembers, List.append_assoc, List.cons_append, List.nil_append]
    exact leads_member (f.newline_ws _) (parseString_plainKey hquote hslash _)
      (skipWs_cons (by decide) _) (leads_ws f.gap_ws (hlead.mono (List.prefix_append _ _)))

end Json
end JiaMiaoDB
