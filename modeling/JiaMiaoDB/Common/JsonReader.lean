import JiaMiaoDB.Common.Json
import JiaMiaoDB.Lib.ExceptList
import Mathlib.Data.List.TakeWhile

/-! What one call of the JSON parser accepts, and what it leaves unread. -/

set_option autoImplicit false

namespace JiaMiaoDB
open ByteFormat

namespace Json

/-! ### White space -/

theorem skipWs_append {w : Str} (hw : ∀ b ∈ w, isWs b = true) (bs : Bytes) :
    skipWs (w ++ bs) = skipWs bs :=
  List.dropWhile_append_of_pos hw

theorem skipWs_cons {c : UInt8} (hc : isWs c = false) (bs : Bytes) : skipWs (c :: bs) = c :: bs :=
  List.dropWhile_cons_of_neg (by simp [hc])

/-- The white space in front of a text. -/
theorem exists_skipWs (bs : Bytes) : ∃ w, (∀ b ∈ w, isWs b = true) ∧ bs = w ++ skipWs bs :=
  ⟨bs.takeWhile isWs, fun _ hb => List.mem_takeWhile_imp hb, List.takeWhile_append_dropWhile.symm⟩

theorem isWs_of_skipWs {bs rest : Bytes} {c : UInt8} (h : skipWs bs = c :: rest) :
    isWs c = false := by
  have hhead := List.head?_dropWhile_not isWs bs
  rwa [show bs.dropWhile isWs = c :: rest from h] at hhead

theorem skipWs_skipWs (bs : Bytes) : skipWs (skipWs bs) = skipWs bs := by
  cases h : skipWs bs with
  | nil => rfl
  | cons c rest => exact skipWs_cons (isWs_of_skipWs h) rest

theorem parseValue_skipWs (fuel : Nat) (bs : Bytes) :
    parseValue fuel (skipWs bs) = parseValue fuel bs := by
  cases fuel with
  | zero => rfl
  | succ fuel => simp only [parseValue, skipWs_skipWs]

theorem parseItems_skipWs (fuel : Nat) (bs : Bytes) :
    parseItems fuel (skipWs bs) = parseItems fuel bs := by
  cases fuel with
  | zero => rfl
  | succ fuel => simp only [parseItems, parseValue_skipWs]

theorem parseMembers_skipWs (fuel : Nat) (bs : Bytes) (ms : List (Str × Json)) :
    parseMembers fuel (skipWs bs) ms = parseMembers fuel bs ms := by
  cases fuel with
  | zero => rfl
  | succ fuel => simp only [parseMembers, skipWs_skipWs]

theorem parseValue_ws {w : Str} (hw : ∀ b ∈ w, isWs b = true) (fuel : Nat) (bs : Bytes) :
    parseValue fuel (w ++ bs) = parseValue fuel bs := by
  rw [← parseValue_skipWs, skipWs_append hw, parseValue_skipWs]

/-! ### One call -/

/-- A value read from a text without white space in front: the value and the rest. -/
inductive ReadsValue (fuel : Nat) : Bytes → Json → Bytes → Prop
  | string {bs rest : Bytes} {s : Str} (h : parseString bs = (s, rest)) :
      ReadsValue fuel (34 :: bs) (string s) rest
  | emptyObject {bs rest : Bytes} (h : skipWs bs = 125 :: rest) :
      ReadsValue fuel (123 :: bs) (object []) rest
  | object {bs rest : Bytes} {ms : List (Str × Json)} (hopen : (skipWs bs).head? ≠ some 125)
      (h : parseMembers fuel bs [] = .ok (ms, rest)) : ReadsValue fuel (123 :: bs) (object ms) rest
  | emptyArray {bs rest : Bytes} (h : skipWs bs = 93 :: rest) :
      ReadsValue fuel (91 :: bs) (array []) rest
  | array {bs rest : Bytes} {js : List Json} (hopen : (skipWs bs).head? ≠ some 93)
      (h : parseItems fuel bs = .ok (js, rest)) : ReadsValue fuel (91 :: bs) (array js) rest
  | true (rest : Bytes) : ReadsValue fuel (str "true" ++ rest) (bool true) rest
  | false (rest : Bytes) : ReadsValue fuel (str "false" ++ rest) (bool false) rest
  | null (rest : Bytes) : ReadsValue fuel (str "null" ++ rest) null rest
  | number {c : UInt8} {bs rest : Bytes} {j : Json} (hc : c = 45 ∨ isDigit c = Bool.true)
      (h : parseNumber (c :: bs) = .ok (j, rest)) : ReadsValue fuel (c :: bs) j rest

/-- The end of a container. A bracket that does not come is not missed. -/
inductive Closes (bracket : UInt8) : Bytes → Bytes → Prop
  | bracket (rest : Bytes) : Closes bracket (bracket :: rest) rest
  | missing {bs : Bytes} (hcomma : bs.head? ≠ some 44) (hbracket : bs.head? ≠ some bracket) :
      Closes bracket bs bs

inductive ReadsItems (fuel : Nat) : Bytes → List Json → Bytes → Prop
  | last {bs after rest : Bytes} {j : Json} (hj : parseValue fuel bs = .ok (j, after))
      (hclose : Closes 93 (skipWs after) rest) : ReadsItems fuel bs [j] rest
  | more {bs after next rest : Bytes} {j : Json} {js : List Json}
      (hj : parseValue fuel bs = .ok (j, after)) (hcomma : skipWs after = 44 :: next)
      (hjs : parseItems fuel next = .ok (js, rest)) : ReadsItems fuel bs (j :: js) rest

/-- Members read from a text without white space in front, on top of those read before. -/
inductive ReadsMembers (fuel : Nat) :
    Bytes → List (Str × Json) → List (Str × Json) → Bytes → Prop
  | close (rest : Bytes) (ms : List (Str × Json)) : ReadsMembers fuel (125 :: rest) ms ms rest
  | last {bs after val after' rest : Bytes} {key : Str} {j : Json} (ms : List (Str × Json))
      (hkey : parseString bs = (key, after)) (hcolon : skipWs after = 58 :: val)
      (hj : parseValue fuel val = .ok (j, after')) (hclose : Closes 125 (skipWs after') rest) :
      ReadsMembers fuel (34 :: bs) ms (insertMember key j ms) rest
  | more {bs after val after' next rest : Bytes} {key : Str} {j : Json}
      {ms ms' : List (Str × Json)} (hkey : parseString bs = (key, after))
      (hcolon : skipWs after = 58 :: val) (hj : parseValue fuel val = .ok (j, after'))
      (hcomma : skipWs after' = 44 :: next)
      (hms : parseMembers fuel next (insertMember key j ms) = .ok (ms', rest)) :
      ReadsMembers fuel (34 :: bs) ms ms' rest

theorem readsValue_of_parse {fuel : Nat} {bs rest : Bytes} {j : Json}
    (h : parseValue (fuel + 1) bs = .ok (j, rest)) : ReadsValue fuel (skipWs bs) j rest := by
  unfold parseValue at h
  cases hbs : skipWs bs with
  | nil =>
    rw [hbs] at h
    cases h
  | cons c text =>
    rw [hbs] at h
    dsimp only at h
    split at h
    · next hc =>
      subst hc
      cases h
      exact .string rfl
    split at h
    · next hc =>
      subst hc
      split at h
      · next hopen =>
        cases h
        exact .emptyObject hopen
      · next hopen =>
        rw [parseMembers_skipWs] at h
        cases hms : parseMembers fuel text [] with
        | error e =>
          rw [hms] at h
          cases h
        | ok p =>
          rw [hms] at h
          cases h
          refine .object ?_ hms
          intro hhead
          obtain ⟨rest', hrest⟩ := List.head?_eq_some_iff.mp hhead
          exact hopen rest' hrest
    split at h
    · next hc =>
      subst hc
      split at h
      · next hopen =>
        cases h
        exact .emptyArray hopen
      · next hopen =>
        rw [parseItems_skipWs] at h
        cases hjs : parseItems fuel text with
        | error e =>
          rw [hjs] at h
          cases h
        | ok p =>
          rw [hjs] at h
          cases h
          refine .array ?_ hjs
          intro hhead
          obtain ⟨rest', hrest⟩ := List.head?_eq_some_iff.mp hhead
          exact hopen rest' hrest
    split at h
    · split at h
      · next htake =>
        cases h
        rw [← List.take_append_drop 4 (c :: text), htake]
        exact .true _
      split at h
      · next htake =>
        cases h
        rw [← List.take_append_drop 5 (c :: text), htake]
        exact .false _
      · cases h
    split at h
    · split at h
      · next htake =>
        cases h
        rw [← List.take_append_drop 4 (c :: text), htake]
        exact .null _
      · cases h
    split at h
    · next hc => exact .number hc h
    · cases h

theorem digit_range {c : UInt8} (h : isDigit c = true) : 48 ≤ c ∧ c ≤ 57 := by
  rw [isDigit, Bool.and_eq_true, decide_eq_true_iff, decide_eq_true_iff] at h
  exact h

theorem parse_of_readsValue {fuel : Nat} {bs rest : Bytes} {j : Json}
    (h : ReadsValue fuel (skipWs bs) j rest) : parseValue (fuel + 1) bs = .ok (j, rest) := by
  unfold parseValue
  generalize skipWs bs = text at h
  cases h with
  | string h => simp [h]
  | emptyObject h => simp [h]
  | @object bs _ ms hopen h =>
    have hskip := parseMembers_skipWs fuel bs []
    rw [h] at hskip
    dsimp only
    rw [if_neg (by decide), if_pos rfl]
    split
    · next heq => simp [heq] at hopen
    · rw [hskip]
      rfl
  | emptyArray h => simp [h]
  | @array bs _ js hopen h =>
    have hskip := parseItems_skipWs fuel bs
    rw [h] at hskip
    dsimp only
    rw [if_neg (by decide), if_neg (by decide), if_pos rfl]
    split
    · next heq => simp [heq] at hopen
    · rw [hskip]
      rfl
  | true rest => rfl
  | false rest => rfl
  | null rest => rfl
  | @number c bs _ _ hc h =>
    have hne : c ≠ 34 ∧ c ≠ 123 ∧ c ≠ 91 ∧ ¬ (c = 116 ∨ c = 102) ∧ c ≠ 110 := by
      rcases hc with rfl | hc
      · decide
      · obtain ⟨hlo, hhi⟩ := digit_range hc
        refine ⟨?_, ?_, ?_, ?_, ?_⟩ <;> grind
    simp only [hne, if_false, if_pos hc, h]

theorem parseValue_eq_ok {fuel : Nat} {bs rest : Bytes} {j : Json} :
    parseValue (fuel + 1) bs = .ok (j, rest) ↔ ReadsValue fuel (skipWs bs) j rest :=
  ⟨readsValue_of_parse, parse_of_readsValue⟩

theorem parseItems_eq_ok {fuel : Nat} {bs rest : Bytes} {js : List Json} :
    parseItems (fuel + 1) bs = .ok (js, rest) ↔ ReadsItems fuel bs js rest := by
  constructor
  · intro h
    rw [parseItems] at h
    obtain ⟨⟨j, after⟩, hj, h⟩ := ExceptList.bind_ok_iff.mp h
    dsimp only at h
    split at h
    · next next hcomma =>
      obtain ⟨⟨js', rest'⟩, hjs, h⟩ := ExceptList.bind_ok_iff.mp h
      cases h
      exact .more hj hcomma hjs
    · next hclose =>
      cases h
      exact .last hj (hclose ▸ .bracket _)
    · next hcomma hclose =>
      cases h
      refine .last hj (.missing ?_ ?_)
      · intro hhead
        obtain ⟨next, hnext⟩ := List.head?_eq_some_iff.mp hhead
        exact hcomma next hnext
      · intro hhead
        obtain ⟨next, hnext⟩ := List.head?_eq_some_iff.mp hhead
        exact hclose next hnext
  · intro h
    rw [parseItems]
    cases h with
    | more hj hcomma hjs =>
      rw [hj]
      dsimp only [bind, Except.bind]
      simp only [hcomma, hjs]
      rfl
    | @last after rest j hj hclose =>
      rw [hj]
      dsimp only [bind, Except.bind]
      generalize skipWs after = text at hclose
      cases hclose with
      | bracket => rfl
      | missing hcomma hbracket =>
        split
        · simp at hcomma
        · simp at hbracket
        · rfl

theorem parseMembers_eq_ok {fuel : Nat} {bs rest : Bytes} {ms ms' : List (Str × Json)} :
    parseMembers (fuel + 1) bs ms = .ok (ms', rest) ↔
      ReadsMembers fuel (skipWs bs) ms ms' rest := by
  constructor
  · intro h
    unfold parseMembers at h
    split at h
    · cases h
    · next hopen =>
      cases h
      rw [hopen]
      exact .close _ _
    · next text hopen =>
      rw [hopen]
      dsimp only at h
      split at h
      · next val hcolon =>
        rw [parseValue_skipWs] at h
        obtain ⟨⟨j, after⟩, hj, h⟩ := ExceptList.bind_ok_iff.mp h
        dsimp only at h
        split at h
        · next next hcomma => exact .more rfl hcolon hj hcomma h
        · next hclose =>
          cases h
          exact .last ms rfl hcolon hj (hclose ▸ .bracket _)
        · next hcomma hclose =>
          cases h
          refine .last ms rfl hcolon hj (.missing ?_ ?_)
          · intro hhead
            obtain ⟨next, hnext⟩ := List.head?_eq_some_iff.mp hhead
            exact hcomma next hnext
          · intro hhead
            obtain ⟨next, hnext⟩ := List.head?_eq_some_iff.mp hhead
            exact hclose next hnext
      · cases h
    · cases h
  · intro h
    unfold parseMembers
    generalize skipWs bs = text at h
    cases h with
    | close => rfl
    | more hkey hcolon hj hcomma hms =>
      simp only [hkey, hcolon]
      rw [parseValue_skipWs, hj]
      dsimp only [bind, Except.bind]
      rw [hcomma]
      exact hms
    | @last bs after val after' rest key j ms hkey hcolon hj hclose =>
      simp only [hkey, hcolon]
      rw [parseValue_skipWs, hj]
      dsimp only [bind, Except.bind]
      generalize skipWs after' = text at hclose
      cases hclose with
      | bracket => rfl
      | missing hcomma hbracket =>
        split
        · simp at hcomma
        · simp at hbracket
        · rfl

end Json
end JiaMiaoDB
