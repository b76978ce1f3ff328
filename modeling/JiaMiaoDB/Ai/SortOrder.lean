import JiaMiaoDB.Lib.StableSort
import JiaMiaoDB.Types

/-!
# Sorting rows

The order of rows by one column. Cells of different types are not ordered, and a row without the
column stands before the others, or behind them in descending order.
-/

set_option autoImplicit false

namespace JiaMiaoDB

open StableSort

def compareCells : Value → Value → Ordering
  | .string s, .string t => compare s t
  | .int i, .int j => if i < j then .lt else if j < i then .gt else .eq
  | .double x, .double y => if x.lt y then .lt else if y.lt x then .gt else .eq
  | _, _ => .eq

def rowLess (column : Str) (desc : Bool) (a b : Row) : Bool :=
  match a[column]?, b[column]? with
  | none, none => false
  | none, some _ => !desc
  | some _, none => desc
  | some v, some w => if desc then compareCells v w = .gt else compareCells v w = .lt

/-- The library's sort has no defined behaviour for any other comparator. -/
def stableSortRows (rows : RowSet) (column : Str) (desc : Bool) : Except Failure RowSet :=
  if StrictWeakOn (rowLess column desc) rows then .ok (stableSort (rowLess column desc) rows)
  else .error .undefined

/-- The sort is defined and stable. -/
def SortsStably (rows : RowSet) (column : Str) (desc : Bool) : Prop :=
  StrictWeakOn (rowLess column desc) rows ∧
    ∃ sorted, stableSortRows rows column desc = .ok sorted ∧
      StablySorted (rowLess column desc) rows sorted

/-- The cells of a column, without the rows that lack it. -/
def cells (column : Str) (rows : RowSet) : List Value := rows.filterMap fun row => row[column]?

/-- Neither strings nor integers nor doubles of different value. -/
def Alike : Value → Value → Prop
  | .string s, .string t => s = t
  | .int i, .int j => i = j
  | .double x, .double y => x.lt y = false
  | _, _ => True

/-- All cells are strings, or integers, or doubles other than NaN; or no two of them are ordered. -/
def Sortable (vs : List Value) : Prop :=
  (∀ v ∈ vs, ∃ s, v = .string s) ∨ (∀ v ∈ vs, ∃ i, v = .int i) ∨
    (∀ v ∈ vs, ∃ d, v = .double d ∧ d.isNaN = false) ∨ ∀ v ∈ vs, ∀ w ∈ vs, Alike v w

section
variable {column : Str} {rows : RowSet} {vs : List Value} {a b : Row} {u v w : Value}

/-- The order of the cells. -/
def cellLess (v w : Value) : Bool := compareCells v w = .lt

theorem lt_asymm_double {x y : Binary64} (h : x.lt y = true) : y.lt x = false := by
  obtain ⟨hx, hy⟩ := Binary64.not_nan_of_lt h
  rw [Binary64.lt_iff hx hy] at h
  rw [Bool.eq_false_iff, Ne, Binary64.lt_iff hy hx]
  omega

theorem compareCells_gt : compareCells v w = .gt ↔ compareCells w v = .lt := by
  cases v <;> cases w
  case string.string s t =>
    change compare s t = .gt ↔ compare t s = .lt
    exact Std.OrientedCmp.gt_iff_lt
  case int.int i j =>
    simp only [compareCells]
    by_cases hij : i < j
    · simp [hij, Int64.lt_asymm hij]
    · by_cases hji : j < i <;> simp [hij, hji]
  case double.double x y =>
    simp only [compareCells]
    by_cases hxy : x.lt y = true
    · simp [hxy, lt_asymm_double hxy]
    · by_cases hyx : y.lt x = true <;> simp [hxy, hyx]
  all_goals simp [compareCells]

/-- Descending order is the ascending one turned around. -/
theorem rowLess_desc (column : Str) (a b : Row) :
    rowLess column true a b = rowLess column false b a := by
  unfold rowLess
  cases a[column]? <;> cases b[column]?
  case some.some v w => exact decide_eq_decide.2 compareCells_gt
  all_goals rfl

theorem strictWeakOn_desc :
    StrictWeakOn (rowLess column true) rows ↔ StrictWeakOn (rowLess column false) rows := by
  have hflip : rowLess column true = fun a b => rowLess column false b a :=
    funext fun a => funext fun b => rowLess_desc column a b
  rw [hflip]
  exact ⟨StrictWeakOn.flip, StrictWeakOn.flip⟩

theorem rowLess_some (ha : a[column]? = some v) (hb : b[column]? = some w) :
    rowLess column false a b = cellLess v w := by
  simp only [rowLess, ha, hb]
  rfl

theorem mem_cells : v ∈ cells column rows ↔ ∃ row ∈ rows, row[column]? = some v :=
  List.mem_filterMap

/-- Rows without a cell come last, so that two comparisons in a row leave no cell out. -/
theorem rowLess_trans (h : StrictWeakOn cellLess (cells column rows)) {a b d : Row} (ha : a ∈ rows)
    (hb : b ∈ rows) (hd : d ∈ rows) (hab : rowLess column false a b = true)
    (hbd : rowLess column false b d = true) : rowLess column false a d = true := by
  cases hau : a[column]? with
  | none =>
    cases hdw : d[column]? with
    | none => cases hbv : b[column]? <;> simp [rowLess, hau, hbv, hdw] at hab hbd
    | some w => simp only [rowLess, hau, hdw, Bool.not_false]
  | some u =>
    cases hbv : b[column]? with
    | none => simp [rowLess, hau, hbv] at hab
    | some v =>
      cases hdw : d[column]? with
      | none => simp [rowLess, hbv, hdw] at hbd
      | some w =>
        rw [rowLess_some hau hbv] at hab
        rw [rowLess_some hbv hdw] at hbd
        rw [rowLess_some hau hdw]
        exact h.trans u (mem_cells.2 ⟨a, ha, hau⟩) v (mem_cells.2 ⟨b, hb, hbv⟩) w
          (mem_cells.2 ⟨d, hd, hdw⟩) hab hbd

theorem rowLess_incomparable (h : StrictWeakOn cellLess (cells column rows)) {a b d : Row}
    (ha : a ∈ rows) (hb : b ∈ rows) (hd : d ∈ rows) (hab : rowLess column false a b = false)
    (hba : rowLess column false b a = false) (hbd : rowLess column false b d = false)
    (hdb : rowLess column false d b = false) :
    rowLess column false a d = false ∧ rowLess column false d a = false := by
  cases hau : a[column]? with
  | none =>
    cases hbv : b[column]? with
    | some v => simp [rowLess, hau, hbv] at hab
    | none =>
      cases hdw : d[column]? with
      | some w => simp [rowLess, hbv, hdw] at hbd
      | none => simp only [rowLess, hau, hdw, and_self]
  | some u =>
    cases hbv : b[column]? with
    | none => simp [rowLess, hau, hbv] at hba
    | some v =>
      cases hdw : d[column]? with
      | none => simp [rowLess, hbv, hdw] at hdb
      | some w =>
        rw [rowLess_some hau hbv] at hab
        rw [rowLess_some hbv hau] at hba
        rw [rowLess_some hbv hdw] at hbd
        rw [rowLess_some hdw hbv] at hdb
        rw [rowLess_some hau hdw, rowLess_some hdw hau]
        exact h.incomparable u (mem_cells.2 ⟨a, ha, hau⟩) v (mem_cells.2 ⟨b, hb, hbv⟩) w
          (mem_cells.2 ⟨d, hd, hdw⟩) hab hba hbd hdb

/-- Rows without the column do not matter. -/
theorem strictWeakOn_rowLess :
    StrictWeakOn (rowLess column false) rows ↔ StrictWeakOn cellLess (cells column rows) := by
  constructor
  · intro h
    constructor
    · intro u hu
      obtain ⟨a, ha, hau⟩ := mem_cells.1 hu
      rw [← rowLess_some hau hau]
      exact h.irrefl a ha
    · intro u hu v hv w hw
      obtain ⟨a, ha, hau⟩ := mem_cells.1 hu
      obtain ⟨b, hb, hbv⟩ := mem_cells.1 hv
      obtain ⟨d, hd, hdw⟩ := mem_cells.1 hw
      rw [← rowLess_some hau hbv, ← rowLess_some hbv hdw, ← rowLess_some hau hdw]
      exact h.trans a ha b hb d hd
    · intro u hu v hv w hw
      obtain ⟨a, ha, hau⟩ := mem_cells.1 hu
      obtain ⟨b, hb, hbv⟩ := mem_cells.1 hv
      obtain ⟨d, hd, hdw⟩ := mem_cells.1 hw
      rw [← rowLess_some hau hbv, ← rowLess_some hbv hdw, ← rowLess_some hau hdw,
        ← rowLess_some hbv hau, ← rowLess_some hdw hbv, ← rowLess_some hdw hau]
      exact h.incomparable a ha b hb d hd
  · intro h
    constructor
    · intro a ha
      cases hau : a[column]? with
      | none => simp only [rowLess, hau]
      | some u =>
        rw [rowLess_some hau hau]
        exact h.irrefl u (mem_cells.2 ⟨a, ha, hau⟩)
    · intro a ha b hb d hd hab hbd
      exact rowLess_trans h ha hb hd hab hbd
    · intro a ha b hb d hd hab hba hbd hdb
      exact rowLess_incomparable h ha hb hd hab hba hbd hdb

theorem cellLess_int (i j : Int64) :
    cellLess (.int i) (.int j) = decide (compare i.toInt j.toInt = .lt) := by
  apply decide_eq_decide.2
  rw [Int.compare_eq_lt, ← Int64.lt_iff_toInt_lt, compareCells]
  split_ifs <;> simp_all

theorem cellLess_double (x y : Binary64) : cellLess (.double x) (.double y) = x.lt y := by
  unfold cellLess
  simp only [compareCells]
  by_cases hxy : x.lt y = true
  · simp [hxy]
  · by_cases hyx : y.lt x = true <;> simp [hxy, hyx]

/-- Two cells are alike in both directions exactly when neither is below the other. -/
theorem alike_iff : Alike v w ∧ Alike w v ↔ cellLess v w = false ∧ cellLess w v = false := by
  cases v <;> cases w
  case string.string s t =>
    change s = t ∧ t = s ↔ decide (compare s t = .lt) = false ∧ decide (compare t s = .lt) = false
    rw [decide_eq_false_iff_not, decide_eq_false_iff_not]
    constructor
    · rintro ⟨rfl, -⟩
      rw [Std.ReflOrd.compare_self]
      decide
    · rintro ⟨hlt, hgt⟩
      have heq : s = t := by
        cases hcmp : compare s t with
        | lt => exact absurd hcmp hlt
        | eq => exact Std.LawfulEqCmp.eq_of_compare hcmp
        | gt => exact absurd (Std.OrientedCmp.gt_iff_lt.1 hcmp) hgt
      exact ⟨heq, heq.symm⟩
  case int.int i j =>
    rw [cellLess_int, cellLess_int, decide_eq_false_iff_not, decide_eq_false_iff_not,
      Int.compare_eq_lt, Int.compare_eq_lt, Alike, Alike, ← Int64.toInt_inj, ← Int64.toInt_inj]
    omega
  case double.double x y => rw [cellLess_double, cellLess_double, Alike, Alike]
  all_goals exact iff_of_true ⟨trivial, trivial⟩ ⟨rfl, rfl⟩

variable (h : StrictWeakOn cellLess vs)
include h

/-- Every cell is ordered with one of two that are ordered. -/
theorem ordered_of_not_alike (hu : u ∈ vs) (hv : v ∈ vs) (hw : w ∈ vs) (hne : ¬ Alike v w) :
    ¬ (cellLess u v = false ∧ cellLess v u = false ∧ cellLess u w = false ∧ cellLess w u = false) := by
  rintro ⟨huv, hvu, huw, hwu⟩
  exact hne (alike_iff.2 (h.incomparable v hv u hu w hw hvu huv huw hwu)).1

theorem sortable_of_strictWeakOn : Sortable vs := by
  by_cases halike : ∀ v ∈ vs, ∀ w ∈ vs, Alike v w
  · exact .inr (.inr (.inr halike))
  · simp only [not_forall] at halike
    obtain ⟨v, hv, w, hw, hne⟩ := halike
    have hordered := fun u hu => ordered_of_not_alike h (u := u) hu hv hw hne
    cases v <;> cases w
    case string.string s t =>
      refine .inl fun u hu => ?_
      cases u with
      | string s => exact ⟨s, rfl⟩
      | _ => exact absurd ⟨rfl, rfl, rfl, rfl⟩ (hordered _ hu)
    case int.int i j =>
      refine .inr (.inl fun u hu => ?_)
      cases u with
      | int i => exact ⟨i, rfl⟩
      | _ => exact absurd ⟨rfl, rfl, rfl, rfl⟩ (hordered _ hu)
    case double.double x y =>
      refine .inr (.inr (.inl fun u hu => ?_))
      cases u with
      | double d =>
        refine ⟨d, rfl, ?_⟩
        -- a NaN is ordered with nothing
        by_contra hnan
        have hlt : ∀ z, d.lt z = false ∧ z.lt d = false := by
          intro z
          constructor <;> rw [Bool.eq_false_iff] <;> intro hlt
          · exact hnan (Binary64.not_nan_of_lt hlt).1
          · exact hnan (Binary64.not_nan_of_lt hlt).2
        apply hordered _ hu
        simp only [cellLess_double]
        exact ⟨(hlt x).1, (hlt x).2, (hlt y).1, (hlt y).2⟩
      | _ => exact absurd ⟨rfl, rfl, rfl, rfl⟩ (hordered _ hu)
    all_goals exact absurd trivial hne

omit h

/-- Where no two cells are ordered, nothing is asked of the order. -/
theorem strictWeakOn_of_alike (h : ∀ v ∈ vs, ∀ w ∈ vs, Alike v w) : StrictWeakOn cellLess vs := by
  have hnone : ∀ v ∈ vs, ∀ w ∈ vs, cellLess v w = false := by
    intro v hv w hw
    exact (alike_iff.1 ⟨h v hv w hw, h w hw v hv⟩).1
  constructor
  · intro u hu
    exact hnone u hu u hu
  · intro u hu v hv w hw huv
    rw [hnone u hu v hv] at huv
    cases huv
  · intro u hu v hv w hw _ _ _ _
    exact ⟨hnone u hu w hw, hnone w hw u hu⟩

def textOf : Value → Str
  | .string s => s
  | _ => []

/-- The place of a number among those of its type. -/
def placeOf : Value → Int
  | .int i => i.toInt
  | .double d => d.order
  | _ => 0

theorem strictWeakOn_of_sortable (h : Sortable vs) : StrictWeakOn cellLess vs := by
  rcases h with h | h | h | h
  · apply StrictWeakOn.of_key compare textOf
    intro v hv w hw
    obtain ⟨s, rfl⟩ := h v hv
    obtain ⟨t, rfl⟩ := h w hw
    rfl
  · apply StrictWeakOn.of_key compare placeOf
    intro v hv w hw
    obtain ⟨i, rfl⟩ := h v hv
    obtain ⟨j, rfl⟩ := h w hw
    exact cellLess_int i j
  · apply StrictWeakOn.of_key compare placeOf
    intro v hv w hw
    obtain ⟨x, rfl, hx⟩ := h v hv
    obtain ⟨y, rfl, hy⟩ := h w hw
    rw [cellLess_double, Bool.eq_iff_iff, Binary64.lt_iff hx hy, decide_eq_true_eq,
      Int.compare_eq_lt]
    rfl
  · exact strictWeakOn_of_alike h

end

/-- The comparator is a strict weak order on the rows, so that the sort is defined and stable, if
and only if the cells of the column are of one ordered type or no two of them are ordered. -/
theorem sortsStably_iff (rows : RowSet) (column : Str) (desc : Bool) :
    SortsStably rows column desc ↔ Sortable (cells column rows) := by
  have hweak : StrictWeakOn (rowLess column desc) rows ↔ Sortable (cells column rows) := by
    have hcells : StrictWeakOn cellLess (cells column rows) ↔ Sortable (cells column rows) :=
      ⟨sortable_of_strictWeakOn, strictWeakOn_of_sortable⟩
    cases desc with
    | false => exact strictWeakOn_rowLess.trans hcells
    | true => exact strictWeakOn_desc.trans (strictWeakOn_rowLess.trans hcells)
  rw [← hweak]
  constructor
  · intro h
    exact h.1
  · intro h
    exact ⟨h, _, if_pos h, stablySorted h⟩

/-- A null is ordered neither with 1 nor with 2. -/
theorem not_sortsStably_null :
    let row (v : Value) : Row := (∅ : Row).insert (str "a") v
    ¬ SortsStably [row (.int 1), row .null, row (.int 2)] (str "a") false := by
  intro row h
  have hnot : ¬ StrictWeakOn (rowLess (str "a") false) [row (.int 1), row .null, row (.int 2)] := by
    decide +kernel
  exact hnot h.1

end JiaMiaoDB
