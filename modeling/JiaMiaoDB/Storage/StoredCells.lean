import JiaMiaoDB.Storage.GeneratedKeys

/-!
# Cells of stored rows

A row is validated against the columns of its table and stored in a payload that counts its columns modulo
`2 ^ 16`. What a reader finds under a name is the value that validation made, for the names that are kept.
-/

set_option autoImplicit false

namespace JiaMiaoDB
open StorageEngine BinaryRowCodec

/-- The definition that a name stands for: of several the last one. -/
def columnOf (columns : List ColumnDef) (name : Str) : Option ColumnDef :=
  columns.findRev? (·.name = name)

theorem name_columnOf {columns : List ColumnDef} {name : Str} {col : ColumnDef}
    (h : columnOf columns name = some col) : col.name = name := by
  rw [columnOf, List.findRev?_eq_findRev?TR, List.findRev?TR] at h
  simpa using List.find?_some h

/-- The names under which the row format gives values back. It counts them modulo `2 ^ 16`. -/
def keptNames (columns : List ColumnDef) : List Str :=
  let names := (business (columns.foldl (fun row col => row.insert col.name .null) ∅)).keys
  names.take (names.length % 65536)

/-- The stored version reads back with the value in the column. -/
def Cell (t : Tuple) (name : Str) (v : Value) : Prop :=
  ∃ row, toRow t = .ok row ∧ (business row)[name]? = some v

/-- A stored version gives back the first columns of the row that it was made of. -/
theorem cell_iff_mem {row : Row} {hdr : TupleHeader} {t : Tuple} (ht : rowToTuple row hdr = .ok t)
    (name : Str) (v : Value) : Cell t name v ↔
      (name, v) ∈ (business row).toList.take ((business row).size % 65536) := by
  constructor
  · rintro ⟨row', hread, hv⟩
    exact (mem_of_stored ht hread name v).mp hv
  · intro hmem
    obtain ⟨bs, henc, hpure⟩ := ExceptList.bind_ok_iff.mp ht
    have hne : business row ≠ ∅ := by
      intro he
      rw [he] at hmem
      cases List.mem_of_mem_take hmem
    have hread : ∃ row', toRow t = .ok row' := by
      cases hpure
      exact ⟨_, toRow_eq_ok.mpr ⟨_, decode_encode henc hne, rfl⟩⟩
    obtain ⟨row', hread⟩ := hread
    exact ⟨row', hread, (mem_of_stored ht hread name v).mpr hmem⟩

theorem cell_iff {row : Row} {hdr : TupleHeader} {t : Tuple} (ht : rowToTuple row hdr = .ok t)
    (name : Str) (v : Value) : Cell t name v ↔
      name ∈ (business row).keys.take ((business row).keys.length % 65536) ∧
        (business row)[name]? = some v := by
  rw [cell_iff_mem ht, ← Std.ExtTreeMap.map_fst_toList_eq_keys, List.length_map,
    Std.ExtTreeMap.length_toList, ← List.map_take, List.mem_map]
  constructor
  · intro hmem
    exact ⟨⟨_, hmem, rfl⟩,
      Std.ExtTreeMap.mem_toList_iff_getElem?_eq_some.mp (List.mem_of_mem_take hmem)⟩
  · rintro ⟨⟨⟨name', v'⟩, hmem, rfl⟩, hv⟩
    have hv' := Std.ExtTreeMap.mem_toList_iff_getElem?_eq_some.mp (List.mem_of_mem_take hmem)
    cases hv.symm.trans hv'
    exact hmem

section
variable {e : StorageEngine} {schema : TableSchema} {row validated : Row}

/-- A validated row has a value of the last definition of each name, and no other column. -/
theorem getElem?_validate {columns : List ColumnDef} {start : Row}
    (h : columns.foldlM (fun result col => do
      let v ← e.validateColumn schema row col
      pure (result.insert col.name v)) start = .ok validated) (name : Str) :
    match columnOf columns name with
    | some col => ∃ v, e.validateColumn schema row col = .ok v ∧ validated[name]? = some v
    | none => validated[name]? = start[name]? := by
  induction columns generalizing start with
  | nil =>
    cases h
    rfl
  | cons col columns ih =>
    rw [List.foldlM_cons] at h
    obtain ⟨start', hstart, h⟩ := ExceptList.bind_ok_iff.mp h
    obtain ⟨v, hv, hstart⟩ := ExceptList.bind_ok_iff.mp hstart
    cases hstart
    have hrest := ih h
    unfold columnOf at hrest ⊢
    rw [List.findRev?]
    cases hlast : columns.findRev? (·.name = name) with
    | some col' =>
      rw [hlast] at hrest
      exact hrest
    | none =>
      rw [hlast] at hrest
      by_cases hname : col.name = name
      · rw [decide_eq_true hname]
        refine ⟨v, hv, hrest.trans ?_⟩
        rw [← hname, Std.ExtTreeMap.getElem?_insert_self]
      · rw [decide_eq_false hname]
        refine hrest.trans ?_
        rw [Std.ExtTreeMap.getElem?_insert, if_neg (by simpa using hname)]

theorem getElem?_blank (columns : List ColumnDef) (start : Row) (name : Str) :
    (columns.foldl (fun (row : Row) col => row.insert col.name .null) start)[name]? =
      ((columnOf columns name).map fun _ => Value.null).or start[name]? := by
  induction columns generalizing start with
  | nil => rfl
  | cons col columns ih =>
    rw [List.foldl_cons, ih, columnOf, columnOf, List.findRev?]
    cases columns.findRev? (·.name = name) with
    | some col' => rfl
    | none =>
      rw [Std.ExtTreeMap.getElem?_insert]
      by_cases hname : col.name = name
      · simp [hname]
      · simp [hname]

/-- Validation gives a row the columns of the schema. -/
theorem mem_validate_iff (h : e.validate schema row = .ok validated) (name : Str) :
    name ∈ validated ↔ name ∈ schema.columns.foldl
      (fun (row : Row) col => row.insert col.name .null) ∅ := by
  have hvalidate := getElem?_validate h name
  rw [Std.ExtTreeMap.mem_iff_isSome_getElem?, Std.ExtTreeMap.mem_iff_isSome_getElem?, getElem?_blank]
  cases hcol : columnOf schema.columns name with
  | none =>
    rw [hcol] at hvalidate
    rw [hvalidate]
    rfl
  | some col =>
    rw [hcol] at hvalidate
    obtain ⟨v, -, hv⟩ := hvalidate
    rw [hv]
    rfl

/-- The names of a row that is stored, as far as it is given back. -/
theorem keptNames_eq {returned : Row} (h : e.validate schema row = .ok validated)
    (hreturned : business returned = business validated) : keptNames schema.columns =
      (business returned).keys.take ((business returned).keys.length % 65536) := by
  have hkeys : (business returned).keys = (business (schema.columns.foldl
      (fun (row : Row) col => row.insert col.name .null) ∅)).keys := by
    refine OrderedMap.keys_ext fun name => ?_
    rw [hreturned, mem_business, mem_business, mem_validate_iff h]
  rw [hkeys]
  rfl

/-- A cell of a stored row holds what validation made of the given value. -/
theorem cell_iff_validated {returned : Row} {hdr : TupleHeader} {t : Tuple}
    (h : e.validate schema row = .ok validated) (hreturned : business returned = business validated)
    (ht : rowToTuple returned hdr = .ok t) (name : Str) (v : Value) :
    Cell t name v ↔ name ∈ keptNames schema.columns ∧ validated[name]? = some v := by
  rw [cell_iff ht, ← keptNames_eq h hreturned]
  refine and_congr_right fun hkept => ?_
  rw [keptNames_eq h hreturned] at hkept
  have hmem := Std.ExtTreeMap.mem_keys.mp (List.mem_of_mem_take hkept)
  rw [hreturned, getElem?_business, if_neg (by simpa using (mem_business.mp hmem).2)]

/-- A kept name stands for a column. -/
theorem exists_columnOf {columns : List ColumnDef} {name : Str} (h : name ∈ keptNames columns) :
    ∃ col, columnOf columns name = some col := by
  have hmem := (mem_business.mp (Std.ExtTreeMap.mem_keys.mp (List.mem_of_mem_take h))).1
  rw [Std.ExtTreeMap.mem_iff_isSome_getElem?, getElem?_blank] at hmem
  cases hcol : columnOf columns name with
  | some col => exact ⟨col, rfl⟩
  | none =>
    rw [hcol] at hmem
    cases hmem

end

end JiaMiaoDB
