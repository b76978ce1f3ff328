import JiaMiaoDB.Lib.ExceptList
import JiaMiaoDB.Storage.Engine

/-! Rows that were read from a tuple and are stored again: the header comes back field by field, and
so does the row when it has a business column. -/

set_option autoImplicit false

namespace JiaMiaoDB
open ByteFormat BinaryRowCodec

/-! ### Decoded rows -/

theorem yields_value {ε : Type} (err : ValueError → ε) :
    Yields (fun v : Value => v.Fits) (readValue err) := by
  unfold readValue
  refine (Yields.any _).bind fun tag _ => ?_
  split
  · exact Yields.pure trivial
  · exact (Yields.any _).map fun _ _ => trivial
  · exact (Yields.any _).map fun _ _ => trivial
  · exact (Yields.any _).map fun _ _ => trivial
  · refine (Yields.le 4 _).bind fun len hlen => (Yields.bytes len _).map fun bs hbs => ?_
    simp only [Value.Fits]
    omega
  · exact Yields.throw _

namespace BinaryRowCodec

theorem yields_column : Yields ColumnFits readColumn := by
  unfold readColumn
  refine (Yields.le 2 _).bind fun len hlen => (Yields.bytes len _).bind fun name hname => ?_
  refine (yields_value _).bind fun v hv => Yields.pure ⟨?_, hv⟩
  simp only
  omega

theorem yields_row :
    Yields (fun row : Row => row.size < 65536 ∧ ∀ p ∈ row.toList, ColumnFits p) readRow := by
  unfold readRow
  refine (Yields.le 2 _).bind fun n hn => (Yields.any _).bind fun _ _ => ?_
  refine (Yields.any _).bind fun _ _ => (yields_column.many n).bind fun cols hcols => ?_
  have hsize := OrderedMap.size_foldl_le
    (f := fun (row : Row) q => row.insert q.1 q.2) (fun _ _ => Std.ExtTreeMap.size_insert_le) cols
  refine Yields.pure ⟨by omega, fun p hp => hcols.2 p ?_⟩
  exact OrderedMap.mem_toList_foldl (fun _ _ _ => OrderedMap.mem_toList_insert) hp

/-- A decoded row can be encoded again. -/
theorem fits_of_decode {data : Bytes} {row : Row} (h : decode data = .ok row) :
    row.size < 65536 ∧ ∀ p ∈ row.toList, ColumnFits p := by
  rw [decode] at h
  split at h
  · cases h
    simp
  · rcases hrun : readRow.run data with ⟨r, s⟩
    rw [hrun] at h
    subst h
    exact yields_row.of_run hrun

end BinaryRowCodec

/-! ### System columns -/

theorem isSystemColumn_iff {k : Str} : isSystemColumn k = true ↔
    k = str "_rowid" ∨ k = str "_xmin" ∨ k = str "_xmax" ∨ k = str "_cid" := by
  simp [isSystemColumn, systemColumns]

theorem getElem?_business {row : Row} {k : Str} :
    (business row)[k]? = if isSystemColumn k then none else row[k]? := by
  rw [business, Std.ExtTreeMap.getElem?_filter']
  cases isSystemColumn k <;> cases row[k]? <;> simp

/-- Outside the four columns nothing changes. -/
theorem getElem?_withSystemColumns {row : Row} {hdr : TupleHeader} {k : Str}
    (hk : isSystemColumn k = false) : (withSystemColumns row hdr)[k]? = row[k]? := by
  have hne : ¬ (k = str "_rowid" ∨ k = str "_xmin" ∨ k = str "_xmax" ∨ k = str "_cid") := by
    rw [← isSystemColumn_iff, hk]
    exact Bool.false_ne_true
  simp only [not_or] at hne
  simp only [withSystemColumns, Std.ExtTreeMap.getElem?_insert, Std.LawfulEqCmp.compare_eq_iff_eq]
  rw [if_neg (Ne.symm hne.2.2.2), if_neg (Ne.symm hne.2.2.1), if_neg (Ne.symm hne.2.1),
    if_neg (Ne.symm hne.1)]

/-- On the four columns the row does not matter. -/
theorem getElem?_withSystemColumns_system {row row' : Row} {hdr : TupleHeader} {k : Str}
    (hk : isSystemColumn k = true) :
    (withSystemColumns row hdr)[k]? = (withSystemColumns row' hdr)[k]? := by
  simp only [withSystemColumns, Std.ExtTreeMap.getElem?_insert, Std.LawfulEqCmp.compare_eq_iff_eq]
  rcases isSystemColumn_iff.1 hk with rfl | rfl | rfl | rfl <;> simp

theorem withSystemColumns_congr {row row' : Row} (hdr : TupleHeader)
    (h : business row = business row') : withSystemColumns row hdr = withSystemColumns row' hdr := by
  refine Std.ExtTreeMap.ext_getElem? fun k => ?_
  cases hk : isSystemColumn k with
  | true => exact getElem?_withSystemColumns_system hk
  | false =>
    have := congrArg (fun r : Row => r[k]?) h
    simpa only [getElem?_withSystemColumns hk, getElem?_business, hk, Bool.false_eq_true, if_false]
      using this

theorem business_withSystemColumns (row : Row) (hdr : TupleHeader) :
    business (withSystemColumns row hdr) = business row := by
  refine Std.ExtTreeMap.ext_getElem? fun k => ?_
  rw [getElem?_business, getElem?_business]
  cases hk : isSystemColumn k with
  | true => rfl
  | false => simp only [Bool.false_eq_true, if_false, getElem?_withSystemColumns hk]

theorem business_business (row : Row) : business (business row) = business row := by
  refine Std.ExtTreeMap.ext_getElem? fun k => ?_
  simp only [getElem?_business]
  split <;> rfl

namespace StorageEngine

theorem toRow_eq_ok {t : Tuple} {row : Row} : toRow t = .ok row ↔
    ∃ cols, decode t.payload = .ok cols ∧ row = withSystemColumns cols t.hdr := by
  have htwice (cols : Row) : withSystemColumns (withSystemColumns cols t.hdr) t.hdr =
      withSystemColumns cols t.hdr :=
    withSystemColumns_congr t.hdr (business_withSystemColumns cols t.hdr)
  simp only [toRow, tupleToRow]
  constructor
  · intro h
    obtain ⟨row', hrow', h⟩ := ExceptList.bind_ok_iff.1 h
    obtain ⟨cols, hcols, hrow'⟩ := ExceptList.bind_ok_iff.1 hrow'
    cases hrow'
    cases h
    exact ⟨cols, hcols, htwice cols⟩
  · rintro ⟨cols, hcols, rfl⟩
    rw [hcols]
    exact congrArg Except.ok (htwice cols)

variable {t : Tuple} {row : Row}

/-- The system columns of a row that was read. -/
theorem header_of_toRow (h : toRow t = .ok row) :
    row[str "_rowid"]? = some (.int t.hdr.rowId.toInt64) ∧
      row[str "_xmin"]? = some (.int t.hdr.xmin.toUInt64.toInt64) ∧
      row[str "_xmax"]? = some (.int t.hdr.xmax.toUInt64.toInt64) ∧
      row[str "_cid"]? = some (.int t.hdr.cid.toUInt64.toInt64) := by
  obtain ⟨cols, -, rfl⟩ := toRow_eq_ok.1 h
  simp only [withSystemColumns, Std.ExtTreeMap.getElem?_insert, Std.LawfulEqCmp.compare_eq_iff_eq]
  refine ⟨?_, ?_, ?_, ?_⟩
  · rw [if_neg (by decide), if_neg (by decide), if_neg (by decide), if_pos trivial]
  · rw [if_neg (by decide), if_neg (by decide), if_pos trivial]
  · rw [if_neg (by decide), if_pos trivial]
  · rw [if_pos trivial]

theorem getRowId_of_toRow (h : toRow t = .ok row) : getRowId row = .ok t.hdr.rowId.toInt64 := by
  rw [getRowId, (header_of_toRow h).1]

theorem rowIdOf_of_toRow (h : toRow t = .ok row) : rowIdOf row = t.hdr.rowId.toInt64 := by
  rw [rowIdOf, (header_of_toRow h).1]

theorem toUInt32_widened (x : UInt32) : x.toUInt64.toInt64.toUInt64.toUInt32 = x := by
  rw [UInt64.toUInt64_toInt64]
  exact UInt32.toUInt32_toUInt64 x

/-- The header that a stored row gets again. -/
theorem headerFromRow_of_toRow (h : toRow t = .ok row) (qualified : Str) (rowId : Int64) :
    headerFromRow qualified rowId row = { t.hdr with
      rowId := rowId.toUInt64, schemaHash := fnv1a16 qualified, flags := 0, payloadLen := 0
      crc32 := 0 } := by
  obtain ⟨-, hxmin, hxmax, hcid⟩ := header_of_toRow h
  simp only [headerFromRow, headerField, hxmin, hxmax, hcid, toUInt32_widened]

theorem normalize_rowToTuple {hdr : TupleHeader} (h : rowToTuple row hdr = .ok t) :
    MemTable.normalize t = t := by
  obtain ⟨bs, -, hbs⟩ := ExceptList.bind_ok_iff.1 h
  cases hbs
  rfl

/-- A row that was read can be encoded again. -/
theorem encode_of_toRow (h : toRow t = .ok row) : ∃ bs, encode row = .ok bs := by
  obtain ⟨cols, hcols, rfl⟩ := toRow_eq_ok.1 h
  refine ⟨_, encode_ok_iff.2 ⟨fun p hp => ?_, rfl⟩⟩
  rw [business_withSystemColumns, Std.ExtTreeMap.mem_toList_iff_getElem?_eq_some,
    getElem?_business] at hp
  split at hp
  · cases hp
  · exact (fits_of_decode hcols).2 p (Std.ExtTreeMap.mem_toList_iff_getElem?_eq_some.2 hp)

/-- A row that was read and has a business column is stored again without a loss. -/
theorem rowToTuple_of_toRow (h : toRow t = .ok row) (hb : business row ≠ ∅) (hdr : TupleHeader) :
    ∃ bs, encode row = .ok bs ∧ decode bs = .ok (business row) ∧
      rowToTuple row hdr = .ok ⟨{ hdr with payloadLen := UInt32.ofNat bs.length }, bs⟩ := by
  obtain ⟨bs, henc⟩ := encode_of_toRow h
  refine ⟨bs, henc, ?_, by rw [rowToTuple, henc]; rfl⟩
  obtain ⟨cols, hcols, rfl⟩ := toRow_eq_ok.1 h
  have hsize := (fits_of_decode hcols).1
  have hle : (business cols).size ≤ cols.size := Std.ExtTreeMap.size_filter_le_size
  rw [business_withSystemColumns] at hb
  have hpos : 0 < (business cols).size := by
    rw [← Std.ExtTreeMap.length_toList, List.length_pos_iff]
    exact fun he => hb (Std.ExtTreeMap.toList_eq_nil_iff.1 he)
  have hdec := decode_encode_of_size henc
  rw [business_withSystemColumns] at hdec ⊢
  exact hdec hpos (by omega)

/-! ### Assigned columns -/

theorem getElem?_applyUpdates (row : Row) (updates : Updates) (k : Str) :
    (applyUpdates row updates)[k]? = updates[k]?.or row[k]? := by
  have hfold : applyUpdates row updates = updates.keys.foldl (fun (row : Row) a =>
      (updates[a]?).elim row (row.insert a)) row := by
    rw [applyUpdates, Std.ExtTreeMap.foldl_eq_foldl_toList, ← Std.ExtTreeMap.map_fst_toList_eq_keys,
      List.foldl_map]
    refine List.foldl_ext _ _ _ fun row p hp => ?_
    rw [Std.ExtTreeMap.mem_toList_iff_getElem?_eq_some.mp hp]
    rfl
  rw [hfold, OrderedMap.getElem?_foldl_insert]
  split
  · cases updates[k]? <;> rfl
  · rename_i hk
    rw [Std.ExtTreeMap.mem_keys] at hk
    rw [Std.ExtTreeMap.getElem?_eq_none hk, Option.none_or]

end StorageEngine
end JiaMiaoDB
