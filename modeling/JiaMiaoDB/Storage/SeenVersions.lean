import JiaMiaoDB.Storage.Effects
import JiaMiaoDB.Storage.SnapshotStability

/-! What a reader sees of a version is decided by the version's header, and a scan returns the rows of
the versions that are seen. -/

set_option autoImplicit false

namespace JiaMiaoDB
open StorageEngine BinaryRowCodec

theorem checkTupleVisibility_congr {row row' : Row} (hxmin : row[str "_xmin"]? = row'[str "_xmin"]?)
    (hxmax : row[str "_xmax"]? = row'[str "_xmax"]?) (hcid : row[str "_cid"]? = row'[str "_cid"]?)
    (xid : TransactionId) (snap : Snapshot) (cid : Int32) (c : CLog) :
    checkTupleVisibility row xid snap cid c = checkTupleVisibility row' xid snap cid c := by
  have hmin : xidField row (str "_xmin") = xidField row' (str "_xmin") := by
    rw [xidField, hxmin]
    rfl
  have hmax : xidField row (str "_xmax") = xidField row' (str "_xmax") := by
    rw [xidField, hxmax]
    rfl
  have hcommand : cidField row = cidField row' := by
    rw [cidField, hcid]
    rfl
  simp only [checkTupleVisibility, hmin, hmax, hcommand]

/-- The version is visible: its header decides. -/
def Tuple.seen (t : Tuple) (r : Reader) (c : CLog) : Bool := r.sees c (withSystemColumns ∅ t.hdr)

section Seen
variable {t : Tuple} {r : Reader} {c : CLog}

theorem seen_of_toRow {row : Row} (h : toRow t = .ok row) : r.sees c row = t.seen r c := by
  obtain ⟨cols, -, rfl⟩ := toRow_eq_ok.mp h
  exact checkTupleVisibility_congr (getElem?_withSystemColumns_system (by decide))
    (getElem?_withSystemColumns_system (by decide)) (getElem?_withSystemColumns_system (by decide))
    _ _ _ _

theorem xidField_widened {row : Row} {column : Str} {x : TransactionId}
    (h : row[column]? = some (.int x.toUInt64.toInt64)) : xidField row column = x := by
  have hnat : x.toUInt64.toInt64.toInt = x.toNat := by
    have hlt := x.toNat_lt
    have hbv : x.toUInt64.toBitVec.toNat = x.toNat := UInt32.toNat_toUInt64 x
    change x.toUInt64.toBitVec.toInt = _
    rw [BitVec.toInt_eq_toNat_of_lt (by omega), hbv]
  simp only [xidField, h, toUInt32_widened]
  split
  · rfl
  · rename_i hpos
    rw [Int64.lt_iff_toInt_lt, Int64.toInt_zero, hnat] at hpos
    have hx : x.toNat = 0 := by omega
    exact (UInt32.toNat_inj.mp hx).symm

theorem xmin_withSystemColumns (t : Tuple) :
    xidField (withSystemColumns ∅ t.hdr) (str "_xmin") = t.hdr.xmin := by
  refine xidField_widened ?_
  simp only [withSystemColumns, Std.ExtTreeMap.getElem?_insert, Std.LawfulEqCmp.compare_eq_iff_eq]
  rw [if_neg (by decide), if_neg (by decide), if_pos trivial]

theorem xmax_withSystemColumns (t : Tuple) :
    xidField (withSystemColumns ∅ t.hdr) (str "_xmax") = t.hdr.xmax := by
  refine xidField_widened ?_
  simp only [withSystemColumns, Std.ExtTreeMap.getElem?_insert, Std.LawfulEqCmp.compare_eq_iff_eq]
  rw [if_neg (by decide), if_pos trivial]

theorem seen_of_no_xmin (h : t.hdr.xmin = InvalidTransactionId) : t.seen r c = true :=
  visible_of_no_xmin c ((xmin_withSystemColumns t).trans h)

/-- The inserter sees its row again when it may read all commands, even one that another
transaction has deleted. -/
theorem seen_of_own (h0 : t.hdr.xmin ≠ InvalidTransactionId)
    (hf : t.hdr.xmin ≠ FrozenTransactionId) (hown : t.hdr.xmin = r.xid) (hmax : t.hdr.xmax ≠ r.xid)
    (hcid : r.cid = Int32.maxValue) : t.seen r c = true := by
  have hlate : (cidField (withSystemColumns ∅ t.hdr)).any (r.cid < ·) = false := by
    rw [Option.any_eq_false]
    intro v _
    rw [hcid, decide_eq_false_iff_not, Int32.not_lt]
    exact Int32.le_maxValue v
  rw [Tuple.seen, Reader.sees, checkTupleVisibility]
  simp only [xmin_withSystemColumns, xmax_withSystemColumns]
  rw [if_neg h0, if_neg hf, if_pos ⟨hown, hown ▸ h0⟩, hlate]
  simp [hmax]

/-- A committed deleter hides the row from all but its inserter. -/
theorem not_seen_of_deleted (h0 : t.hdr.xmin ≠ InvalidTransactionId)
    (hmax0 : t.hdr.xmax ≠ InvalidTransactionId) (hc : c.getStatus t.hdr.xmax = .committed)
    (hown : t.hdr.xmin = r.xid → r.xid = t.hdr.xmax) : t.seen r c = false := by
  have hsurvives : survives r.xid t.hdr.xmax c = false := by
    simp [survives, hmax0, hc]
  have hmin := xmin_withSystemColumns t
  have hmax := xmax_withSystemColumns t
  rw [Tuple.seen, Reader.sees]
  by_cases hf : t.hdr.xmin = FrozenTransactionId
  · rw [visible_frozen c (hmin.trans hf), hmax, hsurvives]
  · by_cases ho : Own r.xid t.hdr.xmin
    · obtain ⟨hxid, hxid0⟩ := ho
      rw [checkTupleVisibility]
      simp only [hmin, hmax]
      rw [if_neg h0, if_neg hf, if_pos ⟨hxid, hxid0⟩, ← hown hxid]
      simp
    · rw [visible_other c (hmin ▸ h0) (hmin ▸ hf) (hmin ▸ ho), hmax, hsurvives, Bool.and_false]

end Seen

/-- A scan returns the rows of the versions that are visible. -/
theorem mem_scanWithSnapshot {e : StorageEngine} {table : Str} {snap : Snapshot}
    {xid : TransactionId} {cid : Int32} {rows : RowSet} {row : Row}
    (h : e.scanWithSnapshot table snap xid cid = .ok rows) : row ∈ rows ↔
      ∃ m t, e.tableOf table = .ok m ∧ t ∈ m.scanAll ∧ toRow t = .ok row ∧
        t.seen ⟨xid, snap, cid⟩ e.txnMgr.clog = true := by
  obtain ⟨all, hall, h⟩ := ExceptList.bind_ok_iff.mp h
  obtain ⟨m, hm, hall⟩ := ExceptList.bind_ok_iff.mp hall
  obtain rfl := Except.ok.inj h
  rw [List.mem_filter, ExceptList.mem_of_mapM_ok hall]
  constructor
  · rintro ⟨⟨t, ht, hrow⟩, hsees⟩
    exact ⟨m, t, hm, ht, hrow, (seen_of_toRow hrow).symm.trans hsees⟩
  · rintro ⟨m', t, hm', ht, hrow, hseen⟩
    obtain rfl := Except.ok.inj (hm.symm.trans hm')
    refine ⟨⟨t, ht, hrow⟩, ?_⟩
    rw [← seen_of_toRow hrow] at hseen
    exact hseen

end JiaMiaoDB
