import JiaMiaoDB.Lib.UndoLog
import JiaMiaoDB.Storage.DeleteEffect
import JiaMiaoDB.Storage.Mirror
import JiaMiaoDB.Storage.Outcomes
import JiaMiaoDB.Storage.StoredTuples
import JiaMiaoDB.Storage.TransactedRuns

/-!
# Rows of a transaction

A table with one version a row, as a store from row ids to versions. When one transaction runs at a
time, the versions that it sees are those without a deleter.
-/

set_option autoImplicit false

namespace JiaMiaoDB
open StorageEngine BinaryRowCodec

/-- The row format reads the columns back. -/
def Sized (row : Row) : Prop := 0 < (business row).size ∧ (business row).size < 65536

/-- The columns of a version without a deleter. -/
def Tuple.live (t : Tuple) : Option Row :=
  if t.hdr.xmax = InvalidTransactionId then (toRow t).toOption.map business else none

namespace StorageEngine

/-- The stored version of a row. -/
def cell (e : StorageEngine) (k : RowKey) : Option Tuple :=
  (e.data[k.table]?).bind (·.getLatest k.rowId)

/-- The rows that are not deleted. -/
def live (e : StorageEngine) (k : RowKey) : Option Row := (e.cell k).bind Tuple.live

section Cells
variable {e e' : StorageEngine} {q : Str} {m : MemTable} {id : Int64} {t : Tuple} {k : RowKey}

theorem cell_congr (h : e'.data = e.data) : e'.cell = e.cell := by
  funext k
  rw [cell, cell, h]

theorem live_congr (h : e'.cell = e.cell) : e'.live = e.live := by
  funext k
  rw [live, live, h]

theorem cell_of_table (hm : e.data[q]? = some m) : e.cell ⟨q, id⟩ = m.getLatest id := by
  rw [cell, hm]
  rfl

theorem mem_of_cell (hsingle : m.SingleVersion) (hm : e.data[q]? = some m) :
    e.cell ⟨q, id⟩ = some t ↔ t ∈ m.scanAll ∧ t.hdr.rowId.toInt64 = id := by
  rw [cell_of_table hm, hsingle.getLatest_eq_some]

/-- Only the versions of one row change. -/
theorem cell_insert {m' : MemTable} {v : Option Tuple} (hm : e.data[q]? = some m)
    (hrow : m'.getLatest id = v) (hothers : ∀ id', id' ≠ id → m'.getLatest id' = m.getLatest id')
    (hdata : e'.data = e.data.insert q m') : e'.cell = Function.update e.cell ⟨q, id⟩ v := by
  funext k
  obtain ⟨q', id'⟩ := k
  by_cases hq : q = q'
  · subst hq
    have hm' : e'.data[q]? = some m' := by
      rw [hdata]
      exact Std.ExtTreeMap.getElem?_insert_self
    rw [cell_of_table hm']
    by_cases hid : id' = id
    · subst hid
      rw [Function.update_self, hrow]
    · have hne : (⟨q, id'⟩ : RowKey) ≠ ⟨q, id⟩ := fun he => hid (congrArg RowKey.rowId he)
      rw [Function.update_of_ne hne, hothers id' hid, cell_of_table hm]
  · have hne : (⟨q', id'⟩ : RowKey) ≠ ⟨q, id⟩ := fun he => hq (congrArg RowKey.table he).symm
    rw [Function.update_of_ne hne, cell, cell, hdata, Std.ExtTreeMap.getElem?_insert,
      if_neg (by simpa using hq)]

theorem getLatest_eraseAllFor (hsingle : m.SingleVersion) (id id' : Int64) :
    (m.eraseAllFor id).getLatest id' = if id' = id then none else m.getLatest id' := by
  apply Option.ext
  intro t
  rw [(hsingle.eraseAllFor id).getLatest_eq_some, hsingle.mem_eraseAllFor]
  split
  · subst id'
    constructor
    · rintro ⟨⟨-, hne⟩, rfl⟩
      exact absurd rfl hne
    · intro h
      cases h
  · next hne =>
    rw [hsingle.getLatest_eq_some]
    constructor
    · rintro ⟨⟨hmem, -⟩, hid⟩
      exact ⟨hmem, hid⟩
    · rintro ⟨hmem, rfl⟩
      exact ⟨⟨hmem, hne⟩, rfl⟩

theorem getLatest_put (hsingle : m.SingleVersion) (hfresh : MemTable.SingleVersion.Fresh m id)
    (hid : t.hdr.rowId.toInt64 = id) (hnorm : MemTable.normalize t = t) (seq : UInt64) (id' : Int64) :
    (m.put id t seq).getLatest id' = if id' = id then some t else m.getLatest id' := by
  apply Option.ext
  intro t'
  rw [(hsingle.put seq hfresh hid).getLatest_eq_some, hsingle.mem_put hfresh, hnorm]
  split
  · subst id'
    rw [Option.some.injEq]
    constructor
    · rintro ⟨rfl | hmem, hid'⟩
      · rfl
      · exact absurd hid' (hfresh t' hmem)
    · rintro rfl
      exact ⟨.inl rfl, hid⟩
  · next hne =>
    rw [hsingle.getLatest_eq_some]
    constructor
    · rintro ⟨rfl | hmem, hid'⟩
      · exact absurd (hid'.symm.trans hid) hne
      · exact ⟨hmem, hid'⟩
    · rintro ⟨hmem, hid'⟩
      exact ⟨.inr hmem, hid'⟩

theorem cell_erased (hsingle : m.SingleVersion) (hm : e.data[q]? = some m)
    (hdata : e'.data = e.data.insert q (m.eraseAllFor id)) :
    e'.cell = Function.update e.cell ⟨q, id⟩ none := by
  refine cell_insert hm ?_ (fun id' hne => ?_) hdata
  · rw [getLatest_eraseAllFor hsingle, if_pos rfl]
  · rw [getLatest_eraseAllFor hsingle, if_neg hne]

theorem cell_put (hsingle : m.SingleVersion) (hfresh : MemTable.SingleVersion.Fresh m id)
    (hm : e.data[q]? = some m) (hid : t.hdr.rowId.toInt64 = id) (hnorm : MemTable.normalize t = t)
    {seq : UInt64} (hdata : e'.data = e.data.insert q (m.put id t seq)) :
    e'.cell = Function.update e.cell ⟨q, id⟩ (some t) := by
  refine cell_insert hm ?_ (fun id' hne => ?_) hdata
  · rw [getLatest_put hsingle hfresh hid hnorm, if_pos rfl]
  · rw [getLatest_put hsingle hfresh hid hnorm, if_neg hne]

end Cells

/-! ### Versions as they are stored -/

section Versions
variable {q : Str} {id : Int64} {row : Row} {t : Tuple}

/-- A version of the table that can be read. -/
structure Readable (q : Str) (t : Tuple) : Prop where
  canonical : Canonical q t
  read : ∃ row, toRow t = .ok row ∧ Sized row

theorem toRow_of_rowToTuple (hsized : Sized row) {hdr : TupleHeader} (h : rowToTuple row hdr = .ok t) :
    toRow t = .ok (withSystemColumns (business row) t.hdr) := by
  obtain ⟨bs, hbs, ht⟩ := ExceptList.bind_ok_iff.mp h
  cases ht
  exact toRow_eq_ok.mpr ⟨business row, decode_encode_of_size hbs hsized.1 hsized.2, rfl⟩

theorem sized_congr {row' : Row} (h : business row' = business row) : Sized row' ↔ Sized row := by
  rw [Sized, Sized, h]

theorem readable_of_rowToTuple (hsized : Sized row) (h : rowToTuple row (headerFromRow q id row) = .ok t) :
    Readable q t := by
  have hid := StorageEngine.rowId_of_rowToTuple h
  refine ⟨⟨row, ?_, hsized.2⟩, _, toRow_of_rowToTuple hsized h, ?_⟩
  · rw [hid]
    exact h
  · exact (sized_congr ((business_withSystemColumns _ _).trans (business_business row))).mpr hsized

theorem header_of_rowToTuple (h : rowToTuple row (headerFromRow q id row) = .ok t) :
    t.hdr.xmin = headerField row (str "_xmin") ∧ t.hdr.xmax = headerField row (str "_xmax") ∧
      t.hdr.cid = headerField row (str "_cid") := by
  obtain ⟨bs, -, ht⟩ := ExceptList.bind_ok_iff.mp h
  cases ht
  exact ⟨rfl, rfl, rfl⟩

theorem live_of_rowToTuple (hsized : Sized row) (h : rowToTuple row (headerFromRow q id row) = .ok t) :
    t.live = if headerField row (str "_xmax") = InvalidTransactionId then some (business row)
      else none := by
  rw [Tuple.live, (header_of_rowToTuple h).2.1, toRow_of_rowToTuple hsized h]
  simp only [Except.toOption, Option.map_some]
  rw [business_withSystemColumns, business_business]

theorem headerField_stamp (row : Row) (xmin xmax : TransactionId) (cid : Int32) :
    headerField (stamp row xmin xmax cid) (str "_xmin") = xmin ∧
      headerField (stamp row xmin xmax cid) (str "_xmax") = xmax ∧
      headerField (stamp row xmin xmax cid) (str "_cid") = cid.toInt64.toUInt64.toUInt32 := by
  refine ⟨?_, ?_, ?_⟩
  · rw [stamp, headerField_insert_of_ne (by decide), headerField_insert_of_ne (by decide),
      headerField_insert_self]
  · rw [stamp, headerField_insert_of_ne (by decide), headerField_insert_self]
  · rw [stamp, headerField, Std.ExtTreeMap.getElem?_insert_self]

theorem toInt32_widened (cid : Int32) :
    cid.toInt64.toUInt64.toUInt32.toUInt64.toInt64.toInt32 = cid := by
  apply Int32.toBitVec_inj.mp
  change BitVec.signExtend 32 (BitVec.setWidth 64 (BitVec.setWidth 32
    (BitVec.signExtend 64 cid.toBitVec))) = cid.toBitVec
  apply BitVec.eq_of_getLsbD_eq
  intro i hi
  have hlt : i < 64 := by omega
  simp only [BitVec.getLsbD_signExtend, BitVec.getLsbD_setWidth, hi, hlt, decide_true,
    Bool.true_and, if_true]

theorem lt_succ_commandId {n : Int32} (h : n ≠ Int32.maxValue) : n < n + 1 := by
  have hlt : n.toInt < 2 ^ 31 - 1 := by
    have hbound := n.toInt_lt
    have hne : n.toInt ≠ Int32.maxValue.toInt := fun he => h (Int32.toInt_inj.mp he)
    rw [Int32.toInt_maxValue] at hne
    omega
  have hlo := n.le_toInt
  rw [Int32.lt_iff_toInt_lt, Int32.toInt_add, Int32.toInt_one, Int.bmod_eq_of_le (by omega) (by omega)]
  omega

/-- The command that has written the version. -/
theorem cidField_withSystemColumns (t : Tuple) :
    cidField (withSystemColumns ∅ t.hdr) = some t.hdr.cid.toUInt64.toInt64.toInt32 := by
  rw [cidField, withSystemColumns, Std.ExtTreeMap.getElem?_insert_self]

end Versions

end StorageEngine

/-! ### Stamps -/

namespace TransactionManager
variable {m m' : TransactionManager} {t : Tuple}

/-- The transactions that have written the version are over and have committed. -/
structure Settles (m : TransactionManager) (t : Tuple) : Prop where
  inserter : t.hdr.xmin = FrozenTransactionId ∨ m.clog.getStatus t.hdr.xmin = .committed
  deleter : t.hdr.xmax = InvalidTransactionId ∨ m.clog.getStatus t.hdr.xmax = .committed

/-- The same, or the current transaction has written it. -/
inductive Stamps (m : TransactionManager) (t : Tuple) : Prop
  | settled (h : m.Settles t)
  | deleted (h0 : m.context.xid ≠ InvalidTransactionId)
      (hmin : t.hdr.xmin = FrozenTransactionId ∨ m.clog.getStatus t.hdr.xmin = .committed)
      (hmax : t.hdr.xmax = m.context.xid)
  | own (h0 : m.context.xid ≠ InvalidTransactionId) (hmin : t.hdr.xmin = m.context.xid)
      (hcid : t.hdr.cid.toUInt64.toInt64.toInt32 ≤ m.context.commandId)
      (hmax : t.hdr.xmax = InvalidTransactionId ∨ t.hdr.xmax = m.context.xid)

/-- One transaction at a time. -/
structure Alone (m : TransactionManager) : Prop where
  active : ∀ x ∈ m.activeXids, x = m.context.xid
  held : m.context.hasSnapshot = true →
    ∀ x ∈ m.context.snapshot.xip, x = m.context.xid ∧ x ≠ InvalidTransactionId
  undo : m.context.xid = InvalidTransactionId → m.context.undoRecords = []

theorem Settles.congr (h : m.Settles t)
    (hclog : ∀ x, m.clog.getStatus x = .committed → m'.clog.getStatus x = .committed) :
    m'.Settles t :=
  ⟨h.inserter.imp_right (hclog _), h.deleter.imp_right (hclog _)⟩

/-- A transaction goes on. -/
theorem Stamps.congr (h : m.Stamps t)
    (hclog : ∀ x, m.clog.getStatus x = .committed → m'.clog.getStatus x = .committed)
    (hxid : m.context.xid ≠ InvalidTransactionId → m'.context.xid = m.context.xid ∧
      m.context.commandId ≤ m'.context.commandId) : m'.Stamps t := by
  cases h with
  | settled h => exact .settled (h.congr hclog)
  | deleted h0 hmin hmax =>
    have hsame := (hxid h0).1
    refine .deleted ?_ (hmin.imp_right (hclog _)) (hmax.trans hsame.symm)
    rwa [hsame]
  | own h0 hmin hcid hmax =>
    obtain ⟨hsame, hle⟩ := hxid h0
    refine .own ?_ (hmin.trans hsame.symm) (Int32.le_trans hcid hle) (hmax.imp_right ?_)
    · rwa [hsame]
    · intro hmax
      exact hmax.trans hsame.symm

/-- Between transactions everything is settled. -/
theorem Stamps.settles (h : m.Stamps t) (hidle : m.context.xid = InvalidTransactionId) :
    m.Settles t := by
  cases h with
  | settled h => exact h
  | deleted h0 => exact absurd hidle h0
  | own h0 => exact absurd hidle h0

/-- When the transaction commits, so is what it has written. -/
theorem Stamps.committed (h : m.Stamps t)
    (hclog : ∀ x, m.clog.getStatus x = .committed → m'.clog.getStatus x = .committed)
    (hown : m.context.xid ≠ InvalidTransactionId → m'.clog.getStatus m.context.xid = .committed) :
    m'.Settles t := by
  cases h with
  | settled h => exact h.congr hclog
  | deleted h0 hmin hmax =>
    refine ⟨hmin.imp_right (hclog _), .inr ?_⟩
    rw [hmax]
    exact hown h0
  | own h0 hmin _ hmax =>
    refine ⟨.inr ?_, hmax.imp_right fun hmax => ?_⟩
    · rw [hmin]
      exact hown h0
    · rw [hmax]
      exact hown h0

/-- The deleter has committed or is the reader. -/
theorem survives_of_deleter {xmax : TransactionId}
    (h : xmax = InvalidTransactionId ∨ m.clog.getStatus xmax = .committed ∨
      m.context.xid ≠ InvalidTransactionId ∧ xmax = m.context.xid) :
    survives m.context.xid xmax m.clog = decide (xmax = InvalidTransactionId) := by
  unfold survives
  by_cases h0 : xmax = InvalidTransactionId
  · rw [if_pos h0, decide_eq_true h0]
  · rw [if_neg h0, decide_eq_false h0]
    rcases h with h | h | ⟨hxid, h⟩
    · exact absurd h h0
    · split
      · rfl
      · rw [h]
        rfl
    · rw [if_pos ⟨h, hxid⟩]

/-- What the current transaction sees of the only version of a row. -/
theorem Stamps.seen (h : m.Stamps t) (ha : Accounted m) {snap : Snapshot}
    (hsnap : ∀ x ∈ snap.xip, x = m.context.xid) :
    t.seen ⟨m.context.xid, snap, m.context.commandId⟩ m.clog =
      decide (t.hdr.xmax = InvalidTransactionId) := by
  have hopen (h0 : m.context.xid ≠ InvalidTransactionId) :
      FirstNormalTransactionId ≤ m.context.xid ∧ m.clog.getStatus m.context.xid = .inProgress := by
    obtain ⟨hnormal, -, hopen⟩ := ha.active _ (ha.current h0)
    exact ⟨hnormal, hopen⟩
  have hspecial : m.clog.getStatus InvalidTransactionId = .inProgress := ha.future _ (.inl (by decide))
  have hmin := xmin_withSystemColumns t
  have hmax := xmax_withSystemColumns t
  -- When someone else has inserted it, the deleter decides.
  have hothers (hins : t.hdr.xmin = FrozenTransactionId ∨ m.clog.getStatus t.hdr.xmin = .committed) :
      t.seen ⟨m.context.xid, snap, m.context.commandId⟩ m.clog =
        survives m.context.xid t.hdr.xmax m.clog := by
    rw [Tuple.seen, Reader.sees]
    by_cases hf : t.hdr.xmin = FrozenTransactionId
    · rw [visible_frozen _ (hmin.trans hf), hmax]
    have hcommitted := hins.resolve_left hf
    have hne : t.hdr.xmin ≠ InvalidTransactionId := by
      intro he
      rw [he, hspecial] at hcommitted
      cases hcommitted
    have hown : ¬ Own m.context.xid t.hdr.xmin := by
      rintro ⟨hsame, hxid⟩
      rw [hsame, (hopen hxid).2] at hcommitted
      cases hcommitted
    have hlist : t.hdr.xmin ∉ snap.xip := by
      intro hmem
      refine hown ⟨hsnap _ hmem, fun hx => hne ?_⟩
      rw [hsnap _ hmem, hx]
    have hins : inserted snap t.hdr.xmin m.clog = true := by
      simp [inserted, hcommitted, hlist]
    rw [visible_other _ (hmin ▸ hne) (hmin ▸ hf) (hmin ▸ hown), hmin, hmax, hins, Bool.true_and]
  cases h with
  | settled h =>
    rw [hothers h.inserter]
    exact survives_of_deleter (h.deleter.imp_right .inl)
  | deleted h0 hins hdel =>
    rw [hothers hins]
    exact survives_of_deleter (.inr (.inr ⟨h0, hdel⟩))
  | own h0 hins hcid hdel =>
    obtain ⟨hnormal, -⟩ := hopen h0
    have hf : m.context.xid ≠ FrozenTransactionId := by
      intro he
      rw [he] at hnormal
      exact absurd hnormal (by decide)
    have hlate : (cidField (withSystemColumns ∅ t.hdr)).any (m.context.commandId < ·) = false := by
      rw [cidField_withSystemColumns, Option.any_some, decide_eq_false_iff_not, Int32.not_lt]
      exact hcid
    rw [Tuple.seen, Reader.sees, checkTupleVisibility]
    simp only [hmin, hmax]
    rw [hins, if_neg h0, if_neg hf, if_pos ⟨rfl, h0⟩, hlate, if_neg Bool.false_ne_true]
    rcases hdel with hdel | hdel
    · rw [hdel]
      simpa using Ne.symm h0
    · rw [hdel]
      simpa using h0

end TransactionManager
end JiaMiaoDB
