import JiaMiaoDB.Lib.FixedWidth
import JiaMiaoDB.Storage.Effects

/-!
# Mirrors

An engine that replays the log of another one mirrors it: the tables hold the same tuples, and the
row id counters and indexes are equal. The tables are those that the calls without a transaction
keep, with one version for each row.
-/

set_option autoImplicit false

namespace JiaMiaoDB
open ByteFormat BinaryRowCodec

namespace StorageEngine
variable {q : Str} {t : Tuple} {row : Row}

/-! ### Tuples that survive copying -/

/-- A tuple as `putVersion` writes it, of a row whose column count does not wrap. -/
def Canonical (q : Str) (t : Tuple) : Prop :=
  ∃ row, rowToTuple row (headerFromRow q t.hdr.rowId.toInt64 row) = .ok t ∧
    (business row).size < 65536

/-- What is read from a tuple that was just written. -/
theorem toRow_rowToTuple {row row' : Row} {hdr : TupleHeader} (h : rowToTuple row hdr = .ok t)
    (hsize : (business row).size < 65536) (hrow : toRow t = .ok row') :
    row' = withSystemColumns (business row) hdr ∧ business row ≠ ∅ := by
  obtain ⟨bs, hbs, h⟩ := ExceptList.bind_ok_iff.1 h
  cases h
  obtain ⟨cols, hcols, rfl⟩ := toRow_eq_ok.1 hrow
  have hb : business row ≠ ∅ := fun he => by
    rw [decode_encode_empty hbs he] at hcols
    cases hcols
  have hpos : 0 < (business row).size := by
    rw [← Std.ExtTreeMap.length_toList, List.length_pos_iff]
    exact fun he => hb (Std.ExtTreeMap.toList_eq_nil_iff.1 he)
  rw [decode_encode_of_size hbs hpos hsize] at hcols
  cases hcols
  exact ⟨rfl, hb⟩

theorem encode_congr {row row' : Row} (h : business row = business row') :
    encode row = encode row' := by
  rw [encode, encode, h]

/-- Copying the row of a canonical tuple gives the tuple again. -/
theorem Canonical.copy (h : Canonical q t) (hrow : toRow t = .ok row) :
    rowToTuple row (headerFromRow q t.hdr.rowId.toInt64 row) = .ok t := by
  obtain ⟨row₀, h₀, hsize⟩ := h
  obtain ⟨hrow', hb⟩ := toRow_rowToTuple h₀ hsize hrow
  have hbus : business row = business row₀ := by
    rw [hrow', business_withSystemColumns, business_business]
  have hhdr := headerFromRow_of_toRow hrow q t.hdr.rowId.toInt64
  obtain ⟨bs, hbs, ht⟩ := ExceptList.bind_ok_iff.1 h₀
  have ht := Except.ok.inj ht
  rw [rowToTuple, encode_congr hbus, hbs, hhdr]
  refine congrArg Except.ok ?_
  rw [← ht]
  simp only [headerFromRow, UInt64.toUInt64_toInt64]

/-! ### Tables and their indexes -/

/-- The entries of the indexes are those that building them anew would give. -/
def Current (m : MemTable) (idxs : List IndexInfo) : Prop :=
  ∀ rows, materializeAll m = .ok rows → ∀ idx ∈ idxs, reindexed rows idx = idx

theorem mem_indexEntries {column key : Str} {rows : RowSet} {id : Int64}
    (h : id ∈ (indexEntries column rows).getD key []) : ∃ row ∈ rows, rowIdOf row = id := by
  rw [indexEntries] at h
  suffices H : ∀ (rows : RowSet) (entries : StrMap (List Int64)),
      id ∈ (rows.foldl (listRow column) entries).getD key [] →
      id ∈ entries.getD key [] ∨ ∃ row ∈ rows, rowIdOf row = id by
    rcases H rows ∅ h with h | h
    · simp at h
    · exact h
  intro rows
  induction rows with
  | nil => exact fun entries h => .inl h
  | cons row rows ih =>
    intro entries h
    rcases ih _ h with h | ⟨row', hmem, hid⟩
    · rw [listRow] at h
      split at h
      · rw [addEntry, Std.ExtTreeMap.getD_insert] at h
        split at h
        · rename_i hk
          rcases List.mem_append.1 h with h | h
          · rw [Std.LawfulEqOrd.eq_of_compare hk] at h
            exact .inl h
          · exact .inr ⟨row, by simp, (List.mem_singleton.1 h).symm⟩
        · exact .inl h
      · exact .inl h
    · exact .inr ⟨row', by simp [hmem], hid⟩

/-- A new row with a new id extends an index as building it anew would. -/
theorem addToIndex_reindexed {rows : RowSet} {row row' : Row} {id : Int64} {idx : IndexInfo}
    (hidx : reindexed rows idx = idx) (hcol : row[idx.column]? = row'[idx.column]?)
    (hid : rowIdOf row' = id) (hnew : ∀ r ∈ rows, rowIdOf r ≠ id) :
    reindexed (rows ++ [row']) (addToIndex id row idx) = addToIndex id row idx := by
  have hentries : indexEntries idx.column rows = idx.entries := congrArg IndexInfo.entries hidx
  rw [addToIndex, hcol]
  cases hv : row'[idx.column]? with
  | none =>
    rw [reindexed, indexEntries, List.foldl_append, List.foldl_cons, listRow, hv]
    exact hidx
  | some v =>
    have hnot : id ∉ idx.entries.getD (valueToString v) [] := fun hmem => by
      rw [← hentries] at hmem
      obtain ⟨r, hr, he⟩ := mem_indexEntries hmem
      exact hnew r hr he
    simp only [reindexed, indexEntries, List.foldl_append, List.foldl_cons, List.foldl_nil, listRow,
      hv, addEntry, if_neg hnot, hid]
    rw [← hentries]
    rfl

/-- A table as the calls without a transaction keep it. -/
structure TidyTable (q : Str) (m : MemTable) (last : Int64) (idxs : List IndexInfo) : Prop where
  short : q.length < 2 ^ 16
  name : m.name = q
  single : MemTable.SingleVersion m
  canonical : ∀ t ∈ m.scanAll, Canonical q t
  nonneg : 0 ≤ last
  ids : ∀ t ∈ m.scanAll, 0 < t.hdr.rowId.toInt64 ∧ t.hdr.rowId.toInt64 ≤ last
  current : Current m idxs
  indexed : ∀ idx ∈ idxs, idx.column ≠ str "_xmin"

structure Tidy (e : StorageEngine) : Prop where
  domain : ∀ q, q ∈ e.tables ↔ q ∈ e.data
  table : ∀ (q : Str) (m : MemTable), e.data[q]? = some m →
    TidyTable q m (e.rowIds.getD q 0) (e.indexes.getD q [])

/-! ### The mirror -/

/-- The copy holds the same tuples, each row once. -/
structure SameTable (m m' : MemTable) : Prop where
  name : m'.name = m.name
  single : MemTable.SingleVersion m'
  scan : m'.scanAll = m.scanAll

/-- `e'` has replayed what `e` did. -/
structure Mirrors (e e' : StorageEngine) : Prop where
  catalog : e'.catalog = e.catalog
  shapes : ∀ q : Str, (e'.tables[q]?).map TableSchema.shape = (e.tables[q]?).map TableSchema.shape
  data : ∀ q : Str, Option.Rel SameTable e.data[q]? e'.data[q]?
  rowIds : e'.rowIds = e.rowIds
  indexes : e'.indexes = e.indexes
  walSeq : e'.walSeq ≤ e.walSeq

/-- The answers that a client can compare. -/
structure SameAnswers (e e' : StorageEngine) : Prop where
  scan : ∀ table, e'.scan table = e.scan table
  nextRowId : ∀ q : Str, e'.rowIds.getD q 0 = e.rowIds.getD q 0
  indexLookup : ∀ table column value,
    e'.indexLookup table column value = e.indexLookup table column value

namespace Mirrors
variable {e e' : StorageEngine}

theorem table_of (h : Mirrors e e') {m : MemTable} (hm : e.data[q]? = some m) :
    ∃ m', e'.data[q]? = some m' ∧ SameTable m m' := by
  have := h.data q
  rw [hm] at this
  cases hm' : e'.data[q]? with
  | none =>
    rw [hm'] at this
    cases this
  | some m' =>
    rw [hm'] at this
    cases this with
    | some hs => exact ⟨m', rfl, hs⟩

/-- One table replaced on both sides. -/
theorem insertData (h : ∀ q : Str, Option.Rel SameTable e.data[q]? e'.data[q]?) {m m' : MemTable}
    (hs : SameTable m m') (q k : Str) :
    Option.Rel SameTable (e.data.insert q m)[k]? (e'.data.insert q m')[k]? := by
  by_cases hk : q = k
  · subst hk
    simpa using Option.Rel.some hs
  · simpa [Std.ExtTreeMap.getElem?_insert, hk] using h k

theorem getLatest_eq {m m' : MemTable} (hs : SameTable m m') (hm : MemTable.SingleVersion m)
    (id : Int64) : m'.getLatest id = m.getLatest id := by
  refine Option.ext fun t => ?_
  rw [hs.single.getLatest_eq_some, hm.getLatest_eq_some, hs.scan]

theorem sameAnswers (h : Mirrors e e') (ht : Tidy e) : SameAnswers e e' where
  scan table := by
    have hq : e'.resolveTableName table = e.resolveTableName table := by
      rw [resolveTableName, resolveTableName, h.catalog]
    rw [StorageEngine.scan, StorageEngine.scan, tableOf, tableOf, hq]
    cases hm : e.data[e.resolveTableName table]? with
    | none =>
      have := h.data (e.resolveTableName table)
      rw [hm] at this
      cases hm' : e'.data[e.resolveTableName table]? with
      | none => rfl
      | some m' => rw [hm'] at this; cases this
    | some m =>
      obtain ⟨m', hm', hs⟩ := h.table_of hm
      rw [hm']
      change materializeAll m' = materializeAll m
      rw [materializeAll, materializeAll, hs.scan]
  nextRowId q := by rw [h.rowIds]
  indexLookup table column value := by
    have hq : e'.resolveTableName table = e.resolveTableName table := by
      rw [resolveTableName, resolveTableName, h.catalog]
    simp only [StorageEngine.indexLookup, indexRows, hq, h.indexes]
    cases hm : e.data[e.resolveTableName table]? with
    | none =>
      have := h.data (e.resolveTableName table)
      rw [hm] at this
      cases hm' : e'.data[e.resolveTableName table]? with
      | none => rfl
      | some m' => rw [hm'] at this; cases this
    | some m =>
      obtain ⟨m', hm', hs⟩ := h.table_of hm
      have hlatest : m'.getLatest = m.getLatest :=
        funext (getLatest_eq hs (ht.table _ m hm).single)
      simp only [hm']
      split
      · rfl
      · rename_i idx _
        cases idx.entries[valueToString value]? with
        | none => rfl
        | some ids => exact congrArg (fun f => (ids.filterMap f).mapM toRow) hlatest

end Mirrors

/-! ### Storing a row -/

/-- The engine with the row stored: version, indexes and row count. -/
def stored (q : Str) (id : Int64) (row : Row) (t : Tuple) (m : MemTable) (e : StorageEngine) :
    StorageEngine :=
  { e with
    walSeq := e.walSeq + 1
    data := e.data.insert q (m.put id t (e.walSeq + 1).toUInt64)
    indexes := mapIndexes e.indexes q (addToIndex id row)
    tables := countRows e.tables (e.data.insert q (m.put id t (e.walSeq + 1).toUInt64)) q }

section Store
variable {e e' e₃ : StorageEngine} {m : MemTable} {id : Int64}

theorem run_store {β : Type} (ht : rowToTuple row (headerFromRow q id row) = .ok t)
    (hm : e.data[q]? = some m) (h : e.walSeq ≠ Int64.maxValue) (rest : Unit → EngineM β) :
    (do
      putVersion q id row
      Prog.modify (updateIndexes q id row)
      Prog.modify (setRowCount q) >>= rest : EngineM β).run e =
      (rest ()).run (stored q id row t m e) := by
  rw [Prog.bind_ok (run_putVersion ht hm h), Prog.bind_ok (Prog.run_modify _ _),
    Prog.bind_ok (Prog.run_modify _ _), updateIndexes_eq, setRowCount_eq]
  rfl

/-- The engine with one more log record. -/
def logged (op : WalOp) (table : Str) (payload : Bytes) (e : StorageEngine) : StorageEngine :=
  { e with
    walSeq := e.walSeq + 1
    dir := e.dir.push (.append ⟨e.walSeq + 1, e.clock, op.toTag, table, 0, payload⟩)
    wal := ⟨e.walSeq + 1⟩ }

/-- A row that both the log and the row format hold. -/
structure InsertFits (id : Int64) (row : Row) : Prop where
  lengths : RowFits row
  columns : (business row).size < 65536
  payload : (walEncodeInsert ⟨id, row⟩).length < 2 ^ 32

theorem InsertFits.exists_tuple (h : InsertFits id row) (hdr : TupleHeader) :
    ∃ t, rowToTuple row hdr = .ok t := by
  have hmem : ∀ p ∈ (business row).toList, ColumnFits p := by
    intro p hp
    rw [Std.ExtTreeMap.mem_toList_iff_getElem?_eq_some, getElem?_business] at hp
    split at hp
    · cases hp
    · obtain ⟨hname, hv⟩ := h.lengths.2 p (Std.ExtTreeMap.mem_toList_iff_getElem?_eq_some.2 hp)
      exact ⟨Nat.le_of_lt_succ hname, hv⟩
  rw [rowToTuple, encode_ok_iff.2 ⟨hmem, rfl⟩]
  exact ⟨_, rfl⟩

theorem rowId_of_rowToTuple (ht : rowToTuple row (headerFromRow q id row) = .ok t) :
    t.hdr.rowId.toInt64 = id := by
  obtain ⟨bs, -, h⟩ := ExceptList.bind_ok_iff.1 ht
  cases h
  exact Int64.toInt64_toUInt64 id

/-- Both sides store the same row. -/
theorem Mirrors.stored (h : Mirrors e e') {m' : MemTable} (hs : SameTable m m')
    (hsingle : MemTable.SingleVersion m) (hfresh : MemTable.SingleVersion.Fresh m id)
    (ht : rowToTuple row (headerFromRow q id row) = .ok t) (hmax : e.walSeq ≠ Int64.maxValue) :
    Mirrors (stored q id row t m e) (stored q id row t m' e') where
  catalog := h.catalog
  shapes k := by
    simp only [StorageEngine.stored, shape_countRows]
    exact h.shapes k
  data := by
    have hid := rowId_of_rowToTuple ht
    have hfresh' : MemTable.SingleVersion.Fresh m' id := fun t' ht' =>
      hfresh t' (by rwa [← hs.scan])
    refine Mirrors.insertData h.data ⟨?_, hs.single.put _ hfresh' hid, ?_⟩ q
    · exact hs.name
    · refine (hs.single.put _ hfresh' hid).scanAll_ext (hsingle.put _ hfresh hid) hs.name
        fun t' => ?_
      rw [hs.single.mem_put hfresh', hsingle.mem_put hfresh, hs.scan]
  rowIds := h.rowIds
  indexes := by
    simp only [StorageEngine.stored, h.indexes]
  walSeq := FixedWidth.succ_le_succ h.walSeq hmax

end Store

end StorageEngine
end JiaMiaoDB
