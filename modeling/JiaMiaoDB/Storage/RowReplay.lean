import JiaMiaoDB.Storage.Mirror
import JiaMiaoDB.Storage.WalSequence
import Mathlib.Data.List.Nodup

/-!
# Replaying the calls without a transaction

The log records of each call, replayed on a mirror, give a mirror again. An update is the exception:
it is replayed beside the version that it replaced, so the runs below are those in which no update
matches a row.
-/

set_option autoImplicit false

namespace JiaMiaoDB
open ByteFormat BinaryRowCodec

namespace StorageEngine
variable {q : Str} {t : Tuple} {row : Row} {e e' e₃ : StorageEngine} {m : MemTable} {id : Int64}

/-! ### Insert -/

/-- The row of an insert with its system columns. -/
def stampInserted (id : Int64) (row : Row) : Row :=
  ((row.insert (str "_rowid") (.int id)).insert (str "_xmax") (.int 0)).insert (str "_cid") (.int 0)

/-- An index sees the same value in the row given to it and in the row that is read back. -/
theorem column_stampInserted {v row' : Row} {column : Str}
    (ht : rowToTuple (stampInserted id v) (headerFromRow q id (stampInserted id v)) = .ok t)
    (hsize : (business (stampInserted id v)).size < 65536) (hrow : toRow t = .ok row')
    (hcol : column ≠ str "_xmin") : (stampInserted id v)[column]? = row'[column]? := by
  obtain ⟨rfl, -⟩ := toRow_rowToTuple ht hsize hrow
  cases hk : isSystemColumn column with
  | false =>
    rw [getElem?_withSystemColumns hk, getElem?_business, hk]
    rfl
  | true =>
    have hxmax : (stampInserted id v)[str "_xmax"]? = some (.int 0) := by
      simp only [stampInserted, Std.ExtTreeMap.getElem?_insert, Std.LawfulEqCmp.compare_eq_iff_eq]
      rw [if_neg (by decide), if_pos trivial]
    have hcid : (stampInserted id v)[str "_cid"]? = some (.int 0) := by
      simp [stampInserted]
    obtain ⟨h₁, -, h₃, h₄⟩ := header_of_toRow hrow
    rcases isSystemColumn_iff.1 hk with rfl | rfl | rfl | rfl
    · rw [h₁, rowId_of_rowToTuple ht]
      simp only [stampInserted, Std.ExtTreeMap.getElem?_insert, Std.LawfulEqCmp.compare_eq_iff_eq]
      rw [if_neg (by decide), if_neg (by decide), if_pos trivial]
    · exact absurd rfl hcol
    · rw [h₃, hxmax]
      obtain ⟨bs, -, h⟩ := ExceptList.bind_ok_iff.1 ht
      cases h
      simp only [headerFromRow, headerField, hxmax]
      rfl
    · rw [h₄, hcid]
      obtain ⟨bs, -, h⟩ := ExceptList.bind_ok_iff.1 ht
      cases h
      simp only [headerFromRow, headerField, hcid]
      rfl

theorem TidyTable.fresh {last : Int64} {idxs : List IndexInfo} (h : TidyTable q m last idxs)
    (hlast : last ≠ Int64.maxValue) : MemTable.SingleVersion.Fresh m (last + 1) := fun t ht he => by
  have hlt := Int64.lt_of_le_of_lt (h.ids t ht).2 (FixedWidth.lt_succ hlast)
  rw [he] at hlt
  exact Int64.lt_irrefl hlt

theorem TidyTable.put {last : Int64} {idxs : List IndexInfo} {v : Row} (h : TidyTable q m last idxs)
    (hlast : last ≠ Int64.maxValue)
    (ht : rowToTuple (stampInserted (last + 1) v) (headerFromRow q (last + 1)
      (stampInserted (last + 1) v)) = .ok t)
    (hsize : (business (stampInserted (last + 1) v)).size < 65536) (seq : UInt64) :
    TidyTable q (m.put (last + 1) t seq) (last + 1)
      (idxs.map (addToIndex (last + 1) (stampInserted (last + 1) v))) := by
  have hid := rowId_of_rowToTuple ht
  have hlt := FixedWidth.lt_succ hlast
  have hids : ∀ t' ∈ m.scanAll, 0 ≤ t'.hdr.rowId.toInt64 ∧ t'.hdr.rowId.toInt64 < last + 1 :=
    fun t' ht' => ⟨Int64.le_of_lt (h.ids t' ht').1, Int64.lt_of_le_of_lt (h.ids t' ht').2 hlt⟩
  have hfresh := h.fresh hlast
  have hscan := h.single.scanAll_put seq hid hids
  rw [normalize_rowToTuple ht] at hscan
  exact {
    short := h.short
    name := h.name
    single := h.single.put seq hfresh hid
    canonical := fun t' ht' => by
      rw [hscan] at ht'
      rcases List.mem_append.1 ht' with ht' | ht'
      · exact h.canonical t' ht'
      · rw [List.mem_singleton.1 ht']
        exact ⟨_, by rw [hid]; exact ht, hsize⟩
    nonneg := Int64.le_of_lt (Int64.lt_of_le_of_lt h.nonneg hlt)
    ids := fun t' ht' => by
      rw [hscan] at ht'
      rcases List.mem_append.1 ht' with ht' | ht'
      · exact ⟨(h.ids t' ht').1, Int64.le_of_lt (hids t' ht').2⟩
      · rw [List.mem_singleton.1 ht', hid]
        exact ⟨Int64.lt_of_le_of_lt h.nonneg hlt, Int64.le_refl _⟩
    current := fun rows hrows idx' hidx' => by
      obtain ⟨idx, hidx, rfl⟩ := List.mem_map.1 hidx'
      rw [materializeAll, hscan] at hrows
      obtain ⟨rows₀, row', hrows₀, hrow', rfl⟩ := ExceptList.mapM_concat_ok hrows
      refine addToIndex_reindexed (h.current rows₀ hrows₀ idx hidx)
        (column_stampInserted ht hsize hrow' (h.indexed idx hidx)) ?_ fun r hr he => ?_
      · rw [rowIdOf_of_toRow hrow', hid]
      · obtain ⟨t', ht', hr'⟩ := (ExceptList.mem_of_mapM_ok hrows₀).1 hr
        refine hfresh t' ht' ?_
        rw [← rowIdOf_of_toRow hr', he]
    indexed := fun idx' hidx' => by
      obtain ⟨idx, hidx, rfl⟩ := List.mem_map.1 hidx'
      have : (addToIndex (last + 1) (stampInserted (last + 1) v) idx).column = idx.column := by
        rw [addToIndex]
        split <;> rfl
      rw [this]
      exact h.indexed idx hidx }

theorem run_replayInsert {r : WALRecordV3} (hop : r.op = WalOp.insert.toTag) (htable : r.table = q)
    (hxid : r.xid = InvalidTransactionId) (hdata : r.data = walEncodeInsert ⟨id, row⟩)
    (hfits : InsertFits id row) (hm : e.data[q]? = some m)
    (ht : rowToTuple row (headerFromRow q id row) = .ok t) (hmax : e.walSeq ≠ Int64.maxValue) :
    (replayRecord r).run e = (.ok (), { stored q id row t m e with
      rowIds := e.rowIds.insert q (max (e.rowIds.getD q 0) id) }) := by
  have hreplayed : e.replayed r.xid = true := by simp [replayed, hxid]
  rw [replayRecord, hop, WalOp.ofTag_toTag]
  simp only [replayRow, htable]
  rw [Prog.bind_ok (Prog.run_get e), if_pos hreplayed, hm]
  simp only [replayInsert, htable, hdata,
    walDecodeInsert_encode (p := ⟨id, row⟩) hfits.lengths]
  rw [run_store ht hm hmax]
  rfl

/-- The records of a step, replayed on a mirror, give a mirror again. -/
def Follows (e e₁ : StorageEngine) : Prop :=
  ∃ records : List WALRecordV3,
    e₁.dir = ⟨e.dir.start, e.dir.journal ++ records.map DiskEvent.append⟩ ∧
    (∀ r ∈ records, r.Fits ∧ e.walSeq < r.seq) ∧ e.walSeq ≤ e₁.walSeq ∧
    ∀ e', Mirrors e e' → ∃ e₁', (Prog.forEach replayRecord records).run e' = (.ok (), e₁') ∧
      Mirrors e₁ e₁'

theorem Follows.refl (e : StorageEngine) : Follows e e :=
  ⟨[], by simp, by simp, Int64.le_refl _, fun e' h => ⟨e', rfl, h⟩⟩

theorem getD_indexes_mapIndexes (indexes : StrMap (List IndexInfo)) (q : Str)
    (f : IndexInfo → IndexInfo) (k : Str) : (mapIndexes indexes q f).getD k [] =
      if q = k then (indexes.getD k []).map f else indexes.getD k [] := by
  simp only [Std.ExtTreeMap.getD_eq_getD_getElem?, getElem?_mapIndexes]
  split
  · cases indexes[k]? <;> rfl
  · rfl

theorem mem_countRows {tables : StrMap TableSchema} {data : StrMap MemTable} {q k : Str} :
    k ∈ countRows tables data q ↔ k ∈ tables := by
  have h := congrArg Option.isSome (shape_countRows tables data q k)
  rw [Option.isSome_map, Option.isSome_map] at h
  rw [Std.ExtTreeMap.mem_iff_isSome_getElem?, h, ← Std.ExtTreeMap.mem_iff_isSome_getElem?]

theorem Tidy.stored (h : Tidy e) (hm : e.data[q]? = some m)
    (htable : TidyTable q (m.put id t (e₃.walSeq + 1).toUInt64) id
      ((e.indexes.getD q []).map (addToIndex id row))) (hdata : e₃.data = e.data)
    (hindexes : e₃.indexes = e.indexes) (htables : e₃.tables = e.tables)
    (hrowIds : e₃.rowIds = e.rowIds.insert q id) : Tidy (stored q id row t m e₃) where
  domain k := by
    simp only [StorageEngine.stored, mem_countRows, hdata, htables, Std.ExtTreeMap.mem_insert,
      Std.LawfulEqCmp.compare_eq_iff_eq, h.domain]
    refine ⟨.inr, fun hk => hk.elim (fun he => ?_) fun hk => hk⟩
    rw [← he, Std.ExtTreeMap.mem_iff_isSome_getElem?, hm]
    rfl
  table k m₁ hm₁ := by
    simp only [StorageEngine.stored, hdata, hindexes, hrowIds, Std.ExtTreeMap.getElem?_insert,
      Std.LawfulEqCmp.compare_eq_iff_eq, getD_indexes_mapIndexes,
      Std.ExtTreeMap.getD_insert] at hm₁ ⊢
    by_cases hk : q = k
    · subst hk
      rw [if_pos rfl] at hm₁ ⊢
      rw [if_pos rfl]
      cases hm₁
      exact htable
    · rw [if_neg hk] at hm₁ ⊢
      rw [if_neg hk]
      exact h.table k m₁ hm₁

/-- What an insert may give: a row whose lengths fit, when there is one. -/
def InsertAllowed (e : StorageEngine) (table : Str) (row : Row) : Prop :=
  ∀ schema v, e.tables[e.resolveTableName table]? = some schema → e.validate schema row = .ok v →
    InsertFits (e.rowIds.getD (e.resolveTableName table) 0 + 1)
      (stampInserted (e.rowIds.getD (e.resolveTableName table) 0 + 1) v)

/-- A call keeps tables tidy and its log records say what it did, unless a counter overflows; a call
that throws does nothing. -/
def Replayable {α : Type} (p : EngineM α) (e : StorageEngine) : Prop :=
  p.wp (fun _ e₁ => Tidy e₁ ∧ Follows e e₁) (fun f e₁ => f = .undefined ∨ e₁ = e) e

theorem replayable_insert {table : Str} {row : Row} (h : Tidy e) (hallowed : InsertAllowed e table row) :
    Replayable (insertBody table row) e := by
  rw [Replayable, insertBody, Prog.wp_bind, Prog.wp_get]
  dsimp only
  set q := e.resolveTableName table with hq
  cases hschema : e.tables[q]? with
  | none => exact .inr rfl
  | some schema =>
    dsimp only
    rw [Prog.wp_bind]
    cases hv : e.validate schema row with
    | error f =>
      rw [Prog.wp_ofExcept_error]
      exact .inr rfl
    | ok v =>
      have hfits := hallowed schema v hschema hv
      obtain ⟨m, hm⟩ : ∃ m, e.data[q]? = some m := by
        rw [← Option.isSome_iff_exists, ← Std.ExtTreeMap.mem_iff_isSome_getElem?, ← h.domain,
          Std.ExtTreeMap.mem_iff_isSome_getElem?, hschema]
        rfl
      set last := e.rowIds.getD q 0 with hlast
      set id := last + 1 with hid
      set row' := stampInserted id v with hrow'
      obtain ⟨t, ht⟩ := hfits.exists_tuple (headerFromRow q id row')
      have htidy := h.table q m hm
      rw [Prog.wp_ofExcept_ok, Prog.wp_bind, nextRowId, Prog.wp_bind, Prog.wp_get]
      dsimp only
      rw [← hlast]
      by_cases hmaxId : last = Int64.maxValue
      · rw [if_pos hmaxId]
        exact .inl rfl
      rw [if_neg hmaxId, Prog.wp_bind, Prog.wp_set, Prog.wp_pure, Prog.wp_bind, dataAt, hm,
        Prog.wp_ofExcept_ok, Prog.wp_bind, storeInserted]
      set e₂ : StorageEngine := { e with rowIds := e.rowIds.insert q (last + 1) } with he₂
      by_cases hmax : e₂.walSeq = Int64.maxValue
      · rw [Prog.wp_bind]
        exact Prog.wp_of_error (run_writeWal_max hmax _ _ _ _) (.inl rfl)
      rw [Prog.wp_bind]
      refine Prog.wp_of_ok (run_writeWal hmax _ _ _ _) ?_
      set e₃ := logged .insert q (walEncodeInsert ⟨id, row'⟩) e₂ with he₃
      by_cases hmax' : e₃.walSeq = Int64.maxValue
      · rw [Prog.wp_bind]
        exact Prog.wp_of_error (run_putVersion_max ht hmax') (.inl rfl)
      refine Prog.wp_of_ok (run_store (e := e₃) ht hm hmax' pure) ?_
      rw [Prog.wp_pure]
      have hle : e.walSeq ≤ e.walSeq + 1 := Int64.le_of_lt (FixedWidth.lt_succ hmax)
      refine ⟨h.stored hm (htidy.put hmaxId ht hfits.columns _) rfl rfl rfl rfl, ?_⟩
      set r : WALRecordV3 :=
        ⟨e.walSeq + 1, e.clock, WalOp.insert.toTag, q, 0, walEncodeInsert ⟨id, row'⟩⟩ with hr
      refine ⟨[r], rfl,
        List.forall_mem_singleton.2 ⟨⟨htidy.short, hfits.payload⟩, FixedWidth.lt_succ hmax⟩,
        Int64.le_trans hle (Int64.le_of_lt (FixedWidth.lt_succ hmax')), fun e' he' => ?_⟩
      obtain ⟨m', hm', hs⟩ := he'.table_of hm
      have hfresh := htidy.fresh hmaxId
      have hrun := run_replayInsert (r := r) rfl rfl rfl rfl hfits hm' ht
        (FixedWidth.ne_max_of_le he'.walSeq hmax)
      refine ⟨_, Prog.run_forEach_cons hrun [], ?_⟩
      have hids : e'.rowIds.insert q (max (e'.rowIds.getD q 0) id) = e.rowIds.insert q id := by
        rw [he'.rowIds, ← hlast,
          FixedWidth.max_eq_right (Int64.le_of_lt (FixedWidth.lt_succ hmaxId))]
      have hmirror : Mirrors e₃ { e' with rowIds := e.rowIds.insert q id } :=
        { he' with
          rowIds := rfl
          walSeq := Int64.le_trans he'.walSeq hle }
      rw [hids]
      exact hmirror.stored hs htidy.single hfresh ht hmax'

/-! ### Create table -/

/-- Columns whose record fits, and no key column under the name of a stamp that can be given. -/
structure TableAllowed (q : Str) (columns : List ColumnDef) : Prop where
  short : q.length < 2 ^ 16
  count : columns.length < 2 ^ 32
  names : ∀ c ∈ columns, c.name.length < 2 ^ 16
  payload : (walEncodeCreateTable columns).length < 2 ^ 32
  keys : ∀ c ∈ columns, c.primaryKey = true → c.name ≠ str "_xmin"

theorem mem_keyIndexes {columns : List ColumnDef} {idx : IndexInfo} (h : idx ∈ keyIndexes columns) :
    idx.entries = ∅ ∧ ∃ c ∈ columns, c.primaryKey = true ∧ idx.column = c.name := by
  suffices H : ∀ (rest : List ColumnDef) (idxs : List IndexInfo), idx ∈ rest.foldl addKeyIndex idxs →
      idx ∈ idxs ∨ idx.entries = ∅ ∧ ∃ c ∈ rest, c.primaryKey = true ∧ idx.column = c.name by
    exact (H columns [] h).resolve_left List.not_mem_nil
  intro rest
  induction rest with
  | nil => exact fun idxs h => .inl h
  | cons c rest ih =>
    intro idxs h
    rcases ih _ h with h | ⟨he, c', hc', hp⟩
    · rw [addKeyIndex] at h
      split at h
      · split at h
        · exact .inl h
        · rcases List.mem_append.1 h with h | h
          · exact .inl h
          · rw [List.mem_singleton.1 h]
            exact .inr ⟨rfl, c, by simp, by assumption, rfl⟩
      · exact .inl h
    · exact .inr ⟨he, c', by simp [hc'], hp⟩

theorem tidyTable_create {columns : List ColumnDef} (h : TableAllowed q columns) :
    TidyTable q (MemTable.create q) 0 (keyIndexes columns) where
  short := h.short
  name := rfl
  single := MemTable.SingleVersion.create q
  canonical := by simp
  nonneg := Int64.le_refl 0
  ids := by simp
  current rows hrows idx hidx := by
    rw [materializeAll, MemTable.scanAll_create] at hrows
    cases hrows
    exact congrArg (IndexInfo.mk idx.column) (mem_keyIndexes hidx).1.symm
  indexed idx hidx := by
    obtain ⟨-, c, hc, hp, he⟩ := mem_keyIndexes hidx
    rw [he]
    exact h.keys c hc hp

/-- The engine with a new table. -/
def created (q : Str) (columns : List ColumnDef) (e : StorageEngine) : StorageEngine :=
  { resetTable q columns e with indexes := e.indexes.insert q (keyIndexes columns) }

theorem run_replayCreateTable {r : WALRecordV3} {columns : List ColumnDef}
    (hop : r.op = WalOp.createTable.toTag) (hdata : r.data = walEncodeCreateTable columns)
    (hcount : columns.length < 2 ^ 32) (hnames : ∀ c ∈ columns, c.name.length < 2 ^ 16)
    (hdot : (46 : UInt8) ∈ r.table) : (replayRecord r).run e =
      (.ok (), created r.table (columns.map ColumnDef.withoutDefault) e) := by
  rw [replayRecord, hop, WalOp.ofTag_toTag]
  simp only [hdata, walDecodeCreateTable_encode hcount hnames]
  rw [Prog.bind_ok (Prog.run_modify _ _), run_createKeyIndexes hdot]
  rfl

theorem Mirrors.created (h : Mirrors e e') (q : Str) (columns : List ColumnDef) :
    Mirrors (created q columns e) (created q (columns.map ColumnDef.withoutDefault) e') where
  catalog := h.catalog
  shapes k := by
    simp only [StorageEngine.created, resetTable, Std.ExtTreeMap.getElem?_insert]
    split
    · simp [TableSchema.shape, ColumnDef.withoutDefault]
    · exact h.shapes k
  data := Mirrors.insertData h.data ⟨rfl, MemTable.SingleVersion.create q, rfl⟩ q
  rowIds := by
    simp only [StorageEngine.created, resetTable, h.rowIds]
  indexes := by
    simp only [StorageEngine.created, h.indexes, keyIndexes_withoutDefault]
  walSeq := h.walSeq

theorem Tidy.created {columns : List ColumnDef} (h : Tidy e) (hallowed : TableAllowed q columns) :
    Tidy (created q columns e) where
  domain k := by
    simp only [StorageEngine.created, resetTable, Std.ExtTreeMap.mem_insert, h.domain]
  table k m hm := by
    simp only [StorageEngine.created, resetTable, Std.ExtTreeMap.getElem?_insert,
      Std.LawfulEqCmp.compare_eq_iff_eq, Std.ExtTreeMap.getD_insert] at hm ⊢
    by_cases hk : q = k
    · subst hk
      rw [if_pos rfl] at hm ⊢
      rw [if_pos rfl]
      cases hm
      exact tidyTable_create hallowed
    · rw [if_neg hk] at hm ⊢
      rw [if_neg hk]
      exact h.table k m hm

/-- A log record more does not matter to a table or a mirror. -/
theorem Tidy.logged (h : Tidy e) (op : WalOp) (table : Str) (payload : Bytes) :
    Tidy (logged op table payload e) := ⟨h.domain, h.table⟩

theorem Mirrors.logged (h : Mirrors e e') (op : WalOp) (table : Str) (payload : Bytes)
    (hmax : e.walSeq ≠ Int64.maxValue) : Mirrors (logged op table payload e) e' :=
  { h with walSeq := Int64.le_trans h.walSeq (Int64.le_of_lt (FixedWidth.lt_succ hmax)) }

theorem replayable_createTable {name : Str} {columns : List ColumnDef} (h : Tidy e)
    (hallowed : TableAllowed (e.resolveTableName name) columns) :
    Replayable (createTableBody name columns) e := by
  rw [Replayable, createTableBody, Prog.wp_bind, Prog.wp_get]
  dsimp only
  have hdot := dot_mem_resolveTableName e name
  set q := e.resolveTableName name with hq
  by_cases hexists : e.tables.contains q = true
  · rw [if_pos hexists]
    exact .inr rfl
  rw [if_neg hexists, Prog.wp_bind]
  by_cases hmax : e.walSeq = Int64.maxValue
  · exact Prog.wp_of_error (run_writeWal_max hmax _ _ _ _) (.inl rfl)
  refine Prog.wp_of_ok (run_writeWal hmax _ _ _ _) ?_
  set e₂ := logged .createTable q (walEncodeCreateTable columns) e with he₂
  rw [Prog.wp_bind, Prog.wp_modify]
  refine Prog.wp_of_ok (run_createKeyIndexes hdot columns e₂) ?_
  refine ⟨(h.logged _ _ _).created hallowed, ?_⟩
  set r : WALRecordV3 :=
    ⟨e.walSeq + 1, e.clock, WalOp.createTable.toTag, q, 0, walEncodeCreateTable columns⟩ with hr
  refine ⟨[r], rfl, List.forall_mem_singleton.2 ⟨⟨hallowed.short, hallowed.payload⟩,
    FixedWidth.lt_succ hmax⟩, Int64.le_of_lt (FixedWidth.lt_succ hmax), fun e' he' => ?_⟩
  have hrun := run_replayCreateTable (r := r) (e := e') rfl rfl hallowed.count hallowed.names hdot
  exact ⟨_, Prog.run_forEach_cons hrun [], (he'.logged _ _ _ hmax).created q columns⟩

/-! ### Update -/

/-- No row of the table matches. -/
def MatchesNothing (e : StorageEngine) (table : Str) (matches_ : Row → Bool) : Prop :=
  ∀ m rows, e.tableOf table = .ok m → materializeAll m = .ok rows →
    ∀ row ∈ rows, matches_ row = false

theorem replayable_update {table : Str} {matches_ : Row → Bool} {updates : Updates} (h : Tidy e)
    (hnone : MatchesNothing e table matches_) :
    Replayable (updateBody table matches_ updates) e := by
  rw [Replayable, updateBody, Prog.wp_bind, Prog.wp_get]
  dsimp only
  rw [Prog.wp_bind]
  cases hm : e.tableOf table with
  | error f => exact .inr rfl
  | ok m =>
    rw [Prog.wp_ofExcept_ok, Prog.wp_bind]
    cases hrows : materializeAll m with
    | error f => exact .inr rfl
    | ok rows =>
      have htargets : rows.filter matches_ = [] :=
        List.filter_eq_nil_iff.2 fun row hrow => by simp [hnone m rows hm hrows row hrow]
      have hdata : e.data[e.resolveTableName table]? = some m := by
        rw [tableOf] at hm
        split at hm
        · cases hm
          assumption
        · cases hm
      have hself : mapIndexes e.indexes (e.resolveTableName table) (reindexed rows) = e.indexes := by
        refine Std.ExtTreeMap.ext_getElem? fun k => ?_
        rw [getElem?_mapIndexes]
        split
        · rename_i hk
          subst hk
          have hcur := (h.table _ m hdata).current rows hrows
          rw [Std.ExtTreeMap.getD_eq_getD_getElem?] at hcur
          cases hi : e.indexes[e.resolveTableName table]? with
          | none => rfl
          | some idxs =>
            rw [hi] at hcur
            exact congrArg some ((List.map_congr_left hcur).trans (List.map_id idxs))
        · rfl
      rw [Prog.wp_ofExcept_ok, htargets, Prog.wp_bind, Prog.forEach, Prog.wp_pure, Prog.wp_bind]
      suffices hrun : (rebuildIf (e.updatesAffectIndex (e.resolveTableName table) updates)
          (e.resolveTableName table)).run e = (.ok (), e) from
        Prog.wp_of_ok hrun ⟨h, Follows.refl e⟩
      rw [rebuildIf]
      split
      · rw [run_rebuildIndexes hdata hrows, hself]
      · rfl

/-! ### Remove -/

/-- The log record of one removed row. -/
structure Removal (q : Str) (row : Row) (r : WALRecordV3) : Prop where
  op : r.op = WalOp.delete.toTag
  table : r.table = q
  xid : r.xid = InvalidTransactionId
  data : r.data = walEncodeDelete ⟨rowIdOf row, none⟩

/-- The engine after the records were appended. -/
def appended (records : List WALRecordV3) (w : WriteAheadLogV3) (n : Int64) (e : StorageEngine) :
    StorageEngine :=
  { e with
    dir := ⟨e.dir.start, e.dir.journal ++ records.map DiskEvent.append⟩
    wal := w
    walSeq := n }

theorem wp_logRemoved {targets : RowSet} (hshort : q.length < 2 ^ 16)
    (hids : ∀ row ∈ targets, getRowId row = .ok (rowIdOf row)) :
    (Prog.forEach (logRemoved q) targets).wp
      (fun _ e₂ => ∃ records w n, e₂ = appended records w n e ∧ e.walSeq ≤ n ∧
        List.Forall₂ (Removal q) targets records ∧ ∀ r ∈ records, r.Fits ∧ e.walSeq < r.seq)
      (fun f _ => f = .undefined) e := by
  refine Prog.wp_forEach (fun done e₂ => ∃ records w n, e₂ = appended records w n e ∧
    e.walSeq ≤ n ∧ List.Forall₂ (Removal q) done records ∧
      ∀ r ∈ records, r.Fits ∧ e.walSeq < r.seq)
    (fun done row rest htargets e₂ hI => ?_)
    ⟨[], e.wal, e.walSeq, by simp [appended], Int64.le_refl _, .nil, by simp⟩
  obtain ⟨records, w, n, rfl, hn, hremoval, hseq⟩ := hI
  rw [logRemoved, hids row (by simp [htargets]), Prog.wp_bind, Prog.wp_ofExcept_ok]
  by_cases hmax : n = Int64.maxValue
  · exact Prog.wp_of_error (run_writeWal_max (e := appended records w n e) hmax _ _ _ _) rfl
  refine Prog.wp_of_ok (run_writeWal (e := appended records w n e) hmax _ _ _ _) ?_
  have hlt := FixedWidth.lt_succ hmax
  refine ⟨records ++ [⟨n + 1, e.clock, WalOp.delete.toTag, q, 0,
    walEncodeDelete ⟨rowIdOf row, none⟩⟩], ⟨n + 1⟩, n + 1, ?_, Int64.le_trans hn (Int64.le_of_lt hlt),
    List.rel_append hremoval (.cons ⟨rfl, rfl, rfl, rfl⟩ .nil), ?_⟩
  · simp [appended, Dir.push, InvalidTransactionId]
  · intro r hr
    rcases List.mem_append.1 hr with hr | hr
    · exact hseq r hr
    · rw [List.mem_singleton.1 hr]
      refine ⟨⟨hshort, ?_⟩, Int64.lt_of_le_of_lt hn hlt⟩
      simp [walEncodeDelete, putI64, putBool]

/-- The tuple that copying the row gives. -/
def Copied (q : Str) (row : Row) (t : Tuple) : Prop :=
  rowToTuple row (headerFromRow q (rowIdOf row) row) = .ok t

/-- The rows go into the new table one by one. -/
theorem wp_copyRows {rows : RowSet} (hids : ∀ row ∈ rows, getRowId row = .ok (rowIdOf row))
    (hcopy : ∀ row ∈ rows, ∃ t, Copied q row t) (hnodup : (rows.map rowIdOf).Nodup) {m : MemTable}
    (hm : MemTable.SingleVersion m)
    (hfresh : ∀ row ∈ rows, MemTable.SingleVersion.Fresh m (rowIdOf row)) (e : StorageEngine) :
    (rows.foldlM (copyRow q) m).wp
      (fun m₂ e₂ => m₂.name = m.name ∧ MemTable.SingleVersion m₂ ∧
        (∀ t, t ∈ m₂.scanAll ↔ t ∈ m.scanAll ∨ ∃ row ∈ rows, Copied q row t) ∧
        ∃ n, e₂ = { e with walSeq := n } ∧ e.walSeq ≤ n)
      (fun f _ => f = .undefined) e := by
  induction rows generalizing m e with
  | nil => exact ⟨rfl, hm, by simp, e.walSeq, rfl, Int64.le_refl _⟩
  | cons row rows ih =>
    obtain ⟨t, ht⟩ := hcopy row (by simp)
    obtain ⟨hnot, hnodup⟩ := List.nodup_cons.1 hnodup
    rw [List.foldlM_cons, Prog.wp_bind, copyRow, hids row (by simp), Prog.wp_bind,
      Prog.wp_ofExcept_ok, ht, Prog.wp_bind, Prog.wp_ofExcept_ok, Prog.wp_bind]
    by_cases hmax : e.walSeq = Int64.maxValue
    · exact Prog.wp_of_error (run_nextSeq_max hmax) rfl
    refine Prog.wp_of_ok (run_nextSeq hmax) ?_
    rw [Prog.wp_pure]
    have hid := rowId_of_rowToTuple ht
    have hfree := hfresh row (by simp)
    refine Prog.wp_mono (ih (fun r hr => hids r (by simp [hr])) (fun r hr => hcopy r (by simp [hr]))
      hnodup (hm.put _ hfree hid) (fun r hr t' ht' => ?_) { e with walSeq := e.walSeq + 1 }) ?_
      (fun _ _ hf => hf)
    · rw [hm.mem_put hfree, normalize_rowToTuple ht] at ht'
      rcases ht' with rfl | ht'
      · rw [hid]
        exact fun he => hnot (by rw [he]; exact List.mem_map_of_mem hr)
      · exact hfresh r (by simp [hr]) t' ht'
    · rintro m₂ e₂ ⟨hname, hsingle, hmem, n, rfl, hn⟩
      refine ⟨hname, hsingle, fun t' => ?_, n, rfl,
        Int64.le_trans (Int64.le_of_lt (FixedWidth.lt_succ hmax)) hn⟩
      rw [hmem, hm.mem_put hfree, normalize_rowToTuple ht]
      constructor
      · rintro ((rfl | h) | ⟨r, hr, h⟩)
        · exact .inr ⟨row, by simp, ht⟩
        · exact .inl h
        · exact .inr ⟨r, by simp [hr], h⟩
      · rintro (h | ⟨r, hr, h⟩)
        · exact .inl (.inr h)
        · rcases List.mem_cons.1 hr with rfl | hr
          · exact .inl (.inl (Except.ok.inj (h.symm.trans ht)))
          · exact .inr ⟨r, hr, h⟩

/-- A part of a readable table is readable. -/
theorem exists_materializeAll {m m' : MemTable} {rows : RowSet} (h : materializeAll m = .ok rows)
    (hsub : ∀ t ∈ m'.scanAll, t ∈ m.scanAll) : ∃ rows', materializeAll m' = .ok rows' :=
  ExceptList.exists_mapM_ok fun t ht =>
    (ExceptList.ok_of_mapM_ok h (hsub t ht)).imp fun _ hrow => hrow.2

theorem run_replayRemove {r : WALRecordV3} (hr : Removal q row r) (hm : e.data[q]? = some m)
    {rows : RowSet} (hrows : materializeAll (m.eraseAllFor (rowIdOf row)) = .ok rows) :
    (replayRecord r).run e = (.ok (), { e with
      data := e.data.insert q (m.eraseAllFor (rowIdOf row))
      indexes := mapIndexes e.indexes q (reindexed rows)
      tables := countRows e.tables (e.data.insert q (m.eraseAllFor (rowIdOf row))) q }) := by
  have hreplayed : e.replayed r.xid = true := by simp [replayed, hr.xid]
  rw [replayRecord, hr.op, WalOp.ofTag_toTag]
  simp only [replayRow, hr.table]
  rw [Prog.bind_ok (Prog.run_get e), if_pos hreplayed, hm]
  simp only [replayDelete, hr.data, hr.table, walDecodeDelete_encode]
  rw [Prog.bind_ok (run_eraseVersions hm _)]
  set e₁ : StorageEngine := { e with data := e.data.insert q (m.eraseAllFor (rowIdOf row)) } with he₁
  have hm₁ : e₁.data[q]? = some (m.eraseAllFor (rowIdOf row)) := by simp [he₁]
  rw [Prog.bind_ok (run_rebuildIndexes hm₁ hrows), Prog.run_modify, setRowCount_eq]

/-- A replayed removal erases the rows one by one and ends with indexes of what is left. -/
theorem replay_removals {targets : RowSet} {records : List WALRecordV3}
    (h : List.Forall₂ (Removal q) targets records) (hm : e.data[q]? = some m)
    (hsingle : MemTable.SingleVersion m) {rows : RowSet} (hrows : materializeAll m = .ok rows)
    (hne : targets ≠ []) :
    ∃ m₁ rows₁ tables, (Prog.forEach replayRecord records).run e = (.ok (), { e with
        data := e.data.insert q m₁
        indexes := mapIndexes e.indexes q (reindexed rows₁)
        tables := tables }) ∧
      m₁.name = m.name ∧ MemTable.SingleVersion m₁ ∧
      (∀ t, t ∈ m₁.scanAll ↔ t ∈ m.scanAll ∧ t.hdr.rowId.toInt64 ∉ targets.map rowIdOf) ∧
      materializeAll m₁ = .ok rows₁ ∧
      ∀ k : Str, (tables[k]?).map TableSchema.shape = (e.tables[k]?).map TableSchema.shape := by
  induction h generalizing e m rows with
  | nil => exact absurd rfl hne
  | @cons row r targets records hr hrest ih =>
    have hmem (t : Tuple) : t ∈ (m.eraseAllFor (rowIdOf row)).scanAll ↔
        t ∈ m.scanAll ∧ t.hdr.rowId.toInt64 ≠ rowIdOf row := hsingle.mem_eraseAllFor
    obtain ⟨rows', hrows'⟩ := @exists_materializeAll m (m.eraseAllFor (rowIdOf row)) _ hrows
      fun t ht => ((hmem t).1 ht).1
    have hrun := run_replayRemove hr hm hrows'
    set e₁ : StorageEngine := { e with
      data := e.data.insert q (m.eraseAllFor (rowIdOf row))
      indexes := mapIndexes e.indexes q (reindexed rows')
      tables := countRows e.tables (e.data.insert q (m.eraseAllFor (rowIdOf row))) q } with he₁
    by_cases hnil : targets = []
    · subst hnil
      cases hrest
      exact ⟨_, rows', _, Prog.run_forEach_cons hrun [], rfl, hsingle.eraseAllFor _,
        fun t => by rw [hmem]; simp, hrows', fun k => shape_countRows _ _ q k⟩
    · obtain ⟨m₁, rows₁, tables, hrun₁, hname, hsingle₁, hmem₁, hrows₁, hshape⟩ :=
        ih (e := e₁) (by simp [he₁]) (hsingle.eraseAllFor _) hrows' hnil
      refine ⟨m₁, rows₁, tables, ?_, hname, hsingle₁, fun t => ?_, hrows₁,
        fun k => by rw [hshape, he₁, shape_countRows]⟩
      · rw [Prog.run_forEach_cons hrun, hrun₁, he₁]
        simp only [OrderedMap.insert_insert, mapIndexes_mapIndexes, reindexed_reindexed]
      · rw [hmem₁, hmem, List.map_cons, List.mem_cons, not_or, and_assoc]

/-- The engine with a table put in place of another one. -/
def replaced (q : Str) (m : MemTable) (rows : RowSet) (e : StorageEngine) : StorageEngine :=
  { e with
    data := e.data.insert q m
    indexes := mapIndexes e.indexes q (reindexed rows)
    tables := countRows e.tables (e.data.insert q m) q }

theorem run_replaceTable {rows : RowSet} {m₂ : MemTable} (hrows : materializeAll m₂ = .ok rows) :
    (do
      Prog.modify (·.setTable q m₂)
      rebuildIndexes q : EngineM Unit).run e = (.ok (), { e with
        data := e.data.insert q m₂
        indexes := mapIndexes e.indexes q (reindexed rows) }) := by
  rw [Prog.bind_ok (Prog.run_modify _ _)]
  exact run_rebuildIndexes (e := e.setTable q m₂) (by simp [setTable]) hrows

theorem TidyTable.replaced {last : Int64} {idxs : List IndexInfo} {m₂ : MemTable} {rows : RowSet}
    (h : TidyTable q m last idxs) (hname : m₂.name = q) (hsingle : MemTable.SingleVersion m₂)
    (hsub : ∀ t ∈ m₂.scanAll, t ∈ m.scanAll) (hrows : materializeAll m₂ = .ok rows) :
    TidyTable q m₂ last (idxs.map (reindexed rows)) where
  short := h.short
  name := hname
  single := hsingle
  canonical t ht := h.canonical t (hsub t ht)
  nonneg := h.nonneg
  ids t ht := h.ids t (hsub t ht)
  current rows' hrows' idx hidx := by
    obtain ⟨idx₀, -, rfl⟩ := List.mem_map.1 hidx
    rw [Except.ok.inj (hrows'.symm.trans hrows)]
    rfl
  indexed idx hidx := by
    obtain ⟨idx₀, h₀, rfl⟩ := List.mem_map.1 hidx
    exact h.indexed idx₀ h₀

theorem Tidy.replaced (h : Tidy e) (hm : e.data[q]? = some m) {m₂ : MemTable} {rows : RowSet}
    (htable : TidyTable q m₂ (e.rowIds.getD q 0) ((e.indexes.getD q []).map (reindexed rows))) :
    Tidy (replaced q m₂ rows e) where
  domain k := by
    simp only [StorageEngine.replaced, mem_countRows, Std.ExtTreeMap.mem_insert,
      Std.LawfulEqCmp.compare_eq_iff_eq, h.domain]
    refine ⟨.inr, fun hk => hk.elim (fun he => ?_) fun hk => hk⟩
    rw [← he, Std.ExtTreeMap.mem_iff_isSome_getElem?, hm]
    rfl
  table k m₁ hm₁ := by
    simp only [StorageEngine.replaced, Std.ExtTreeMap.getElem?_insert,
      Std.LawfulEqCmp.compare_eq_iff_eq, getD_indexes_mapIndexes] at hm₁ ⊢
    by_cases hk : q = k
    · subst hk
      rw [if_pos rfl] at hm₁ ⊢
      cases hm₁
      exact htable
    · rw [if_neg hk] at hm₁ ⊢
      exact h.table k m₁ hm₁

theorem Tidy.counted (h : Tidy e) (q : Str) : Tidy (setRowCount q e) := by
  rw [setRowCount_eq]
  exact ⟨fun k => by rw [mem_countRows]; exact h.domain k, h.table⟩

theorem Mirrors.counted (h : Mirrors e e') (q : Str) : Mirrors (setRowCount q e) e' := by
  rw [setRowCount_eq]
  exact { h with shapes := fun k => by rw [shape_countRows]; exact h.shapes k }

section Removal
variable {m : MemTable} {rows : RowSet} {last : Int64} {idxs : List IndexInfo}

theorem getRowId_of_materializeAll (hrows : materializeAll m = .ok rows) {row : Row}
    (hrow : row ∈ rows) : getRowId row = .ok (rowIdOf row) := by
  obtain ⟨t, -, ht⟩ := (ExceptList.mem_of_mapM_ok hrows).1 hrow
  rw [getRowId_of_toRow ht, rowIdOf_of_toRow ht]

/-- A row of a tidy table is stored again as the tuple that it was read from. -/
theorem TidyTable.copied (h : TidyTable q m last idxs) (hrows : materializeAll m = .ok rows) {row : Row}
    (hrow : row ∈ rows) : ∃ t ∈ m.scanAll, toRow t = .ok row ∧ Copied q row t := by
  obtain ⟨t, ht, hr⟩ := (ExceptList.mem_of_mapM_ok hrows).1 hrow
  refine ⟨t, ht, hr, ?_⟩
  rw [Copied, rowIdOf_of_toRow hr]
  exact (h.canonical t ht).copy hr

theorem TidyTable.nodup_rowIds (h : TidyTable q m last idxs) (hrows : materializeAll m = .ok rows) :
    (rows.map rowIdOf).Nodup := by
  rw [ExceptList.map_of_mapM_ok (fun _ _ h => rowIdOf_of_toRow h) hrows]
  refine List.Nodup.map_on (fun t ht t' ht' he => ?_) h.single.nodup_scanAll
  exact h.single.eq_of_rowId ht ht' (toInt64_injective he)

/-- The tuples of the rows that are kept are those of the other row ids. -/
theorem TidyTable.mem_copies (h : TidyTable q m last idxs) (hrows : materializeAll m = .ok rows)
    (ids : List Int64) (t : Tuple) :
    (∃ row ∈ rows.filter fun row => rowIdOf row ∉ ids, Copied q row t) ↔
      t ∈ m.scanAll ∧ t.hdr.rowId.toInt64 ∉ ids := by
  constructor
  · rintro ⟨row, hrow, ht⟩
    obtain ⟨hrow, hnot⟩ := List.mem_filter.1 hrow
    obtain ⟨t', ht', hr, hc⟩ := h.copied hrows hrow
    cases Except.ok.inj (hc.symm.trans ht)
    rw [rowIdOf_of_toRow hr] at hnot
    exact ⟨ht', by simpa using hnot⟩
  · rintro ⟨ht, hnot⟩
    obtain ⟨row, hrow, hr⟩ := ExceptList.ok_of_mapM_ok hrows ht
    obtain ⟨t', ht', hr', hc⟩ := h.copied hrows hrow
    have hid : t'.hdr.rowId.toInt64 = t.hdr.rowId.toInt64 := by
      rw [← rowIdOf_of_toRow hr', rowIdOf_of_toRow hr]
    cases h.single.eq_of_rowId ht' ht (toInt64_injective hid)
    refine ⟨row, List.mem_filter.2 ⟨hrow, ?_⟩, hc⟩
    rw [rowIdOf_of_toRow hr]
    simpa using hnot

end Removal

theorem replayable_remove {table : Str} {matches_ : Row → Bool} (h : Tidy e) :
    Replayable (removeBody table matches_) e := by
  rw [Replayable, removeBody, Prog.wp_bind, Prog.wp_get]
  dsimp only
  rw [Prog.wp_bind, tableOf]
  set q := e.resolveTableName table with hq
  cases hm : e.data[q]? with
  | none => exact .inr rfl
  | some m =>
    rw [Prog.wp_ofExcept_ok, Prog.wp_bind]
    cases hrows : materializeAll m with
    | error f => exact .inr rfl
    | ok rows =>
      rw [Prog.wp_ofExcept_ok, Prog.wp_bind]
      have htidy := h.table q m hm
      have hids : ∀ row ∈ rows, getRowId row = .ok (rowIdOf row) := fun row hrow =>
        getRowId_of_materializeAll hrows hrow
      set targets := rows.filter matches_ with htargets
      refine Prog.wp_mono (wp_logRemoved htidy.short fun row hrow =>
        hids row (List.mem_filter.1 hrow).1) (fun _ e₂ hlog => ?_) (fun _ _ hf => .inl hf)
      obtain ⟨records, w, n, rfl, hn, hremoval, hrecords⟩ := hlog
      set e₂ := appended records w n e with he₂
      have htidy₂ : Tidy e₂ := ⟨h.domain, h.table⟩
      have hmirrors₂ : ∀ e', Mirrors e e' → Mirrors e₂ e' := fun e' he' =>
        { he' with walSeq := Int64.le_trans he'.walSeq hn }
      rw [Prog.wp_bind, removeRows]
      by_cases hnil : targets = []
      · rw [hnil] at hremoval ⊢
        cases hremoval
        rw [List.isEmpty_nil, if_pos rfl, Prog.wp_pure, Prog.wp_bind, Prog.wp_modify, Prog.wp_pure]
        refine ⟨htidy₂.counted q, [], by rw [setRowCount_eq]; rfl, by simp,
          by rw [setRowCount_eq]; exact hn, fun e' he' => ⟨e', rfl, (hmirrors₂ e' he').counted q⟩⟩
      · rw [List.isEmpty_eq_false_iff.2 hnil, if_neg Bool.false_ne_true, replaceTable, Prog.wp_bind]
        set kept := rows.filter fun row => rowIdOf row ∉ targets.map rowIdOf with hkept
        refine Prog.wp_mono (wp_copyRows (fun row hrow => hids row (List.mem_filter.1 hrow).1)
          (fun row hrow => (htidy.copied hrows (List.mem_filter.1 hrow).1).imp fun _ ht => ht.2.2)
          ((htidy.nodup_rowIds hrows).sublist (List.filter_sublist.map _)) (MemTable.SingleVersion.create q)
          (fun _ _ t ht => by simp at ht) e₂) (fun m₂ e₃ hcopy => ?_) (fun _ _ hf => .inl hf)
        obtain ⟨hname, hsingle, hmem, n', rfl, hn'⟩ := hcopy
        have hmem₂ : ∀ t, t ∈ m₂.scanAll ↔
            t ∈ m.scanAll ∧ t.hdr.rowId.toInt64 ∉ targets.map rowIdOf := fun t => by
          rw [hmem, MemTable.scanAll_create, ← htidy.mem_copies hrows]
          simp only [List.not_mem_nil, false_or]
        have hsub : ∀ t ∈ m₂.scanAll, t ∈ m.scanAll := fun t ht => ((hmem₂ t).1 ht).1
        obtain ⟨rows₂, hrows₂⟩ := exists_materializeAll hrows hsub
        refine Prog.wp_of_ok (run_replaceTable hrows₂) ?_
        rw [Prog.wp_bind, Prog.wp_modify, Prog.wp_pure, setRowCount_eq]
        set e₃ : StorageEngine := { e₂ with walSeq := n' } with he₃
        have htidy₃ : Tidy e₃ := ⟨h.domain, h.table⟩
        refine ⟨htidy₃.replaced hm (htidy.replaced hname hsingle hsub hrows₂), records, rfl,
          hrecords, Int64.le_trans hn hn', fun e' he' => ?_⟩
        obtain ⟨m', hm', hs⟩ := he'.table_of hm
        have hrows' : materializeAll m' = .ok rows := by
          rw [materializeAll, hs.scan]
          exact hrows
        obtain ⟨m₁, rows₁, tables, hrun, hname₁, hsingle₁, hmem₁, hrows₁, hshape⟩ :=
          replay_removals hremoval hm' hs.single hrows' hnil
        have hscan : m₁.scanAll = m₂.scanAll := by
          refine hsingle₁.scanAll_ext hsingle ?_ fun t => ?_
          · rw [hname₁, hs.name, hname]
            exact htidy.name
          · rw [hmem₁, hmem₂, hs.scan]
        have hsame : SameTable m₂ m₁ :=
          ⟨by rw [hname₁, hs.name, hname]; exact htidy.name, hsingle₁, hscan⟩
        have hrowsEq : rows₁ = rows₂ := by
          rw [materializeAll, hscan] at hrows₁
          exact Except.ok.inj (hrows₁.symm.trans hrows₂)
        exact ⟨_, hrun, {
          catalog := he'.catalog
          shapes := fun k => by
            rw [hshape, he'.shapes]
            exact (shape_countRows _ _ q k).symm
          data := Mirrors.insertData he'.data hsame q
          rowIds := he'.rowIds
          indexes := by
            rw [hrowsEq]
            exact congrArg (fun ix => mapIndexes ix q (reindexed rows₂)) he'.indexes
          walSeq := Int64.le_trans he'.walSeq (Int64.le_trans hn hn') }⟩

theorem Follows.trans {e₁ e₂ : StorageEngine} (h : Follows e e₁) (h' : Follows e₁ e₂) :
    Follows e e₂ := by
  obtain ⟨rs, hdir, hrs, hle, hreplay⟩ := h
  obtain ⟨rs', hdir', hrs', hle', hreplay'⟩ := h'
  refine ⟨rs ++ rs', by rw [hdir', hdir]; simp, fun r hr => ?_, Int64.le_trans hle hle',
    fun e' he' => ?_⟩
  · rcases List.mem_append.1 hr with hr | hr
    · exact hrs r hr
    · exact ⟨(hrs' r hr).1, Int64.lt_of_le_of_lt hle (hrs' r hr).2⟩
  · obtain ⟨e₁', hrun, hm⟩ := hreplay e' he'
    obtain ⟨e₂', hrun', hm'⟩ := hreplay' e₁' hm
    exact ⟨e₂', (Prog.run_forEach_append hrun).trans hrun', hm'⟩

/-! ### Runs -/

end StorageEngine

open StorageEngine

/-- The calls without a transaction; time passes between them. -/
def Call.plain : Call → Bool
  | createTable _ _ | insert _ _ | update _ _ _ | remove _ _ | setClock _ => true
  | _ => false

/-- Lengths that fit, and no row for an update. -/
def Call.Repeatable (e : StorageEngine) : Call → Prop
  | createTable name columns => TableAllowed (e.resolveTableName name) columns
  | insert table row => InsertAllowed e table row
  | update table matches_ _ => MatchesNothing e table matches_
  | _ => True

/-- The engines that plain calls with `P` reach from an empty directory, without a checkpoint and
without the overflow of a counter. -/
inductive Written (P : StorageEngine → Call → Prop) : StorageEngine → Prop
  | create (checkpointInterval : Int32) (clock : Int64) :
    Written P (create Disk.empty checkpointInterval clock)
  | call {e : StorageEngine} {c : Call} (h : Written P e) (hplain : c.plain = true) (hP : P e c)
    (hdue : (c.body.run e).2.checkpointDue = false)
    (hend : (c.exec.run e).1 ≠ .error .undefined) : Written P (c.exec.run e).2

/-- Without a due checkpoint a call is its body. -/
theorem exec_of_not_due {c : Call} {e : StorageEngine}
    (hdue : (c.body.run e).2.checkpointDue = false) : c.exec.run e = c.body.run e := by
  rw [Call.exec_eq]
  split
  · rw [run_thenCheckpoint]
    rcases hrun : c.body.run e with ⟨f | ⟨⟩, e₁⟩
    · rfl
    · rw [hrun] at hdue
      simp only
      rw [maybeCheckpoint, Prog.bind_ok (Prog.run_get e₁), hdue, if_neg Bool.false_ne_true]
      rfl
  · rfl

theorem replayable_discard {α : Type} {p : EngineM α} {e : StorageEngine} (h : Replayable p e) :
    Replayable (Call.discard p) e := by
  rw [Replayable, Call.discard, Prog.wp_bind]
  exact Prog.wp_mono h (fun _ _ h => h) (fun _ _ h => h)

theorem replayable_body {e : StorageEngine} {c : Call} (h : Tidy e) (hplain : c.plain = true)
    (hc : c.Repeatable e) : Replayable c.body e := by
  cases c with
  | createTable name columns => exact replayable_createTable h hc
  | insert table row => exact replayable_discard (replayable_insert h hc)
  | update table matches_ updates => exact replayable_discard (replayable_update h hc)
  | remove table matches_ => exact replayable_discard (replayable_remove h)
  | setClock clock =>
    refine ⟨⟨h.domain, h.table⟩, [], by simp, by simp, Int64.le_refl _, fun e' he' => ?_⟩
    exact ⟨e', rfl, { he' with }⟩
  | _ => exact Bool.noConfusion hplain

theorem Written.follows {e : StorageEngine} (h : Written (fun e c => c.Repeatable e) e) :
    Tidy e ∧ ∃ checkpointInterval clock,
      Follows (StorageEngine.create Disk.empty checkpointInterval clock) e := by
  induction h with
  | create checkpointInterval clock =>
    exact ⟨⟨by simp [StorageEngine.create], by simp [StorageEngine.create]⟩, checkpointInterval,
      clock, Follows.refl _⟩
  | @call e c _ hplain hP hdue hend ih =>
    obtain ⟨htidy, checkpointInterval, clock, hfollows⟩ := ih
    have hstep := replayable_body htidy hplain hP
    rw [Replayable, Prog.wp] at hstep
    rw [exec_of_not_due hdue] at hend ⊢
    rcases hrun : c.body.run e with ⟨f | ⟨⟩, e₁⟩ <;> rw [hrun] at hstep hend
    case ok =>
      obtain ⟨htidy₁, hfollows₁⟩ := hstep
      exact ⟨htidy₁, checkpointInterval, clock, hfollows.trans hfollows₁⟩
    case error =>
      rcases hstep with rfl | rfl
      · exact absurd rfl hend
      · exact ⟨htidy, checkpointInterval, clock, hfollows⟩

/-- A new engine that loads the log answers as the engine that wrote it. -/
theorem load_written {e : StorageEngine} (h : Written (fun e c => c.Repeatable e) e)
    (checkpointInterval : Int32) (clock : Int64) :
    ∃ e', load.run (create e.dir.disk checkpointInterval clock) = (.ok (), e') ∧
      SameAnswers e e' := by
  obtain ⟨htidy, i, c, records, hdir, hrecords, -, hreplay⟩ := h.follows
  have hdisk : e.dir.disk = { Disk.empty with walLog := encodeLog records } := by
    rw [hdir]
    exact foldl_apply_append records Disk.empty
  have hkept : records.filter (fun r => (0 : Int64) < r.seq) = records :=
    List.filter_eq_self.2 fun r hr => by simpa [create] using (hrecords r hr).2
  have hlog : (WriteAheadLogV3.replay ⟨0⟩ e.dir.disk 0).1 = records := by
    rw [WriteAheadLogV3.replay_encodeLog (fun r hr => (hrecords r hr).1) (.inl rfl)
      (by rw [hdisk, List.append_nil]), hkept]
  set e₀ := ((restore Checkpoint.empty).run (create e.dir.disk checkpointInterval clock)).2 with he₀
  have hload := @run_load e₀ e.dir.disk _ _ Checkpoint.empty (by rw [hdisk]; rfl) rfl
  obtain ⟨e', hrun, hmirror⟩ := hreplay { e₀ with wal := (e₀.wal.replay e.dir.disk 0).2 } {
    catalog := rfl
    shapes := fun q => rfl
    data := fun q => by
      change Option.Rel SameTable (∅ : StrMap MemTable)[q]? (∅ : StrMap MemTable)[q]?
      rw [Std.ExtTreeMap.getElem?_empty]
      exact .none
    rowIds := rfl
    indexes := rfl
    walSeq := Int64.le_refl 0 }
  refine ⟨e', ?_, hmirror.sameAnswers htidy⟩
  rw [hload]
  exact (congrArg (fun rs => (Prog.forEach replayRecord rs).run
    { e₀ with wal := (e₀.wal.replay e.dir.disk 0).2 }) hlog).trans hrun

instance {id : Int64} {row : Row} : Decidable (InsertFits id row) :=
  decidable_of_iff ((row.size < 2 ^ 32 ∧ ∀ p ∈ row.toList, p.1.length < 2 ^ 16 ∧ p.2.Fits) ∧
    (business row).size < 65536 ∧ (walEncodeInsert ⟨id, row⟩).length < 2 ^ 32)
    ⟨fun ⟨h₁, h₂, h₃⟩ => ⟨h₁, h₂, h₃⟩, fun ⟨h₁, h₂, h₃⟩ => ⟨h₁, h₂, h₃⟩⟩

def emptyTable : StorageEngine :=
  ((Call.createTable (str "t") [⟨str "a", .integer, true, false, none⟩]).exec.run
    (create Disk.empty 0 0)).2

theorem written_logged {P : StorageEngine → Call → Prop}
    (htable : P (create Disk.empty 0 0)
      (.createTable (str "t") [⟨str "a", .integer, true, false, none⟩]))
    (hrow : P emptyTable (.insert (str "t") oneRow)) : Written P loggedEngine := by
  have hempty : Written P emptyTable :=
    .call (.create 0 0) rfl htable (by decide +kernel) (by decide +kernel)
  exact .call (c := .insert (str "t") oneRow) hempty rfl hrow (by decide +kernel) (by decide +kernel)

instance (e : StorageEngine) (table : Str) (row : Row) : Decidable (InsertAllowed e table row) :=
  decidable_of_iff _ ExceptList.all_ok_iff

theorem tableAllowed_oneColumn {q : Str} (hq : q.length < 2 ^ 16) :
    TableAllowed q [⟨str "a", .integer, true, false, none⟩] where
  short := hq
  count := by decide
  names := by decide
  payload := by decide
  keys := by decide

def otherRow : Row := (∅ : Row).insert (str "a") (.int 2)

/-- The table has got a second row and lost the first one. -/
def prunedEngine : StorageEngine :=
  ((Call.remove (str "t") fun row => row[str "a"]? = some (.int 1)).exec.run
    ((Call.insert (str "t") otherRow).exec.run loggedEngine).2).2

/-- A row that was inserted comes back, one that was removed does not. -/
theorem load_prunedEngine : ∃ e', load.run (create prunedEngine.dir.disk 0 0) = (.ok (), e') ∧
    SameAnswers prunedEngine e' := by
  have hlogged : Written (fun e c => c.Repeatable e) loggedEngine :=
    written_logged (tableAllowed_oneColumn (by decide +kernel))
      (by decide +kernel : InsertAllowed _ _ _)
  have hinserted := hlogged.call (c := .insert (str "t") otherRow) rfl
    (by decide +kernel : InsertAllowed _ _ _) (by decide +kernel) (by decide +kernel)
  have hpruned : Written (fun e c => c.Repeatable e) prunedEngine :=
    hinserted.call (c := .remove (str "t") fun row => row[str "a"]? = some (.int 1)) rfl trivial
      (by decide +kernel) (by decide +kernel)
  exact load_written hpruned 0 0

/-! ### An update is replayed beside the old version -/

def updatedEngine : StorageEngine :=
  ((Call.update (str "t") (fun _ => true) ((∅ : Updates).insert (str "a") (.int 2))).exec.run
    loggedEngine).2

def updatedRecords : List WALRecordV3 := updatedEngine.dir.journal.filterMap DiskEvent.appended

/-- The engine on the directory of `updatedEngine`, before the replay. -/
def reopened : StorageEngine :=
  { ((restore Checkpoint.empty).run (create updatedEngine.dir.disk 0 0)).2 with
    wal := ⟨updatedRecords.foldl (fun s r => max s r.seq) 0⟩ }

theorem load_updated : load.run (create updatedEngine.dir.disk 0 0) =
    (Prog.forEach replayRecord updatedRecords).run reopened := by
  have hjournal : updatedEngine.dir.journal = updatedRecords.map DiskEvent.append :=
    eq_map_append (by decide +kernel)
  have hstart : updatedEngine.dir.start = Disk.empty := by decide +kernel
  have hdisk : updatedEngine.dir.disk = { Disk.empty with walLog := encodeLog updatedRecords } := by
    rw [Dir.disk, hjournal, hstart]
    exact foldl_apply_append updatedRecords Disk.empty
  have hreplay (w : WriteAheadLogV3) : w.replay updatedEngine.dir.disk 0 =
      (updatedRecords, ⟨updatedRecords.foldl (fun s r => max s r.seq) w.seq⟩) := by
    have hfits : ∀ r ∈ updatedRecords, r.Fits := by decide +kernel
    rw [WriteAheadLogV3.replay_encodeLog hfits (.inl rfl) (by rw [hdisk, List.append_nil])]
    exact congrArg (·, _) (by decide +kernel)
  have hload := @run_load _ updatedEngine.dir.disk _ _ Checkpoint.empty (by rw [hdisk]; rfl)
    (run_restore_empty (create updatedEngine.dir.disk 0 0))
  rw [hload, show Checkpoint.empty.lastSeq = 0 from rfl, hreplay, hreplay]
  rfl

/-- Create a table, insert a row, update it: after a load the table has two rows. -/
theorem update_doubles_row : ∃ e, Written (fun _ _ => True) e ∧
    ¬ ∀ checkpointInterval clock, ∃ e',
      load.run (create e.dir.disk checkpointInterval clock) = (.ok (), e') ∧ SameAnswers e e' := by
  refine ⟨updatedEngine, .call (c := .update (str "t") (fun _ => true)
    ((∅ : Updates).insert (str "a") (.int 2))) (written_logged trivial trivial) rfl trivial
    (by decide +kernel) (by decide +kernel), fun h => ?_⟩
  obtain ⟨e', hrun, hsame⟩ := h 0 0
  rw [load_updated] at hrun
  have hlive : (updatedEngine.scan (str "t")).map List.length = .ok 1 := by decide +kernel
  have hloaded : (((Prog.forEach replayRecord updatedRecords).run reopened).2.scan
    (str "t")).map List.length = .ok 2 := by decide +kernel
  rw [hrun, hsame.scan, hlive] at hloaded
  exact absurd hloaded (by decide)

end JiaMiaoDB
