import JiaMiaoDB.Storage.FuzzyRecovery
import Mathlib.Algebra.Order.BigOperators.Group.List

/-!
# The row of an insert after a checkpoint and a crash

Which of the traces of an insert and a checkpoint leave a directory that loads with the row once.
-/

set_option autoImplicit false

namespace JiaMiaoDB
open ByteFormat BinaryRowCodec Interleaving

theorem SectionFits.perm {α : Type} {P : α → Prop} {k : Str} {l l' : List α}
    (h : SectionFits P (k, l')) (hperm : l.Perm l') : SectionFits P (k, l) :=
  ⟨h.1, by rw [hperm.length_eq]; exact h.2.1, fun a ha => h.2.2 a (hperm.subset ha)⟩

theorem TableSchema.fits_of_shape {s s' : TableSchema} (h : s.shape = s'.shape) (hs : s'.Fits) :
    s.Fits := by
  have hname : s.name = s'.name := congrArg Prod.fst h
  have hcolumns : s.columns.map ColumnDef.withoutDefault = s'.columns.map ColumnDef.withoutDefault :=
    congrArg Prod.snd h
  have hlength : s.columns.length = s'.columns.length := by
    simpa using congrArg List.length hcolumns
  refine ⟨by rw [hname]; exact hs.1, by rw [hlength]; exact hs.2.1, fun col hcol => ?_⟩
  have hmem : col.withoutDefault ∈ s'.columns.map ColumnDef.withoutDefault := by
    rw [← hcolumns]
    exact List.mem_map_of_mem hcol
  obtain ⟨col', hcol', he⟩ := List.mem_map.1 hmem
  have hcolname : col'.withoutDefault.name = col.withoutDefault.name := by rw [he]
  rw [show col.name = col'.name from hcolname.symm]
  exact hs.2.2 col' hcol'

namespace StorageEngine
variable {e : StorageEngine} {ckp : Checkpoint}

theorem exists_toCheckpoint
    (h : ∀ k ∈ e.tables.keys, ∃ rows, e.tableCheckpoint k = .ok (k, rows)) :
    ∃ ckp, e.toCheckpoint = .ok ckp := by
  obtain ⟨rows, hrows⟩ := ExceptList.exists_mapM_ok fun k hk =>
    let ⟨rows, hk⟩ := h k hk
    ⟨(k, rows), hk⟩
  rw [toCheckpoint, hrows]
  exact ⟨_, rfl⟩

theorem Named.rowCountOf_eq (hnamed : e.Named) (h : e.toCheckpoint = .ok ckp) :
    rowCountOf ckp ckp.tables = (e.tables.keys.map fun k => (rowsOf ckp k).length).sum := by
  rw [rowCountOf, (takenFrom_toCheckpoint h).tables, ← hnamed.map_values, List.map_map]
  rfl

theorem size_eq_of_keys {ν ν' : Type} {m : StrMap ν} {m' : StrMap ν'} (h : m.keys = m'.keys) :
    m.size = m'.size := by
  rw [← Std.ExtTreeMap.length_keys, h, Std.ExtTreeMap.length_keys]

end StorageEngine

namespace Threads
open StorageEngine

section Views
variable {e e₁ x : StorageEngine} {q : Str} {m : MemTable} {t : Tuple} {id : Int64} {row row' : Row}
  {rows : RowSet} {p i : Prop} {c c₁ ckp : Checkpoint}

theorem View.named (h : View e q m t id row p i x) (hnamed : e.Named) : x.Named where
  tables k schema hk := by
    have hshape := h.shapes k
    rw [hk] at hshape
    cases he : e.tables[k]? with
    | none =>
      rw [he] at hshape
      cases hshape
    | some schema₀ =>
      rw [he, Option.map_some, Option.map_some, Option.some.injEq] at hshape
      have hname : schema.name = schema₀.name := congrArg Prod.fst hshape
      rw [hname]
      exact hnamed.tables k schema₀ he
  domain k hk := by
    have hmem := hnamed.domain k (h.mem_tables.1 hk)
    by_cases hq : q = k
    · subst hq
      by_cases hp : p
      · obtain ⟨seq, hdata⟩ := h.put hp
        simp [hdata]
      · rw [h.notPut hp]
        exact hmem
    · rw [Std.ExtTreeMap.mem_iff_isSome_getElem?, h.data_of_ne hq,
        ← Std.ExtTreeMap.mem_iff_isSome_getElem?]
      exact hmem

/-- The rows of the table in a checkpoint of the engine. -/
theorem View.rowsOf_perm [Decidable p] (h : View e q m t id row p i x)
    (hin : Incoming e q m t id row row' rows) (hckp : x.toCheckpoint = .ok ckp) (hq : q ∈ e.tables) :
    (rowsOf ckp q).Perm ((if p then row' :: rows else rows).map fun r => (rowIdOf r, r)) := by
  obtain ⟨mx, rowsx, hmx, hrowsx, hperm⟩ := h.reads hin
  have htaken := (takenFrom_toCheckpoint hckp).rows q (h.mem_tables.2 hq)
  rw [StorageEngine.tableCheckpoint, hmx] at htaken
  obtain ⟨rows', hrows', heq⟩ := ExceptList.map_ok_iff.1 htaken
  obtain ⟨rows'', hrows'', rfl⟩ := ExceptList.map_ok_iff.1 hrows'
  rw [hrowsx] at hrows''
  cases hrows''
  rw [← (Prod.mk.inj heq).2]
  exact hperm.map _

theorem rowsOf_congr {x' : StorageEngine} {ckp' : Checkpoint} {k : Str}
    (hckp : x.toCheckpoint = .ok ckp) (hckp' : x'.toCheckpoint = .ok ckp') (hk : k ∈ x.tables)
    (hk' : k ∈ x'.tables) (hdata : x'.data[k]? = x.data[k]?) : rowsOf ckp' k = rowsOf ckp k := by
  have h := (takenFrom_toCheckpoint hckp).rows k hk
  have h' := (takenFrom_toCheckpoint hckp').rows k hk'
  rw [tableCheckpoint_congr hdata, h] at h'
  exact (Prod.mk.inj (Except.ok.inj h')).2.symm

/-- The engine without the insert. -/
theorem View.without (e : StorageEngine) (q : Str) (m : MemTable) (t : Tuple) (id : Int64) (row : Row) :
    View e q m t id row False False e where
  catalog := rfl
  txnMgr := rfl
  rowIds := rfl
  clock := rfl
  put := False.elim
  notPut := fun _ => rfl
  listed := False.elim
  notListed := fun _ => rfl
  shape := rfl
  tables := fun _ _ => rfl

theorem View.fits_tables (h : View e q m t id row p i x) (hc : e.toCheckpoint = .ok c)
    (hckp : x.toCheckpoint = .ok ckp) (hfits : c.tables.length < 2 ^ 32 ∧ ∀ t ∈ c.tables, t.Fits) :
    ckp.tables.length < 2 ^ 32 ∧ ∀ t ∈ ckp.tables, t.Fits := by
  have htaken := takenFrom_toCheckpoint hckp
  have htaken₀ := takenFrom_toCheckpoint hc
  have hlength : ckp.tables.length = c.tables.length := by
    rw [htaken.tables, htaken₀.tables, OrderedMap.values_eq, OrderedMap.values_eq, List.length_map,
      List.length_map, Std.ExtTreeMap.length_toList, Std.ExtTreeMap.length_toList,
      size_eq_of_keys h.keys]
  refine ⟨by rw [hlength]; exact hfits.1, fun schema hschema => ?_⟩
  rw [htaken.tables, OrderedMap.values_eq] at hschema
  obtain ⟨⟨k, schema'⟩, hmem, rfl⟩ := List.mem_map.1 hschema
  have hget := Std.ExtTreeMap.mem_toList_iff_getElem?_eq_some.1 hmem
  have hshape := h.shapes k
  rw [hget] at hshape
  cases he : e.tables[k]? with
  | none =>
    rw [he] at hshape
    cases hshape
  | some schema₀ =>
    rw [he, Option.map_some, Option.map_some, Option.some.injEq] at hshape
    refine TableSchema.fits_of_shape hshape (hfits.2 schema₀ ?_)
    rw [htaken₀.tables, OrderedMap.values_eq]
    exact List.mem_map.2 ⟨(k, schema₀), Std.ExtTreeMap.mem_toList_iff_getElem?_eq_some.2 he, rfl⟩

/-- The rows of a table that is in the checkpoint. -/
theorem sectionFits_rowsOf {k : Str} (hc : e.toCheckpoint = .ok c) (hfits : c.Fits)
    (hk : k ∈ e.tables) : SectionFits (fun r => RowFits r.2) (k, rowsOf c k) := by
  refine hfits.tableRows.2 _ (Std.ExtTreeMap.mem_toList_iff_getElem?_eq_some.2 ?_)
  have hmem := (mem_tableRows hc).2 hk
  rw [rowsOf, Std.ExtTreeMap.getD_eq_getD_getElem?, Std.ExtTreeMap.getElem?_eq_some_getElem hmem]
  rfl

/-- The table has the rows of the engine without the insert, or of the one after it. -/
theorem View.fits_tableRows [Decidable p] (h : View e q m t id row p i x)
    (h₁ : View e q m t id row True True e₁) (hin : Incoming e q m t id row row' rows)
    (hc : e.toCheckpoint = .ok c) (hc₁ : e₁.toCheckpoint = .ok c₁)
    (hckp : x.toCheckpoint = .ok ckp) (hfits : c.Fits) (hfits₁ : c₁.Fits) :
    ckp.tableRows.size < 2 ^ 32 ∧
      ∀ s ∈ ckp.tableRows.toList, SectionFits (fun r => RowFits r.2) s := by
  have hsize : ckp.tableRows.size = c.tableRows.size :=
    size_eq_of_keys (OrderedMap.keys_ext fun k => by
      rw [mem_tableRows hckp, mem_tableRows hc, h.mem_tables])
  refine ⟨by rw [hsize]; exact hfits.tableRows.1, fun entry hentry => ?_⟩
  obtain ⟨k, l⟩ := entry
  obtain ⟨hk, rfl⟩ :=
    getElem?_tableRows hckp (Std.ExtTreeMap.mem_toList_iff_getElem?_eq_some.1 hentry)
  have hk := h.mem_tables.1 hk
  by_cases hqk : q = k
  · subst hqk
    have hperm := h.rowsOf_perm hin hckp hk
    by_cases hp : p
    · refine (sectionFits_rowsOf hc₁ hfits₁ (h₁.mem_tables.2 hk)).perm ?_
      rw [if_pos hp] at hperm
      have hperm₁ := h₁.rowsOf_perm hin hc₁ hk
      rw [if_pos trivial] at hperm₁
      exact hperm.trans hperm₁.symm
    · refine (sectionFits_rowsOf hc hfits hk).perm ?_
      rw [if_neg hp] at hperm
      have hperm₀ := (View.without e q m t id row).rowsOf_perm hin hc hk
      rw [if_neg not_false] at hperm₀
      exact hperm.trans hperm₀.symm
  · rw [rowsOf_congr hc hckp hk (h.mem_tables.2 hk) (h.data_of_ne hqk)]
    exact sectionFits_rowsOf hc hfits hk

theorem View.fits_rowIdCounters (h : View e q m t id row p i x) (hc : e.toCheckpoint = .ok c)
    (hckp : x.toCheckpoint = .ok ckp) (hfits : c.rowIdCounters.size < 2 ^ 32 ∧
      ∀ s ∈ c.rowIdCounters.toList, s.1.length < 2 ^ 16) :
    ckp.rowIdCounters.size < 2 ^ 32 ∧ ∀ s ∈ ckp.rowIdCounters.toList, s.1.length < 2 ^ 16 := by
  have htaken := takenFrom_toCheckpoint hckp
  have htaken₀ := takenFrom_toCheckpoint hc
  have hsize : ckp.rowIdCounters.size = c.rowIdCounters.size := by
    rw [htaken.rowIds, htaken₀.rowIds]
    refine size_eq_of_keys (OrderedMap.keys_ext fun k => ?_)
    rw [Std.ExtTreeMap.mem_map, Std.ExtTreeMap.mem_map, h.mem_tables]
  refine ⟨by rw [hsize]; exact hfits.1, fun entry hentry => ?_⟩
  obtain ⟨k, n⟩ := entry
  have hget := Std.ExtTreeMap.mem_toList_iff_getElem?_eq_some.1 hentry
  rw [htaken.rowIds, Std.ExtTreeMap.getElem?_map] at hget
  have hk : k ∈ e.tables := by
    rw [← h.mem_tables, Std.ExtTreeMap.mem_iff_isSome_getElem?]
    cases hx : x.tables[k]? with
    | none =>
      rw [hx] at hget
      cases hget
    | some _ => rfl
  refine hfits.2 (k, e.rowIds.getD k 0) (Std.ExtTreeMap.mem_toList_iff_getElem?_eq_some.2 ?_)
  rw [htaken₀.rowIds, Std.ExtTreeMap.getElem?_map, Std.ExtTreeMap.getElem?_eq_some_getElem hk]
  rfl

/-- The indexes are those of one end or of the other. -/
theorem View.indexesData [Decidable i] (h : View e q m t id row p i x)
    (h₁ : View e q m t id row True True e₁) (hc : e.toCheckpoint = .ok c)
    (hc₁ : e₁.toCheckpoint = .ok c₁) (hckp : x.toCheckpoint = .ok ckp) :
    ckp.indexesData = if i then c₁.indexesData else c.indexesData := by
  have htaken := takenFrom_toCheckpoint hckp
  have hfilter (indexes : StrMap (List IndexInfo)) {e' : StorageEngine}
      (hmem : ∀ k, k ∈ e'.tables ↔ k ∈ e.tables) :
      indexes.filter (fun name _ => x.tables.contains name) =
        indexes.filter fun name _ => e'.tables.contains name := by
    refine congrArg indexes.filter (funext fun k => funext fun _ => ?_)
    rw [Bool.eq_iff_iff, ← Std.ExtTreeMap.mem_iff_contains, ← Std.ExtTreeMap.mem_iff_contains,
      h.mem_tables, hmem]
  split
  · rename_i hi
    rw [htaken.indexes, (takenFrom_toCheckpoint hc₁).indexes, h.listed hi, h₁.listed trivial,
      hfilter _ fun k => h₁.mem_tables]
  · rename_i hi
    rw [htaken.indexes, (takenFrom_toCheckpoint hc).indexes, h.notListed hi,
      hfilter _ fun _ => Iff.rfl]

/-- Between the engine without the insert and the one after it, every checkpoint fits its file when
those two do. -/
theorem View.fits [Decidable p] [Decidable i] (h : View e q m t id row p i x)
    (h₁ : View e q m t id row True True e₁) (hin : Incoming e q m t id row row' rows)
    (hc : e.toCheckpoint = .ok c) (hc₁ : e₁.toCheckpoint = .ok c₁)
    (hckp : x.toCheckpoint = .ok ckp) (hfits : c.Fits) (hfits₁ : c₁.Fits) : ckp.Fits where
  tables := h.fits_tables hc hckp hfits.tables
  tableRows := h.fits_tableRows h₁ hin hc hc₁ hckp hfits hfits₁
  rowIdCounters := h.fits_rowIdCounters hc hckp hfits.rowIdCounters
  indexesData := by
    rw [h.indexesData h₁ hc hc₁ hckp]
    split
    · exact hfits₁.indexesData
    · exact hfits.indexesData
  clogBytes := by
    rw [(takenFrom_toCheckpoint hckp).clogBytes, h.txnMgr, ← (takenFrom_toCheckpoint hc).clogBytes]
    exact hfits.clogBytes
  catalogBytes := by
    rw [(takenFrom_toCheckpoint hckp).catalogBytes, h.catalog,
      ← (takenFrom_toCheckpoint hc).catalogBytes]
    exact hfits.catalogBytes

theorem View.columns (h : View e q m t id row p i x) (hin : Incoming e q m t id row row' rows)
    (hcolumns : ∀ (k : Str) (m : MemTable), e.data[k]? = some m → HasColumns m)
    (hb : business row' ≠ ∅) (k : Str) (mk : MemTable) (hmk : x.data[k]? = some mk) :
    HasColumns mk := by
  by_cases hq : q = k
  · subst hq
    by_cases hp : p
    · obtain ⟨seq, hdata⟩ := h.put hp
      have : mk = m.put id t seq := by simpa [hdata] using hmk.symm
      subst this
      intro t' ht' r hr
      rcases List.mem_cons.1 ((hin.perm_put seq).subset ht') with rfl | ht'
      · rw [hin.row] at hr
        cases hr
        exact hb
      · exact hcolumns q m hin.data t' ht' r hr
    · rw [h.notPut hp] at hmk
      exact hcolumns q mk hmk
  · rw [h.data_of_ne hq] at hmk
    exact hcolumns k mk hmk

/-- No table reads more rows than after the insert. -/
theorem View.rowCountOf_le [Decidable p] (h : View e q m t id row p i x)
    (h₁ : View e q m t id row True True e₁) (hin : Incoming e q m t id row row' rows)
    (hnamed : e.Named) (hckp : x.toCheckpoint = .ok ckp) (hc₁ : e₁.toCheckpoint = .ok c₁) :
    rowCountOf ckp ckp.tables ≤ rowCountOf c₁ c₁.tables := by
  rw [(h.named hnamed).rowCountOf_eq hckp, (h₁.named hnamed).rowCountOf_eq hc₁, h.keys, h₁.keys]
  refine List.sum_le_sum fun k hk => ?_
  have hk := Std.ExtTreeMap.mem_keys.1 hk
  by_cases hq : q = k
  · subst hq
    rw [(h.rowsOf_perm hin hckp hk).length_eq, (h₁.rowsOf_perm hin hc₁ hk).length_eq, if_pos trivial]
    split <;> simp
  · rw [rowsOf_congr hc₁ hckp (h₁.mem_tables.2 hk) (h.mem_tables.2 hk)
      ((h.data_of_ne hq).trans (h₁.data_of_ne hq).symm)]

end Views

/-! ### The orders that matter -/

/-- The number of the insert is above that of the checkpoint, and its record is kept. -/
def Replayed (e : StorageEngine) (trace : List Step) : Prop :=
  ¬ Before trace takeNumber readLastSeq ∧
    (Before trace takeNumber resetCounter ∨ e.walSeq ≤ e.wal.seq)

instance (e : StorageEngine) (trace : List Step) : Decidable (Replayed e trace) := by
  unfold Replayed
  infer_instance

section Trace
variable {e : StorageEngine} {q : Str} {m : MemTable} {t : Tuple} {id : Int64} {row row' : Row}
  {rows : RowSet} {trace : List Step} {s : Threads}

theorem mem_trace_left (htrace : TraceOf e trace) (a : InsertStep) : .inl a ∈ trace := by
  rw [← mem_lefts, htrace.left]
  cases a <;> decide

theorem mem_trace_right (htrace : TraceOf e trace) {a : CheckpointStep}
    (ha : a ∈ checkpointSteps e.tables.keys) : .inr a ∈ trace := by
  rwa [← mem_rights, htrace.right]

theorem before_insert (htrace : TraceOf e trace) {a b : InsertStep} (h : Before insertSteps a b) :
    Before trace (.inl a) (.inl b) :=
  (htrace.before_left nodup_insertSteps (by cases b <;> decide)).2 h

theorem readLastSeq_before_resetCounter (htrace : TraceOf e trace) :
    Before trace readLastSeq resetCounter := by
  refine (htrace.before_right (nodup_checkpointSteps e) (by simp [checkpointSteps])).2 ?_
  rw [Before, checkpointSteps, List.takeWhile_cons_of_pos (by decide)]
  exact List.mem_cons_self

theorem copyOf_before_resetCounter (htrace : TraceOf e trace) (hq : q ∈ e.tables) :
    Before trace (copyOf q) resetCounter := by
  refine (htrace.before_right (nodup_checkpointSteps e) (by simp [checkpointSteps])).2 ?_
  rw [Before, checkpointSteps, List.takeWhile_cons_of_pos (by decide),
    List.takeWhile_append_of_pos (by simp)]
  simp [hq]

/-- The record of the insert is replayed in these orders. -/
theorem lastSeq_lt_number_iff (h : Progress e q m t id row trace trace s) (htrace : TraceOf e trace)
    (hroom : max e.walSeq.toInt e.wal.seq.toInt + 2 < 2 ^ 63) :
    s.ckp.lastSeq < s.number ↔ Replayed e trace := by
  have hmem : .readLastSeq ∈ rights trace := by
    rw [htrace.right]
    exact List.mem_cons_self
  have hlast := h.checkpoint.lastSeq hmem
  have hnumber := h.engine.number (mem_trace_left htrace .takeNumber)
  have hreset := readLastSeq_before_resetCounter htrace
  have hsucc {n : Int64} (hn : n.toInt ≤ max e.walSeq.toInt e.wal.seq.toInt) :
      (n + 1).toInt = n.toInt + 1 :=
    FixedWidth.toInt_succ fun he => by
      rw [he, Int64.toInt_maxValue] at hn
      omega
  have hsucc₁ := hsucc (n := e.walSeq) (Int.le_max_left _ _)
  have hsucc₂ := hsucc (n := e.wal.seq) (Int.le_max_right _ _)
  rw [Int64.lt_iff_toInt_lt, hlast, hnumber, Replayed]
  by_cases hN : Before trace takeNumber readLastSeq
  · have hR : ¬ Before trace resetCounter takeNumber := (hN.trans hreset).asymm
    have hP := count_nonneg (Before trace putTuple readLastSeq)
    rw [if_neg hR, hsucc₁, count, if_pos hN]
    constructor
    · intro
      omega
    · exact fun h => absurd hN h.1
  · have hP : ¬ Before trace putTuple readLastSeq := fun hP =>
      hN ((before_insert htrace (by decide)).trans hP)
    rw [count, if_neg hN, count, if_neg hP]
    by_cases hR : Before trace resetCounter takeNumber
    · rw [if_pos hR, hsucc₂, Int64.le_iff_toInt_le]
      constructor
      · exact fun _ => ⟨hN, .inr (by omega)⟩
      · rintro ⟨-, hNR | hle⟩
        · exact absurd hNR hR.asymm
        · omega
    · rw [if_neg hR, hsucc₁]
      have hNR := (before_or_before (mem_trace_left htrace .takeNumber)
        (mem_trace_right htrace (by simp [checkpointSteps])) (by decide)).resolve_right hR
      constructor
      · exact fun _ => ⟨hN, .inl hNR⟩
      · intro
        omega

/-! ### The load -/

/-- The checkpoint of a trace is that of the engine that its tables have been copied from, under
the number that was read first. -/
theorem eq_of_copiedFrom {seen : StorageEngine} {c : Checkpoint} {p i : Prop}
    (h : Progress e q m t id row trace trace s) (htrace : TraceOf e trace)
    (hseen : View e q m t id row p i seen) (hc : seen.toCheckpoint = .ok c)
    (hfrom : CopiedFrom seen (copiedNames (rights trace)) s.ckp) :
    s.ckp = { c with lastSeq := s.ckp.lastSeq } := by
  have hnames : copiedNames (rights trace) = seen.tables.keys := by
    rw [htrace.right, hseen.keys]
    simp [copiedNames, checkpointSteps, List.filterMap_append, List.filterMap_map]
  have hmem {a : CheckpointStep} (ha : a ∈ checkpointSteps e.tables.keys) : a ∈ rights trace := by
    rwa [htrace.right]
  have htaken := takenFrom_toCheckpoint hc
  obtain ⟨hxid, hclog⟩ := h.checkpoint.transactions (hmem (by simp [checkpointSteps]))
  have hcatalog := h.checkpoint.catalog (hmem (by simp [checkpointSteps]))
  rw [← hseen.txnMgr] at hxid hclog
  rw [← hseen.catalog] at hcatalog
  rw [hnames, CopiedFrom, hxid, hclog, hcatalog, ← htaken.nextXid, ← htaken.clogBytes,
    ← htaken.catalogBytes] at hfrom
  have hcopy := congrArg (fun d : Checkpoint => ({ d with
    lastSeq := s.ckp.lastSeq
    nextXid := c.nextXid
    clogBytes := c.clogBytes
    catalogBytes := c.catalogBytes } : Checkpoint)) (copyTables_keys hc)
  exact hfrom.trans hcopy

/-- An insert past its validation, and the engine `e₁` that it leaves when nothing interleaves. Its
id is new, the rows of all tables can be read, and lengths and counters have room. -/
structure InsertReady (q : Str) (id : Int64) (row : Row) (e e₁ : StorageEngine) : Prop where
  alone : (storeInserted q id row InvalidTransactionId).run e = (.ok (), e₁)
  table : q ∈ e.tables
  named : e.Named
  short : q.length < 2 ^ 16
  fits : InsertFits id row
  column : business row ≠ ∅
  new : ∀ m, e.data[q]? = some m → ∀ (k : InternalKey) (t : Tuple), m.entries[k]? = some t →
    k.userKey ≠ makeUserKey m.name id
  unlisted : ∀ idx ∈ e.indexes.getD q [], ∀ key : Str, id ∉ idx.entries.getD key []
  log : ∃ lastSeq records, LogHolds e lastSeq records
  regular : e.catalog.Regular
  readable : ∃ c, e.toCheckpoint = .ok c
  columns : ∀ (k : Str) (m : MemTable), e.data[k]? = some m → HasColumns m
  before : FitsCheckpoint e
  after : FitsCheckpoint e₁
  room : ∀ c, e₁.toCheckpoint = .ok c → e₁.walSeq.toInt + rowCountOf c c.tables < 2 ^ 63
  walRoom : e.wal.seq.toInt + 2 < 2 ^ 63

theorem exists_toRow {hdr : TupleHeader} (h : rowToTuple row hdr = .ok t) (hb : business row ≠ ∅)
    (hsize : (business row).size < 65536) : ∃ row', toRow t = .ok row' := by
  obtain ⟨bs, hbs, h⟩ := ExceptList.bind_ok_iff.1 h
  cases h
  have hpos : 0 < (business row).size := by
    rw [← Std.ExtTreeMap.length_toList, List.length_pos_iff]
    exact fun he => hb (Std.ExtTreeMap.toList_eq_nil_iff.1 he)
  exact ⟨_, toRow_eq_ok.2 ⟨business row, decode_encode_of_size hbs hpos hsize, rfl⟩⟩

/-- What the insert alone leaves. -/
theorem InsertReady.incoming {e₁ : StorageEngine} (h : InsertReady q id row e e₁) :
    ∃ m t row' rows, Incoming e q m t id row row' rows ∧ View e q m t id row True True e₁ ∧
      e₁.walSeq.toInt = e.walSeq.toInt + 2 := by
  have halone := h.alone
  by_cases hmax : e.walSeq = Int64.maxValue
  · rw [storeInserted, Prog.bind_error (run_writeWal_max hmax _ _ _ _)] at halone
    cases halone
  rw [storeInserted, Prog.bind_ok (run_writeWal hmax _ _ _ _)] at halone
  obtain ⟨m, hm⟩ : ∃ m, e.data[q]? = some m :=
    ⟨_, Std.ExtTreeMap.getElem?_eq_some_getElem (h.named.domain q h.table)⟩
  obtain ⟨t, ht⟩ := h.fits.exists_tuple (headerFromRow q id row)
  obtain ⟨row', hrow⟩ := exists_toRow ht h.column h.fits.columns
  obtain ⟨c, hc⟩ := h.readable
  obtain ⟨rows, hrows⟩ : ∃ rows, materializeAll m = .ok rows := by
    have := (takenFrom_toCheckpoint hc).rows q h.table
    rw [tableCheckpoint, hm] at this
    obtain ⟨l, hl, -⟩ := ExceptList.map_ok_iff.1 this
    obtain ⟨rows, hrows, -⟩ := ExceptList.map_ok_iff.1 hl
    exact ⟨rows, hrows⟩
  set e₂ := logged .insert q (walEncodeInsert ⟨id, row⟩) e with he₂
  replace halone : (do
      putVersion q id row
      Prog.modify (updateIndexes q id row)
      Prog.modify (setRowCount q) : EngineM Unit).run e₂ = (.ok (), e₁) := halone
  by_cases hmax₂ : e₂.walSeq = Int64.maxValue
  · rw [Prog.bind_error (run_putVersion_max (e := e₂) ht hmax₂)] at halone
    cases halone
  have hrun := run_store (e := e₂) ht hm hmax₂ pure
  have he₁ : e₁ = stored q id row t m e₂ := by
    have hrun' := halone.symm.trans hrun
    exact (Prod.mk.inj hrun').2
  subst he₁
  refine ⟨m, t, row', rows, ⟨hm, ht, hrow, hrows, h.new m hm⟩, ?_, ?_⟩
  · exact {
      catalog := rfl
      txnMgr := rfl
      rowIds := rfl
      clock := rfl
      put := fun _ => ⟨_, rfl⟩
      notPut := fun hnot => absurd trivial hnot
      listed := fun _ => rfl
      notListed := fun hnot => absurd trivial hnot
      shape := shape_countRows _ _ q q
      tables := fun k hk => countRows_of_ne hk }
  · have h₁ := FixedWidth.toInt_succ hmax
    have h₂ := FixedWidth.toInt_succ hmax₂
    simp only [stored, h₂]
    simp only [he₂, logged, h₁]
    omega

/-- The indexes with the row listed, or not. -/
def relist (c : Prop) [Decidable c] (id : Int64) (row : Row) (idxs : List IndexInfo) :
    List IndexInfo :=
  if c then idxs.map (addToIndex id row) else idxs

theorem relist_pos {c : Prop} [Decidable c] (h : c) (id : Int64) (row : Row) (idxs : List IndexInfo) :
    relist c id row idxs = idxs.map (addToIndex id row) := if_pos h

theorem relist_neg {c : Prop} [Decidable c] (h : ¬ c) (id : Int64) (row : Row)
    (idxs : List IndexInfo) : relist c id row idxs = idxs := if_neg h

/-- What a load finds of the table: the row once for the checkpoint that has it, and once more for
the log. -/
structure Found (e : StorageEngine) (q : Str) (id : Int64) (row row' : Row) (rows : RowSet)
    (trace : List Step) (e' : StorageEngine) : Prop where
  rows : ∃ m' rows', e'.data[q]? = some m' ∧ materializeAll m' = .ok rows' ∧
    rows'.Perm ((if Replayed e trace then [row'] else []) ++
      if Before trace putTuple (copyOf q) then row' :: rows else rows)
  indexes : e'.indexes.getD q [] = relist (Replayed e trace) id row
    (relist (Before trace updateIndex (copyOf q)) id row (e.indexes.getD q []))

theorem View.getD_indexes {x : StorageEngine} {p i : Prop} [Decidable i]
    (h : View e q m t id row p i x) :
    x.indexes.getD q [] = relist i id row (e.indexes.getD q []) := by
  by_cases hi : i
  · rw [h.listed hi, getD_indexes_mapIndexes, if_pos rfl, relist_pos hi]
  · rw [h.notListed hi, relist_neg hi]

/-- What the checkpoint alone gives back of the table. -/
structure FromCheckpoint (e : StorageEngine) (q : Str) (id : Int64) (row row' : Row) (rows : RowSet)
    (trace : List Step) (m₀ : MemTable) (rows₀ : RowSet) (e₀ : StorageEngine) : Prop where
  table : e₀.data[q]? = some m₀
  read : materializeAll m₀ = .ok rows₀
  perm : rows₀.Perm (if Before trace putTuple (copyOf q) then row' :: rows else rows)
  indexes : e₀.indexes.getD q [] =
    relist (Before trace updateIndex (copyOf q)) id row (e.indexes.getD q [])

theorem FromCheckpoint.found {m₀ : MemTable} {rows₀ : RowSet} {e₀ : StorageEngine}
    (h : FromCheckpoint e q id row row' rows trace m₀ rows₀ e₀) (hR : ¬ Replayed e trace) :
    Found e q id row row' rows trace e₀ := by
  refine ⟨⟨m₀, rows₀, h.table, h.read, ?_⟩, ?_⟩
  · rw [if_neg hR, List.nil_append]
    exact h.perm
  · rw [h.indexes, relist_neg hR]

/-- The log adds the row once more. -/
theorem FromCheckpoint.found_stored {m₀ : MemTable} {rows₀ : RowSet} {e₀ : StorageEngine}
    (h : FromCheckpoint e q id row row' rows trace m₀ rows₀ e₀)
    (hin : Incoming e q m t id row row' rows) (hnum : StorageEngine.Numbered m₀ e₀.walSeq)
    (hmax : e₀.walSeq ≠ Int64.maxValue) (rowIds : StrMap Int64) (hR : Replayed e trace) :
    Found e q id row row' rows trace { stored q id row t m₀ e₀ with rowIds := rowIds } := by
  constructor
  · have hput := MemTable.perm_put (t := t) (hnum.free hmax (makeUserKey m₀.name id))
    rw [normalize_rowToTuple hin.tuple] at hput
    obtain ⟨rows', hrows', hperm'⟩ := ExceptList.mapM_perm hput.symm
      (ExceptList.mapM_cons_ok.2 ⟨row', rows₀, hin.row, h.read, rfl⟩)
    refine ⟨_, rows', by simp [stored], hrows', hperm'.symm.trans ?_⟩
    rw [if_pos hR]
    exact h.perm.cons row'
  · simp only [stored]
    rw [getD_indexes_mapIndexes, if_pos rfl, h.indexes, relist_pos hR]

/-- The table of a restored checkpoint that was copied from the engine `seen`. -/
theorem fromCheckpoint_of_restored {seen e₀ : StorageEngine} {c ckp : Checkpoint} {catalog : Catalog}
    {clog : CLog} {tuples : Str → List Tuple}
    (hseen : View e q m t id row (Before trace putTuple (copyOf q))
      (Before trace updateIndex (copyOf q)) seen)
    (hin : Incoming e q m t id row row' rows) (hnamed : e.Named) (hq : q ∈ e.tables)
    (hc : seen.toCheckpoint = .ok c) (htables : ckp.tables = c.tables)
    (hindexes : ckp.indexesData = c.indexesData)
    (htuples : ∀ (k : Str) (mx : MemTable) (rowsx : RowSet), k ∈ seen.tables →
      seen.data[k]? = some mx → materializeAll mx = .ok rowsx → (tuples k).mapM toRow = .ok rowsx)
    (h : Restored ckp.reloaded catalog clog tuples e₀) : ∃ m₀ rows₀, StorageEngine.Numbered m₀ e₀.walSeq ∧
      FromCheckpoint e q id row row' rows trace m₀ rows₀ e₀ := by
  have htaken := takenFrom_toCheckpoint hc
  have hq := hseen.mem_tables.2 hq
  have hschema := Std.ExtTreeMap.getElem?_eq_some_getElem hq
  set schema := seen.tables[q] with hset
  have hname : schema.name = q := (hseen.named hnamed).tables q schema hschema
  have hmem : schema.withoutDefaults ∈ ckp.reloaded.tables := by
    refine List.mem_map_of_mem ?_
    rw [htables, htaken.tables, (hseen.named hnamed).mem_values, hname]
    exact hschema
  have htable := h.table _ hmem
  have hname' : schema.withoutDefaults.name = q := hname
  obtain ⟨m₀, hm₀, -, hnum, hscan⟩ := htable.data
  have hindexes₀ := htable.indexes
  rw [hname'] at hm₀ hscan hindexes₀
  obtain ⟨mx, rowsx, hmx, hrowsx, hperm⟩ := hseen.reads hin
  obtain ⟨rows₀, hrows₀, hperm₀⟩ :=
    ExceptList.mapM_perm hscan.symm (htuples q mx rowsx hq hmx hrowsx)
  refine ⟨m₀, rows₀, hnum, hm₀, hrows₀, hperm₀.symm.trans hperm, ?_⟩
  have hdata : ckp.reloaded.indexesData = c.indexesData := hindexes
  rw [← hseen.getD_indexes, Std.ExtTreeMap.getD_eq_getD_getElem?, hindexes₀, Option.getD_some,
    hdata, htaken.indexes, Std.ExtTreeMap.getD_eq_getD_getElem?, Std.ExtTreeMap.getD_eq_getD_getElem?,
    Std.ExtTreeMap.getElem?_filter']
  have hcontains := Std.ExtTreeMap.mem_iff_contains.1 hq
  cases seen.indexes[q]? <;> simp [Option.filter, hcontains]

theorem load_trace {e₁ : StorageEngine} (h : InsertReady q id row e e₁) (htrace : TraceOf e trace)
    (hin : Incoming e q m t id row row' rows) (hview₁ : View e q m t id row True True e₁)
    (hseq₁ : e₁.walSeq.toInt = e.walSeq.toInt + 2) (checkpointInterval : Int32) (clock : Int64) :
    ∃ s e', (runTrace q id row trace).run (start e) = (.ok (), s) ∧
      load.run (create s.engine.dir.disk checkpointInterval clock) = (.ok (), e') ∧
      Found e q id row row' rows trace e' := by
  obtain ⟨c₀, hc₀⟩ := h.readable
  obtain ⟨lastSeq₀, records, hlog⟩ := h.log
  have hread : ∀ k ∈ e.tables.keys, ∃ rows, e.tableCheckpoint k = .ok (k, rows) := fun k hk =>
    ⟨_, (takenFrom_toCheckpoint hc₀).rows k (Std.ExtTreeMap.mem_keys.1 hk)⟩
  have hcounter := e₁.walSeq.toInt_lt
  have hwalRoom := h.walRoom
  have hroom : max e.walSeq.toInt e.wal.seq.toInt + 2 < 2 ^ 63 := by omega
  obtain ⟨s, hrun, hprogress⟩ := progress_trace htrace hin hread h.short h.fits hlog hroom
  have hsteps {a : CheckpointStep} (ha : a ∈ checkpointSteps e.tables.keys) : a ∈ rights trace := by
    rwa [htrace.right]
  obtain ⟨seen, hseen, hfrom⟩ := hprogress.checkpoint.copied (hsteps (by simp [checkpointSteps]))
  obtain ⟨c, hc⟩ := exists_toCheckpoint fun k hk =>
    hseen.tableCheckpoint hin hread (hseen.keys ▸ hk)
  obtain ⟨c₁, hc₁⟩ := exists_toCheckpoint fun k hk =>
    hview₁.tableCheckpoint hin hread (hview₁.keys ▸ hk)
  have hckp := eq_of_copiedFrom hprogress htrace hseen hc hfrom
  have htaken := takenFrom_toCheckpoint hc
  -- The checkpoint can be restored.
  have hfits : c.Fits :=
    hseen.fits hview₁ hin hc₀ hc₁ hc (h.before.file c₀ hc₀) (h.after.file c₁ hc₁)
  have hseenFits : FitsCheckpoint seen := ⟨fun c' hc' => by
    rw [hc] at hc'
    cases hc'
    exact hfits, by rw [hseen.catalog]; exact h.before.catalog⟩
  have hb : business row' ≠ ∅ := by
    rw [(toRow_rowToTuple hin.tuple h.fits.columns hin.row).1, business_withSystemColumns,
      business_business]
    exact h.column
  have hlast := hprogress.checkpoint.lastSeq (hsteps (by simp [checkpointSteps]))
  have hcount {a : Prop} [Decidable a] : 0 ≤ count a ∧ count a ≤ 1 := by
    rw [count]
    split <;> decide
  have hN := hcount (a := Before trace takeNumber readLastSeq)
  have hP := hcount (a := Before trace putTuple readLastSeq)
  have hle := hseen.rowCountOf_le hview₁ hin h.named hc hc₁
  have hroom₁ := h.room c₁ hc₁
  obtain ⟨tuples, hres, htuples⟩ := (hseen.named h.named).restorable hc hseenFits
    (by rw [hseen.catalog]; exact h.regular) (hseen.columns hin h.columns hb)
    (show s.ckp.lastSeq.toInt + _ < 2 ^ 63 by omega)
  replace hres : Restorable s.ckp seen.catalog.reopened seen.txnMgr.clog tuples := by
    rw [hckp]
    exact hres
  have hckpFits : s.ckp.Fits := by
    rw [hckp]
    exact ⟨hfits.tables, hfits.tableRows, hfits.rowIdCounters, hfits.indexesData, hfits.clogBytes,
      hfits.catalogBytes⟩
  obtain ⟨e₀, hrestored, hload⟩ := run_load_saved hckpFits hres
    (hprogress.checkpoint.saved (hsteps (by simp [checkpointSteps]))) checkpointInterval clock
  -- Of the log, at most the record of the insert is above it.
  obtain ⟨records', hlog', hrecords', hkept⟩ := hprogress.engine.log
  have hkept := hkept s.ckp.lastSeq (by rw [Int64.le_iff_toInt_le]; omega) fun _ => rfl
  rw [WriteAheadLogV3.replay_encodeLog hrecords' (.inl rfl) (by rw [hlog', List.append_nil])] at hload
  simp only [hkept, written, if_pos (mem_trace_left htrace .appendRecord),
    List.filter_singleton] at hload
  have hnumber := lastSeq_lt_number_iff hprogress htrace hroom
  -- The table as it is restored.
  have htables : s.ckp.tables = c.tables := by
    rw [hckp]
  have hindexes : s.ckp.indexesData = c.indexesData := by
    rw [hckp]
  obtain ⟨m₀, rows₀, hnum, hfrom₀⟩ := fromCheckpoint_of_restored hseen hin h.named h.table hc
    htables hindexes htuples hrestored
  by_cases hR : Replayed e trace
  · have hlt : s.ckp.lastSeq < (insertRecord q id row s.number e.clock).seq := hnumber.2 hR
    rw [decide_eq_true hlt, cond_true] at hload
    have hzero : s.ckp.lastSeq.toInt = e.walSeq.toInt := by
      have hP₀ : ¬ Before trace putTuple readLastSeq := fun hP =>
        hR.1 ((before_insert htrace (by decide)).trans hP)
      rw [hlast, count, if_neg hR.1, count, if_neg hP₀]
      omega
    have hrows : rowCountOf s.ckp.reloaded s.ckp.reloaded.tables = rowCountOf c c.tables := by
      rw [rowCountOf_reloaded, hckp]
      rfl
    have hmax : e₀.walSeq ≠ Int64.maxValue := fun he => by
      have hwal := hrestored.walSeq
      rw [he, Int64.toInt_maxValue, hrows, show s.ckp.reloaded.lastSeq = s.ckp.lastSeq from rfl] at hwal
      omega
    have hrun' : (replayRecord (insertRecord q id row s.number e.clock)).run e₀ =
        (.ok (), { stored q id row t m₀ e₀ with
          rowIds := e₀.rowIds.insert q (max (e₀.rowIds.getD q 0) id) }) :=
      run_replayInsert rfl rfl rfl rfl h.fits hfrom₀.table hin.tuple hmax
    exact ⟨s, _, hrun, hload.trans (Prog.run_forEach_cons hrun' []),
      hfrom₀.found_stored hin hnum hmax _ hR⟩
  · have hlt : ¬ s.ckp.lastSeq < (insertRecord q id row s.number e.clock).seq := fun hlt =>
      hR (hnumber.1 hlt)
    rw [decide_eq_false hlt, cond_false] at hload
    exact ⟨s, e₀, hrun, hload, hfrom₀.found hR⟩

/-! ### Once -/

/-- The table has the rows and the index entries that the insert alone leaves. -/
def AppliedOnce (q : Str) (e₁ e' : StorageEngine) : Prop :=
  ∃ m₁ m' rows₁ rows', e₁.data[q]? = some m₁ ∧ e'.data[q]? = some m' ∧
    materializeAll m₁ = .ok rows₁ ∧ materializeAll m' = .ok rows' ∧ rows'.Perm rows₁ ∧
    e'.indexes.getD q [] = e₁.indexes.getD q []

/-- The insert takes its number before the checkpoint reads the last one, and its version, with the
index entries if there are any, is in place before the table is copied; or the insert comes after
the checkpoint in both respects, and its number is not one that the checkpoint has covered. -/
def Consistent (e : StorageEngine) (q : Str) (row : Row) (trace : List Step) : Prop :=
  Before trace takeNumber readLastSeq ∧ Before trace putTuple (copyOf q) ∧
      (Before trace updateIndex (copyOf q) ∨
        ∀ idx ∈ e.indexes.getD q [], row[idx.column]? = none) ∨
    Before trace readLastSeq takeNumber ∧ Before trace (copyOf q) putTuple ∧
      (Before trace takeNumber resetCounter ∨ e.walSeq ≤ e.wal.seq)

/-- An id that is not listed leaves the indexes as they are only when none has a value of the
row. -/
theorem map_addToIndex_eq {idxs : List IndexInfo}
    (h : ∀ idx ∈ idxs, ∀ key : Str, id ∉ idx.entries.getD key []) :
    idxs.map (addToIndex id row) = idxs ↔ ∀ idx ∈ idxs, row[idx.column]? = none := by
  constructor
  · intro heq idx hidx
    cases hv : row[idx.column]? with
    | none => rfl
    | some v =>
      have hself : addToIndex id row idx = idx := by
        have hmap : idxs.map (addToIndex id row) = idxs.map (fun idx => idx) := by simpa using heq
        exact List.map_inj_left.1 hmap idx hidx
      have hnot := h idx hidx (valueToString v)
      rw [addToIndex, hv] at hself
      simp only [if_neg hnot] at hself
      refine absurd ?_ hnot
      have hentries := congrArg (fun i : IndexInfo => i.entries.getD (valueToString v) []) hself
      simp only [Std.ExtTreeMap.getD_insert_self] at hentries
      rw [← hentries]
      simp
  · intro hnone
    refine (List.map_congr_left fun idx hidx => ?_).trans (List.map_id idxs)
    rw [addToIndex, hnone idx hidx]
    rfl

theorem Found.appliedOnce_iff {e₁ e' : StorageEngine} (hfound : Found e q id row row' rows trace e')
    (h : InsertReady q id row e e₁) (htrace : TraceOf e trace) (hin : Incoming e q m t id row row' rows)
    (hview₁ : View e q m t id row True True e₁) :
    AppliedOnce q e₁ e' ↔ Consistent e q row trace := by
  obtain ⟨⟨m', rows', hm', hrows', hperm⟩, hindexes⟩ := hfound
  obtain ⟨m₁, rows₁, hm₁, hrows₁, hperm₁⟩ := hview₁.reads hin
  rw [if_pos trivial] at hperm₁
  have hindexes₁ : e₁.indexes.getD q [] = (e.indexes.getD q []).map (addToIndex id row) := by
    rw [hview₁.getD_indexes, relist_pos trivial]
  have honce : AppliedOnce q e₁ e' ↔ rows'.Perm (row' :: rows) ∧
      e'.indexes.getD q [] = (e.indexes.getD q []).map (addToIndex id row) := by
    rw [AppliedOnce, hindexes₁]
    constructor
    · rintro ⟨m₂, m₃, rows₂, rows₃, h₂, h₃, hr₂, hr₃, hp, hi⟩
      rw [hm₁] at h₂
      rw [hm'] at h₃
      cases h₂
      cases h₃
      rw [hrows₁] at hr₂
      rw [hrows'] at hr₃
      cases hr₂
      cases hr₃
      exact ⟨hp.trans hperm₁, hi⟩
    · exact fun ⟨hp, hi⟩ => ⟨m₁, m', rows₁, rows', hm₁, hm', hrows₁, hrows', hp.trans hperm₁.symm, hi⟩
  refine honce.trans ?_
  -- Both orders are total, and the steps of each thread keep theirs.
  have hcopy : copyOf q ∈ trace := mem_trace_right htrace (by simp [checkpointSteps, h.table])
  have hread : readLastSeq ∈ trace := mem_trace_right htrace (by simp [checkpointSteps])
  have hput := before_or_before (mem_trace_left htrace .putTuple) hcopy (by simp)
  have hnumber := before_or_before (mem_trace_left htrace .takeNumber) hread (by simp)
  have hNP : Before trace takeNumber putTuple := before_insert htrace (by decide)
  have hPI : Before trace putTuple updateIndex := before_insert htrace (by decide)
  have hCR := copyOf_before_resetCounter htrace h.table
  by_cases hR : Replayed e trace
  · rw [if_pos hR] at hperm
    rw [relist_pos hR] at hindexes
    have hLN := hnumber.resolve_left hR.1
    by_cases hPC : Before trace putTuple (copyOf q)
    · rw [if_pos hPC] at hperm
      constructor
      · intro hp
        have := (hperm.symm.trans hp.1).length_eq
        simp at this
      · rintro (⟨hN, -⟩ | ⟨-, hC, -⟩)
        · exact absurd hN hR.1
        · exact absurd hC hPC.asymm
    · rw [if_neg hPC] at hperm
      have hCP := hput.resolve_left hPC
      have hIC : ¬ Before trace updateIndex (copyOf q) := (hCP.trans hPI).asymm
      rw [relist_neg hIC] at hindexes
      exact ⟨fun _ => .inr ⟨hLN, hCP, hR.2⟩, fun _ => ⟨hperm, hindexes⟩⟩
  · rw [if_neg hR, List.nil_append] at hperm
    rw [relist_neg hR] at hindexes
    by_cases hPC : Before trace putTuple (copyOf q)
    · rw [if_pos hPC] at hperm
      have hN : Before trace takeNumber readLastSeq := by
        refine hnumber.resolve_right fun hLN => hR ⟨hLN.asymm, .inl ?_⟩
        exact hNP.trans (hPC.trans hCR)
      have hlisted : e'.indexes.getD q [] = (e.indexes.getD q []).map (addToIndex id row) ↔
          (Before trace updateIndex (copyOf q) ∨
            ∀ idx ∈ e.indexes.getD q [], row[idx.column]? = none) := by
        rw [hindexes, ← map_addToIndex_eq h.unlisted]
        by_cases hI : Before trace updateIndex (copyOf q)
        · rw [relist_pos hI]
          exact ⟨fun _ => .inl hI, fun _ => rfl⟩
        · rw [relist_neg hI]
          exact ⟨fun he => .inr he.symm, fun he => (he.resolve_left hI).symm⟩
      rw [hlisted]
      constructor
      · exact fun hp => .inl ⟨hN, hPC, hp.2⟩
      · rintro (⟨-, -, hI⟩ | ⟨-, hC, -⟩)
        · exact ⟨hperm, hI⟩
        · exact absurd hC hPC.asymm
    · rw [if_neg hPC] at hperm
      constructor
      · intro hp
        have := (hperm.symm.trans hp.1).length_eq
        simp at this
      · rintro (⟨-, hP, -⟩ | ⟨hLN, -, hle⟩)
        · exact absurd hP hPC
        · exact absurd ⟨hLN.asymm, hle⟩ hR

/-- The row survives the crash exactly once in the traces that are consistent, and only in these. -/
theorem appliedOnce_iff_consistent {e₁ : StorageEngine} (h : InsertReady q id row e e₁)
    (htrace : TraceOf e trace) (checkpointInterval : Int32) (clock : Int64) :
    ∃ s e', (runTrace q id row trace).run (start e) = (.ok (), s) ∧
      load.run (create s.engine.dir.disk checkpointInterval clock) = (.ok (), e') ∧
      (AppliedOnce q e₁ e' ↔ Consistent e q row trace) := by
  obtain ⟨m, t, row', rows, hin, hview₁, hseq₁⟩ := h.incoming
  obtain ⟨s, e', hrun, hload, hfound⟩ :=
    load_trace h htrace hin hview₁ hseq₁ checkpointInterval clock
  exact ⟨s, e', hrun, hload, hfound.appliedOnce_iff h htrace hin hview₁⟩

end Trace

/-! ### A trace that loses the row -/

def oneColumn (name : Str) : Call := .createTable name [⟨str "a", .integer, true, false, none⟩]

/-- Two tables of one column. A row has gone into the second one, and its call has reached the
checkpoint; an insert into the first one has drawn its row id. -/
def twoTables : StorageEngine :=
  ((nextRowId (str "defaultdb.public.a")).run ((Call.insert (str "b") oneRow).body.run
    ((oneColumn (str "b")).exec.run ((oneColumn (str "a")).exec.run
      (create Disk.empty 4 0)).2).2).2).2

def tableA : Str := str "defaultdb.public.a"

def rowA : Row := stampInserted 1 oneRow

def afterInsert : StorageEngine :=
  ((storeInserted tableA 1 rowA InvalidTransactionId).run twoTables).2

theorem insertReady_twoTables : InsertReady tableA 1 rowA twoTables afterInsert where
  alone := by
    have hok : ((storeInserted tableA 1 rowA InvalidTransactionId).run twoTables).1 = .ok () := by
      decide +kernel
    rw [← hok]
    rfl
  table := by decide +kernel
  named := by decide +kernel
  short := by decide
  fits := by decide +kernel
  column := fun h => by
    have hmem : (business rowA).isEmpty = false := by decide +kernel
    rw [h] at hmem
    exact absurd hmem (by simp)
  new m hm k t hk := by
    have h : (twoTables.data[tableA]?.map fun m => m.scanAll.isEmpty) = some true := by decide +kernel
    rw [hm] at h
    have hempty : m.scanAll = [] := by simpa using h
    have := MemTable.mem_scanAll.2 ⟨k, hk⟩
    rw [hempty] at this
    cases this
  unlisted idx hidx key := by
    have h : ∀ idx ∈ twoTables.indexes.getD tableA [], idx.entries.isEmpty = true := by decide +kernel
    have := Std.ExtTreeMap.isEmpty_iff.1 (h idx hidx)
    rw [this]
    simp
  log := ⟨0, _, logHolds_of_tail (e := twoTables) (n := 0) (by decide +kernel)⟩
  regular := by decide +kernel
  readable := ⟨_, ExceptList.eq_ok_getD (by decide +kernel) Checkpoint.empty⟩
  columns _ m hm :=
    have h : ∀ m ∈ twoTables.data.values, HasColumns m := by decide +kernel
    h m (OrderedMap.mem_values hm)
  before := ⟨fun _ hc => ExceptList.of_all_ok (by decide +kernel) hc, by decide +kernel⟩
  after := ⟨fun _ hc => ExceptList.of_all_ok (by decide +kernel) hc, by decide +kernel⟩
  room _ hc := ExceptList.of_all_ok (P := fun c => afterInsert.walSeq.toInt + rowCountOf c c.tables < 2 ^ 63)
    (by decide +kernel) hc
  walRoom := by decide +kernel

/-- The insert comes before the checkpoint. -/
def insertFirst : List Step :=
  insertSteps.map .inl ++ (checkpointSteps twoTables.tables.keys).map .inr

/-- The insert takes its number before the checkpoint reads the last one, but stores its row after the
tables have been copied. -/
def insertAround : List Step :=
  takeNumber :: appendRecord :: readLastSeq ::
    (twoTables.tables.keys.map copyOf ++ putTuple :: updateIndex ::
      [.inr .copyTransactions, .inr .copyCatalog, .inr .save, truncateLog, resetCounter])

theorem row_kept : ∃ s e', (runTrace tableA 1 rowA insertFirst).run (start twoTables) = (.ok (), s) ∧
    load.run (create s.engine.dir.disk 4 0) = (.ok (), e') ∧ AppliedOnce tableA afterInsert e' := by
  obtain ⟨s, e', hrun, hload, honce⟩ := appliedOnce_iff_consistent insertReady_twoTables
    (show TraceOf twoTables insertFirst from ⟨by decide +kernel, by decide +kernel⟩) 4 0
  refine ⟨s, e', hrun, hload, honce.2 (.inl ⟨by decide +kernel, by decide +kernel, .inl ?_⟩)⟩
  decide +kernel

/-- The row of an acknowledged insert is gone after the checkpoint and a crash. -/
theorem row_lost : ¬ ∀ (q : Str) (id : Int64) (row : Row) (e e₁ : StorageEngine) (trace : List Step),
    InsertReady q id row e e₁ → e.checkpointDue = true → TraceOf e trace →
    ∀ checkpointInterval clock, ∃ s e', (runTrace q id row trace).run (start e) = (.ok (), s) ∧
      load.run (create s.engine.dir.disk checkpointInterval clock) = (.ok (), e') ∧
      AppliedOnce q e₁ e' := by
  intro h
  have htrace : TraceOf twoTables insertAround := ⟨by decide +kernel, by decide +kernel⟩
  obtain ⟨s, e', hrun, hload, honce⟩ := h tableA 1 rowA twoTables afterInsert insertAround
    insertReady_twoTables (by decide +kernel) htrace 4 0
  obtain ⟨m, t, row', rows, hin, hview₁, hseq₁⟩ := insertReady_twoTables.incoming
  obtain ⟨s₂, e₂, hrun₂, hload₂, hfound⟩ :=
    load_trace insertReady_twoTables htrace hin hview₁ hseq₁ 4 0
  rw [hrun] at hrun₂
  cases hrun₂
  rw [hload] at hload₂
  cases hload₂
  rcases (hfound.appliedOnce_iff insertReady_twoTables htrace hin hview₁).1 honce with
    ⟨-, hput, -⟩ | ⟨hread, -⟩
  · exact absurd hput (by decide +kernel)
  · exact absurd hread (by decide +kernel)

end Threads
end JiaMiaoDB
