import JiaMiaoDB.Lib.FixedWidth
import JiaMiaoDB.Storage.CheckpointRoundTrip
import JiaMiaoDB.Storage.Effects

/-!
# Restoring a checkpoint

A checkpoint that fits its file format gives its tables, rows, counters, indexes and catalog back;
transactions in progress come back as aborted. The rows of a table come back up to order.
-/

set_option autoImplicit false

namespace JiaMiaoDB
open ByteFormat BinaryRowCodec

namespace StorageEngine

/-! ### Putting rows into a table -/

/-- The counter is above the numbers of all versions. -/
def Numbered (m : MemTable) (n : Int64) : Prop :=
  ∀ (k : InternalKey) (t : Tuple), m.entries[k]? = some t → ∃ i : Int64, k.seq = i.toUInt64 ∧ i ≤ n

theorem Numbered.free {m : MemTable} {n : Int64} (h : Numbered m n) (hmax : n ≠ Int64.maxValue)
    (uk : Str) : m.entries[(⟨uk, (n + 1).toUInt64⟩ : InternalKey)]? = none := by
  cases hk : m.entries[(⟨uk, (n + 1).toUInt64⟩ : InternalKey)]? with
  | none => rfl
  | some t =>
    obtain ⟨i, hi, hle⟩ := h _ t hk
    have hi : (n + 1).toUInt64 = i.toUInt64 := hi
    have he : n + 1 = i := by
      rw [← Int64.toInt64_toUInt64 (n + 1), hi, Int64.toInt64_toUInt64]
    rw [← he] at hle
    exact absurd (Int64.lt_of_lt_of_le (FixedWidth.lt_succ hmax) hle) Int64.lt_irrefl

theorem Numbered.put {m : MemTable} {n : Int64} (h : Numbered m n) (hmax : n ≠ Int64.maxValue)
    (id : Int64) (t : Tuple) : Numbered (m.put id t (n + 1).toUInt64) (n + 1) := by
  intro k t' hk
  rcases MemTable.getElem?_put.1 hk with ⟨rfl, -⟩ | ⟨-, hk⟩
  · exact ⟨n + 1, rfl, Int64.le_refl _⟩
  · obtain ⟨i, hi, hle⟩ := h k t' hk
    exact ⟨i, hi, Int64.le_trans hle (Int64.le_of_lt (FixedWidth.lt_succ hmax))⟩

theorem Numbered.mono {m : MemTable} {n n' : Int64} (h : Numbered m n) (hle : n ≤ n') :
    Numbered m n' := fun k t hk => by
  obtain ⟨i, hi, hin⟩ := h k t hk
  exact ⟨i, hi, Int64.le_trans hin hle⟩

/-- The tuple that a row of a checkpoint becomes. -/
def restoredTuple (q : Str) (p : Int64 × Row) : Except Failure Tuple :=
  rowToTuple p.2 (headerFromRow q p.1 p.2)

/-- The rows of a checkpoint are put under increasing numbers, so none takes another's place. -/
theorem run_putRows {q : Str} {rows : List (Int64 × Row)} {tuples : List Tuple}
    (h : rows.mapM (restoredTuple q) = .ok tuples) {e : StorageEngine} {m : MemTable}
    (hm : e.data[q]? = some m) (hnum : Numbered m e.walSeq)
    (hroom : e.walSeq.toInt + rows.length < 2 ^ 63) :
    ∃ m' n, (Prog.forEach (fun p => putVersion q p.1 p.2) rows).run e =
        (.ok (), { e with walSeq := n, data := e.data.insert q m' }) ∧
      n.toInt = e.walSeq.toInt + rows.length ∧ m'.name = m.name ∧ Numbered m' n ∧
      m'.scanAll.Perm (m.scanAll ++ tuples) := by
  induction rows generalizing e m tuples with
  | nil =>
    cases h
    refine ⟨m, e.walSeq, ?_, by simp, rfl, hnum, by simp⟩
    rw [OrderedMap.insert_self hm]
    rfl
  | cons p rows ih =>
    obtain ⟨t, tuples, ht, htuples, rfl⟩ := ExceptList.mapM_cons_ok.1 h
    have hmax : e.walSeq ≠ Int64.maxValue := fun he => by
      rw [he, Int64.toInt_maxValue, List.length_cons] at hroom
      omega
    have hsucc := FixedWidth.toInt_succ hmax
    rw [List.length_cons] at hroom
    set e₁ : StorageEngine := { e with
      walSeq := e.walSeq + 1
      data := e.data.insert q (m.put p.1 t (e.walSeq + 1).toUInt64) } with he₁
    obtain ⟨m', n, hrun, hn, hname, hnum', hperm⟩ := ih htuples (e := e₁) (by simp [he₁])
      (hnum.put hmax p.1 t) (by simp only [he₁, hsucc]; omega)
    refine ⟨m', n, ?_, ?_, hname, hnum', hperm.trans ?_⟩
    · refine Eq.trans (Prog.run_forEach_cons (a := p) (run_putVersion ht hm hmax) rows) ?_
      rw [hrun, he₁]
      simp only [OrderedMap.insert_insert]
    · simp only [he₁, hsucc] at hn
      rw [hn, List.length_cons]
      omega
    · have hput := MemTable.perm_put (t := t) (hnum.free hmax (makeUserKey m.name p.1))
      rw [normalize_rowToTuple ht] at hput
      exact (hput.append_right tuples).trans List.perm_middle.symm

/-! ### Restoring the tables -/

/-- A table as the checkpoint restores it. -/
structure RestoredTable (ckp : Checkpoint) (t : TableSchema) (tuples : List Tuple)
    (e : StorageEngine) : Prop where
  schema : e.tables[t.name]? = some t
  rowId : e.rowIds[t.name]? = some (ckp.rowIdCounters.getD t.name 0)
  indexes : e.indexes[t.name]? = some (ckp.indexesData.getD t.name [])
  data : ∃ m, e.data[t.name]? = some m ∧ m.name = t.name ∧ Numbered m e.walSeq ∧
    m.scanAll.Perm tuples

/-- Nothing is stored under the name. -/
structure NoTable (q : Str) (e : StorageEngine) : Prop where
  tables : e.tables[q]? = none
  data : e.data[q]? = none
  rowIds : e.rowIds[q]? = none
  indexes : e.indexes[q]? = none

/-- The engines agree on everything under the name. -/
structure SameAt (q : Str) (e e' : StorageEngine) : Prop where
  tables : e'.tables[q]? = e.tables[q]?
  data : e'.data[q]? = e.data[q]?
  rowIds : e'.rowIds[q]? = e.rowIds[q]?
  indexes : e'.indexes[q]? = e.indexes[q]?

theorem SameAt.trans {q : Str} {e₁ e₂ e₃ : StorageEngine} (h : SameAt q e₁ e₂)
    (h' : SameAt q e₂ e₃) : SameAt q e₁ e₃ where
  tables := h'.tables.trans h.tables
  data := h'.data.trans h.data
  rowIds := h'.rowIds.trans h.rowIds
  indexes := h'.indexes.trans h.indexes

theorem RestoredTable.congr {ckp : Checkpoint} {t : TableSchema} {tuples : List Tuple}
    {e e' : StorageEngine} (h : RestoredTable ckp t tuples e) (hs : SameAt t.name e e')
    (hle : e.walSeq ≤ e'.walSeq) : RestoredTable ckp t tuples e' where
  schema := hs.tables.trans h.schema
  rowId := hs.rowIds.trans h.rowId
  indexes := hs.indexes.trans h.indexes
  data := by
    obtain ⟨m, hm, hname, hnum, hperm⟩ := h.data
    exact ⟨m, hs.data.trans hm, hname, hnum.mono hle, hperm⟩

theorem run_restoreTable {ckp : Checkpoint} {t : TableSchema} {tuples : List Tuple}
    (h : (rowsOf ckp t.name).mapM (restoredTuple t.name) = .ok tuples) {e : StorageEngine}
    (hroom : e.walSeq.toInt + (rowsOf ckp t.name).length < 2 ^ 63) :
    ∃ e', (restoreTable ckp false t).run e = (.ok (), e') ∧
      e'.walSeq.toInt = e.walSeq.toInt + (rowsOf ckp t.name).length ∧
      RestoredTable ckp t tuples e' ∧ (∀ q, t.name ≠ q → SameAt q e e') ∧
      e'.catalog = e.catalog ∧ e'.txnMgr = e.txnMgr := by
  have hq : qualifiedName false t.name = t.name := by
    rw [qualifiedName, if_neg (by simp)]
  obtain ⟨m, n, hrun, hn, hname, hnum, hperm⟩ := run_putRows h (e := addTable t.name t e)
    (m := MemTable.create t.name) (by simp [addTable]) (fun k t' hk => by simp [MemTable.create] at hk)
    hroom
  refine ⟨restoreSettings ckp t.name t.name
    { addTable t.name t e with walSeq := n, data := e.data.insert t.name m }, ?_, hn, ?_, ?_, rfl, rfl⟩
  · rw [restoreTable]
    simp only [hq]
    rw [Prog.bind_ok (Prog.run_modify _ _)]
    refine (Prog.bind_ok hrun).trans ?_
    rw [Prog.run_modify]
    simp only [addTable, OrderedMap.insert_insert]
  · refine ⟨by simp [restoreSettings, addTable], ?_, ?_, m, by simp [restoreSettings], hname, hnum,
      by simpa using hperm⟩
    · simp only [restoreSettings, addTable, Std.ExtTreeMap.getD_eq_getD_getElem?]
      cases ckp.rowIdCounters[t.name]? <;> simp
    · simp only [restoreSettings, addTable, Std.ExtTreeMap.getD_eq_getD_getElem?]
      cases ckp.indexesData[t.name]? <;> simp
  · intro q hne
    constructor
    · simp [restoreSettings, addTable, Std.ExtTreeMap.getElem?_insert, hne]
    · simp [restoreSettings, Std.ExtTreeMap.getElem?_insert, hne]
    · simp only [restoreSettings, addTable]
      cases ckp.rowIdCounters[t.name]? <;> simp [Std.ExtTreeMap.getElem?_insert, hne]
    · simp only [restoreSettings, addTable]
      cases ckp.indexesData[t.name]? <;> simp [Std.ExtTreeMap.getElem?_insert, hne]

theorem run_restoreTables {ckp : Checkpoint} {tuples : Str → List Tuple} {ts : List TableSchema}
    (hnames : (ts.map TableSchema.name).Nodup)
    (h : ∀ t ∈ ts, (rowsOf ckp t.name).mapM (restoredTuple t.name) = .ok (tuples t.name))
    {e : StorageEngine} (hroom : e.walSeq.toInt + rowCountOf ckp ts < 2 ^ 63) :
    ∃ e', (Prog.forEach (restoreTable ckp false) ts).run e = (.ok (), e') ∧
      e'.walSeq.toInt = e.walSeq.toInt + rowCountOf ckp ts ∧
      (∀ t ∈ ts, RestoredTable ckp t (tuples t.name) e') ∧
      (∀ q, q ∉ ts.map TableSchema.name → SameAt q e e') ∧
      e'.catalog = e.catalog ∧ e'.txnMgr = e.txnMgr := by
  induction ts generalizing e with
  | nil => exact ⟨e, rfl, by simp [rowCountOf], by simp, fun q _ => ⟨rfl, rfl, rfl, rfl⟩, rfl, rfl⟩
  | cons t ts ih =>
    obtain ⟨hnot, hnames⟩ := List.nodup_cons.1 hnames
    have hcount : rowCountOf ckp (t :: ts) = (rowsOf ckp t.name).length + rowCountOf ckp ts := by
      simp [rowCountOf]
    rw [hcount] at hroom
    obtain ⟨e₁, hrun, hn, htable, hsame, hcat, htxn⟩ :=
      run_restoreTable (h t (by simp)) (e := e) (by omega)
    obtain ⟨e₂, hrun₂, hn₂, htables, hsame₂, hcat₂, htxn₂⟩ :=
      ih hnames (fun t' ht' => h t' (by simp [ht'])) (e := e₁) (by omega)
    refine ⟨e₂, (Prog.run_forEach_cons hrun ts).trans hrun₂, by rw [hcount]; omega, ?_, ?_,
      hcat₂.trans hcat, htxn₂.trans htxn⟩
    · intro t' ht'
      rcases List.mem_cons.1 ht' with rfl | ht'
      · refine htable.congr (hsame₂ _ hnot) ?_
        rw [Int64.le_iff_toInt_le]
        omega
      · exact htables t' ht'
    · intro q hq
      rw [List.map_cons, List.mem_cons, not_or] at hq
      exact (hsame q (Ne.symm hq.1)).trans (hsame₂ q hq.2)

/-! ### Restoring all of it -/

/-- The transaction manager after a restore. -/
def restoredManager (nextXid : TransactionId) (clog : CLog) : TransactionManager :=
  (({ TransactionManager.initial with
    nextXid := if FirstNormalTransactionId ≤ nextXid then nextXid else FirstNormalTransactionId
    clog := clog }).rebuildActiveFromClog).resetContext

/-- A checkpoint whose two binary sections and rows can be read back. -/
structure Restorable (ckp : Checkpoint) (c : Catalog) (clog : CLog) (tuples : Str → List Tuple) :
    Prop where
  catalogBytes : ckp.catalogBytes ≠ []
  catalog : (catalogDecode ckp.catalogBytes).run Catalog.initial = (.ok true, c)
  clogBytes : ckp.clogBytes = clogEncode clog
  clogSize : clog.statusMap.size < 2 ^ 32
  names : (ckp.tables.map TableSchema.name).Nodup
  rows : ∀ t ∈ ckp.tables,
    (rowsOf ckp t.name).mapM (restoredTuple t.name) = .ok (tuples t.name)
  room : ckp.lastSeq.toInt + rowCountOf ckp ckp.tables < 2 ^ 63

/-- The engine that a checkpoint gives. -/
structure Restored (ckp : Checkpoint) (c : Catalog) (clog : CLog) (tuples : Str → List Tuple)
    (e : StorageEngine) : Prop where
  catalog : e.catalog = c
  txnMgr : e.txnMgr = restoredManager ckp.nextXid clog
  walSeq : e.walSeq.toInt = ckp.lastSeq.toInt + rowCountOf ckp ckp.tables
  table : ∀ t ∈ ckp.tables, RestoredTable ckp t (tuples t.name) e
  others : ∀ q, q ∉ ckp.tables.map TableSchema.name → NoTable q e

theorem clogEncode_ne_nil (clog : CLog) : clogEncode clog ≠ [] := by
  simp [clogEncode, clogMagic]

theorem catalogEncode_ne_nil (c : Catalog) : catalogEncode c ≠ [] := fun h => by
  have := congrArg List.length h
  simp only [catalogEncode, List.length_append, length_putLE, List.length_nil] at this
  omega

theorem run_restore {ckp : Checkpoint} {c : Catalog} {clog : CLog} {tuples : Str → List Tuple}
    (h : Restorable ckp c clog tuples) (d : Disk) (checkpointInterval : Int32) (clock : Int64) :
    ∃ e, (restore ckp).run (create d checkpointInterval clock) = (.ok (), e) ∧
      Restored ckp c clog tuples e := by
  set e₀ : StorageEngine :=
    { create d checkpointInterval clock with walSeq := ckp.lastSeq, catalog := c } with he₀
  have hcat : (inCatalog (restoreCatalog ckp)).run
      { create d checkpointInterval clock with walSeq := ckp.lastSeq } = (.ok false, e₀) := by
    have hdec : (restoreCatalog ckp).run Catalog.initial = (.ok false, c) := by
      rw [restoreCatalog, catalogFromBinary, if_neg h.catalogBytes, Prog.bind_ok h.catalog]
      rfl
    simp only [inCatalog, Prog.zoom, create, hdec]
    rfl
  obtain ⟨e₁, hrun, hn, htables, hsame, hcat₁, htxn₁⟩ :=
    run_restoreTables h.names h.rows (e := e₀) h.room
  have htxn : (restoreTransactions ckp).run TransactionManager.initial =
      (.ok (), restoredManager ckp.nextXid clog) := by
    have hclog : (clogDecode (clogEncode clog) CLog.empty).2 = clog := by
      rw [clogDecode_encode h.clogSize]
    rw [restoreTransactions, Prog.bind_ok (Prog.run_modify _ _), restoreClog, h.clogBytes,
      if_pos (clogEncode_ne_nil clog), Prog.bind_ok (Prog.run_modify _ _),
      Prog.bind_ok (Prog.run_modify _ _), Prog.run_modify]
    have hnext : (restoreNextXid ckp TransactionManager.initial).clog = CLog.empty := by
      rw [restoreNextXid]
      split <;> rfl
    simp only [hnext, hclog]
    rw [restoreNextXid, restoredManager]
    by_cases hnormal : FirstNormalTransactionId ≤ ckp.nextXid
    · simp only [if_pos hnormal]
    · simp only [if_neg hnormal]
      rfl
  refine ⟨e₁.setTxnMgr (restoredManager ckp.nextXid clog), ?_, hcat₁, rfl, hn, fun t ht => ?_,
    fun q hq => ?_⟩
  · rw [restore, Prog.bind_ok (Prog.run_modify _ _), Prog.bind_ok hcat, Prog.bind_ok hrun]
    have : e₁.txnMgr = TransactionManager.initial := htxn₁
    simp only [inTxn, Prog.zoom, this, htxn]
  · exact (htables t ht).congr ⟨rfl, rfl, rfl, rfl⟩ (Int64.le_refl _)
  · obtain ⟨h₁, h₂, h₃, h₄⟩ := hsame q hq
    exact ⟨h₁.trans (by simp [he₀, create]), h₂.trans (by simp [he₀, create]),
      h₃.trans (by simp [he₀, create]), h₄.trans (by simp [he₀, create])⟩

/-! ### The checkpoint file -/

theorem Restorable.binary {ckp : Checkpoint} {c : Catalog} {clog : CLog} {tuples : Str → List Tuple}
    (h : Restorable ckp c clog tuples) : ckp.Binary where
  clog := by
    rw [h.clogBytes, List.isPrefixOf_iff_prefix]
    exact List.prefix_append _ _
  catalog := h.catalogBytes

theorem names_withoutDefaults (ts : List TableSchema) :
    (ts.map TableSchema.withoutDefaults).map TableSchema.name = ts.map TableSchema.name := by
  rw [List.map_map]
  rfl

theorem rowCountOf_reloaded (ckp : Checkpoint) :
    rowCountOf ckp.reloaded ckp.reloaded.tables = rowCountOf ckp ckp.tables := by
  rw [rowCountOf, show ckp.reloaded.tables = ckp.tables.map TableSchema.withoutDefaults from rfl,
    List.map_map]
  rfl

theorem Restorable.reloaded {ckp : Checkpoint} {c : Catalog} {clog : CLog}
    {tuples : Str → List Tuple} (h : Restorable ckp c clog tuples) :
    Restorable ckp.reloaded c clog tuples where
  catalogBytes := h.catalogBytes
  catalog := h.catalog
  clogBytes := h.clogBytes
  clogSize := h.clogSize
  names := by
    rw [show ckp.reloaded.tables = ckp.tables.map TableSchema.withoutDefaults from rfl,
      names_withoutDefaults]
    exact h.names
  rows t ht := by
    obtain ⟨t₀, ht₀, rfl⟩ := List.mem_map.1 ht
    exact h.rows t₀ ht₀
  room := by
    rw [rowCountOf_reloaded]
    exact h.room

/-- A directory with a saved checkpoint: it is restored, then the records above it are replayed. -/
theorem run_load_saved {ckp : Checkpoint} {c : Catalog} {clog : CLog} {tuples : Str → List Tuple}
    (hfits : ckp.Fits) (h : Restorable ckp c clog tuples) {d : Disk}
    (hd : d.checkpointBin = some (CheckpointManager.save ckp)) (checkpointInterval : Int32)
    (clock : Int64) : ∃ e, Restored ckp.reloaded c clog tuples e ∧
      load.run (create d checkpointInterval clock) =
        (Prog.forEach replayRecord (WriteAheadLogV3.replay ⟨0⟩ d ckp.lastSeq).1).run e := by
  have hckp : CheckpointManager.load d.checkpointBin d.checkpointJson = ckp.reloaded := by
    rw [hd]
    exact CheckpointManager.ofFile_save hfits h.binary
  obtain ⟨e, hrun, hres⟩ := run_restore h.reloaded d checkpointInterval clock
  refine ⟨{ e with wal := (e.wal.replay d ckp.lastSeq).2 }, ?_,
    @run_load _ d _ _ ckp.reloaded hckp hrun⟩
  exact {
    catalog := hres.catalog
    txnMgr := hres.txnMgr
    walSeq := hres.walSeq
    table := fun t ht => (hres.table t ht).congr ⟨rfl, rfl, rfl, rfl⟩ (Int64.le_refl _)
    others := fun q hq => ⟨(hres.others q hq).tables, (hres.others q hq).data,
      (hres.others q hq).rowIds, (hres.others q hq).indexes⟩ }

/-! ### Checkpoints that an engine takes -/

/-- The tables of an engine are named by their keys. -/
structure Named (e : StorageEngine) : Prop where
  tables : ∀ (q : Str) (t : TableSchema), e.tables[q]? = some t → t.name = q
  domain : ∀ q, q ∈ e.tables → q ∈ e.data

instance (e : StorageEngine) : Decidable e.Named :=
  decidable_of_iff ((∀ p ∈ e.tables.toList, p.2.name = p.1) ∧ ∀ q ∈ e.tables.keys, q ∈ e.data)
    ⟨fun ⟨h₁, h₂⟩ => ⟨OrderedMap.forall_getElem?_iff.2 h₁, fun q hq => h₂ q (Std.ExtTreeMap.mem_keys.2 hq)⟩,
      fun ⟨h₁, h₂⟩ => ⟨OrderedMap.forall_getElem?_iff.1 h₁, fun q hq => h₂ q (Std.ExtTreeMap.mem_keys.1 hq)⟩⟩

/-- What the checkpoint of an engine holds. -/
structure TakenFrom (e : StorageEngine) (ckp : Checkpoint) : Prop where
  lastSeq : ckp.lastSeq = e.walSeq
  tables : ckp.tables = e.tables.values
  rows : ∀ q ∈ e.tables, e.tableCheckpoint q = .ok (q, rowsOf ckp q)
  rowIds : ckp.rowIdCounters = e.tables.map fun name _ => e.rowIds.getD name 0
  indexes : ckp.indexesData = e.indexes.filter fun name _ => e.tables.contains name
  nextXid : ckp.nextXid = e.txnMgr.nextXid
  clogBytes : ckp.clogBytes = clogEncode e.txnMgr.clog
  catalogBytes : ckp.catalogBytes = catalogEncode e.catalog

variable {e : StorageEngine} {ckp : Checkpoint}

theorem fst_of_tableCheckpoint {q : Str} {p : Str × List (Int64 × Row)}
    (h : e.tableCheckpoint q = .ok p) : p.1 = q := by
  rw [tableCheckpoint] at h
  split at h
  · obtain ⟨rows, -, rfl⟩ := ExceptList.map_ok_iff.1 h
    rfl
  · cases h
    rfl

theorem takenFrom_toCheckpoint (h : e.toCheckpoint = .ok ckp) : TakenFrom e ckp := by
  rw [toCheckpoint] at h
  obtain ⟨rows, hrows, h⟩ := ExceptList.bind_ok_iff.1 h
  cases h
  refine ⟨rfl, rfl, fun q hq => ?_, rfl, rfl, rfl, rfl, rfl⟩
  have hkeys : rows.map Prod.fst = e.tables.keys := by
    have := ExceptList.map_of_mapM_ok (fun (q : Str) _ h => fst_of_tableCheckpoint h) hrows
    rwa [List.map_id'] at this
  obtain ⟨p, hp, hf⟩ := ExceptList.ok_of_mapM_ok hrows (Std.ExtTreeMap.mem_keys.2 hq)
  have hdistinct : rows.Pairwise fun a b => ¬ compare a.1 b.1 = .eq := by
    have := Std.ExtTreeMap.distinct_keys (t := e.tables)
    rwa [← hkeys, List.pairwise_map] at this
  have hget : (rows.foldl (fun (m : StrMap (List (Int64 × Row))) p => m.insert p.1 p.2) ∅)[q]? =
      some p.2 := by
    rw [OrderedMap.foldl_insert_eq_ofList, OrderedMap.getElem?_ofList hdistinct,
      ← fst_of_tableCheckpoint hf]
    exact hp
  rw [hf, rowsOf, Std.ExtTreeMap.getD_eq_getD_getElem?, hget, Option.getD_some,
    ← fst_of_tableCheckpoint hf]

theorem mem_tableRows (h : e.toCheckpoint = .ok ckp) {k : Str} :
    k ∈ ckp.tableRows ↔ k ∈ e.tables := by
  rw [toCheckpoint] at h
  obtain ⟨rows, hrows, h⟩ := ExceptList.bind_ok_iff.1 h
  cases h
  have hkeys : rows.map Prod.fst = e.tables.keys := by
    have := ExceptList.map_of_mapM_ok (fun (q : Str) _ h => fst_of_tableCheckpoint h) hrows
    rwa [List.map_id'] at this
  rw [OrderedMap.foldl_insert_eq_ofList, Std.ExtTreeMap.mem_ofList, hkeys, List.contains_iff_mem,
    Std.ExtTreeMap.mem_keys]

theorem getElem?_tableRows (h : e.toCheckpoint = .ok ckp) {k : Str} {rows : List (Int64 × Row)}
    (hrows : ckp.tableRows[k]? = some rows) : k ∈ e.tables ∧ rows = rowsOf ckp k := by
  have hmem : k ∈ ckp.tableRows := by
    rw [Std.ExtTreeMap.mem_iff_isSome_getElem?, hrows]
    rfl
  exact ⟨(mem_tableRows h).1 hmem, by rw [rowsOf, Std.ExtTreeMap.getD_eq_getD_getElem?, hrows]; rfl⟩

theorem Named.mem_values (h : e.Named) {t : TableSchema} :
    t ∈ e.tables.values ↔ e.tables[t.name]? = some t := by
  rw [OrderedMap.values_eq, List.mem_map]
  constructor
  · rintro ⟨⟨q, t'⟩, hmem, rfl⟩
    rw [Std.ExtTreeMap.mem_toList_iff_getElem?_eq_some] at hmem
    rw [h.tables q t' hmem, hmem]
  · intro ht
    exact ⟨(t.name, t), Std.ExtTreeMap.mem_toList_iff_getElem?_eq_some.2 ht, rfl⟩

theorem Named.map_values (h : e.Named) : e.tables.values.map TableSchema.name = e.tables.keys := by
  rw [OrderedMap.values_eq, List.map_map, ← Std.ExtTreeMap.map_fst_toList_eq_keys]
  refine List.map_congr_left fun p hp => ?_
  exact h.tables p.1 p.2 (Std.ExtTreeMap.mem_toList_iff_getElem?_eq_some.1 hp)

/-- The four columns depend on these four fields only. -/
theorem withSystemColumns_header (row : Row) {hdr hdr' : TupleHeader} (hid : hdr.rowId = hdr'.rowId)
    (hxmin : hdr.xmin = hdr'.xmin) (hxmax : hdr.xmax = hdr'.xmax) (hcid : hdr.cid = hdr'.cid) :
    withSystemColumns row hdr = withSystemColumns row hdr' := by
  simp only [withSystemColumns, hid, hxmin, hxmax, hcid]

/-- A tuple that goes through a checkpoint reads as the same row. -/
theorem restoredTuple_of_toRow {t : Tuple} {row : Row} (h : toRow t = .ok row)
    (hb : business row ≠ ∅) (q : Str) :
    ∃ t', restoredTuple q (rowIdOf row, row) = .ok t' ∧ toRow t' = .ok row := by
  rw [restoredTuple, rowIdOf_of_toRow h, headerFromRow_of_toRow h]
  obtain ⟨bs, -, hdec, htup⟩ := rowToTuple_of_toRow h hb { t.hdr with
    rowId := t.hdr.rowId.toInt64.toUInt64, schemaHash := fnv1a16 q, flags := 0, payloadLen := 0
    crc32 := 0 }
  refine ⟨_, htup, toRow_eq_ok.2 ⟨business row, hdec, ?_⟩⟩
  obtain ⟨cols, -, rfl⟩ := toRow_eq_ok.1 h
  rw [withSystemColumns_congr _ (business_business _)]
  refine Eq.trans ?_ (withSystemColumns_header _ (UInt64.toUInt64_toInt64 _).symm rfl rfl rfl)
  exact (withSystemColumns_congr _ (business_withSystemColumns cols t.hdr)).symm

/-- The rows of a table that every checkpoint can bring back. -/
def HasColumns (m : MemTable) : Prop :=
  ∀ t ∈ m.scanAll, ∀ row, toRow t = .ok row → business row ≠ ∅

instance (m : MemTable) : Decidable (HasColumns m) :=
  decidable_of_iff (∀ t ∈ m.scanAll, (toRow t).toOption.all fun row => !(business row).isEmpty) <| by
    refine forall₂_congr fun t _ => ?_
    cases toRow t with
    | error f => exact ⟨fun _ _ h => (by cases h), fun _ => rfl⟩
    | ok row =>
      have hempty : (!(business row).isEmpty) = true ↔ business row ≠ ∅ := by
        rw [Bool.not_eq_true', ← Bool.not_eq_true, ne_eq, Std.ExtTreeMap.isEmpty_iff]
      exact hempty.trans ⟨fun h _ he => by cases he; exact h, fun h => h row rfl⟩

theorem exists_restoredTuples {q : Str} {ts : List Tuple} {rows : RowSet}
    (h : ts.mapM toRow = .ok rows)
    (hb : ∀ t ∈ ts, ∀ row, toRow t = .ok row → business row ≠ ∅) :
    ∃ ts', (rows.map fun row => (rowIdOf row, row)).mapM (restoredTuple q) = .ok ts' ∧
      ts'.mapM toRow = .ok rows := by
  induction ts generalizing rows with
  | nil =>
    cases h
    exact ⟨[], rfl, rfl⟩
  | cons t ts ih =>
    obtain ⟨row, rest, hrow, hrest, rfl⟩ := ExceptList.mapM_cons_ok.1 h
    obtain ⟨t', ht', hrow'⟩ := restoredTuple_of_toRow hrow (hb t (by simp) row hrow) q
    obtain ⟨ts', hts', hrows'⟩ := ih hrest fun t ht => hb t (by simp [ht])
    exact ⟨t' :: ts', ExceptList.mapM_cons_ok.2 ⟨t', ts', ht', hts', rfl⟩,
      ExceptList.mapM_cons_ok.2 ⟨row, rest, hrow', hrows', rfl⟩⟩

/-- The counts and lengths of the engine's checkpoint fit their fields. -/
structure FitsCheckpoint (e : StorageEngine) : Prop where
  file : ∀ ckp, e.toCheckpoint = .ok ckp → ckp.Fits
  catalog : CatalogFits e.catalog

/-- A checkpoint of an engine can be restored, whatever number it is saved under, and its rows are
read as they were. -/
theorem Named.restorable (h : e.Named) (hckp : e.toCheckpoint = .ok ckp) (hfits : FitsCheckpoint e)
    (hreg : e.catalog.Regular) (hcolumns : ∀ (q : Str) (m : MemTable), e.data[q]? = some m → HasColumns m)
    {lastSeq : Int64} (hroom : lastSeq.toInt + rowCountOf ckp ckp.tables < 2 ^ 63) :
    ∃ tuples, Restorable { ckp with lastSeq := lastSeq } e.catalog.reopened e.txnMgr.clog tuples ∧
      ∀ (q : Str) (m : MemTable) (rows : RowSet), q ∈ e.tables → e.data[q]? = some m →
        materializeAll m = .ok rows → (tuples q).mapM toRow = .ok rows := by
  have htaken := takenFrom_toCheckpoint hckp
  have htuples : ∀ q, ∃ ts, q ∈ e.tables → ∃ m rows, e.data[q]? = some m ∧
      materializeAll m = .ok rows ∧ (rowsOf ckp q).mapM (restoredTuple q) = .ok ts ∧
      ts.mapM toRow = .ok rows := by
    intro q
    by_cases hq : q ∈ e.tables
    · have hrows := htaken.rows q hq
      have hm := Std.ExtTreeMap.getElem?_eq_some_getElem (h.domain q hq)
      rw [tableCheckpoint, hm] at hrows
      obtain ⟨l, hl, heq⟩ := ExceptList.map_ok_iff.1 hrows
      obtain ⟨rows, hread, rfl⟩ := ExceptList.map_ok_iff.1 hl
      obtain ⟨ts, hts, hts'⟩ := exists_restoredTuples (q := q) hread (hcolumns q _ hm)
      rw [(Prod.mk.inj heq).2] at hts
      exact ⟨ts, fun _ => ⟨_, rows, hm, hread, hts, hts'⟩⟩
    · exact ⟨[], fun hq' => absurd hq' hq⟩
  choose tuples htuples using htuples
  refine ⟨tuples, ?_, fun q m rows hq hm hread => ?_⟩
  · constructor
    · rw [htaken.catalogBytes]
      exact catalogEncode_ne_nil e.catalog
    · rw [htaken.catalogBytes]
      exact catalogDecode_reopened hfits.catalog hreg
    · exact htaken.clogBytes
    · have := (hfits.file ckp hckp).clogBytes
      rw [htaken.clogBytes] at this
      exact Nat.lt_of_le_of_lt (size_le_length_clogEncode e.txnMgr.clog) this
    · rw [htaken.tables, h.map_values]
      exact Std.ExtTreeMap.nodup_keys
    · intro t ht
      have hq : t.name ∈ e.tables := by
        rw [htaken.tables, h.mem_values] at ht
        rw [Std.ExtTreeMap.mem_iff_isSome_getElem?, ht]
        rfl
      obtain ⟨_, _, _, _, hts, _⟩ := htuples t.name hq
      exact hts
    · exact hroom
  · obtain ⟨m', rows', hm', hread', -, hts⟩ := htuples q hq
    rw [hm] at hm'
    cases hm'
    rw [hread] at hread'
    cases hread'
    exact hts

end StorageEngine
end JiaMiaoDB
