import JiaMiaoDB.Storage.FuzzyCheckpoint

/-!
# What is loaded after an insert and a checkpoint have interleaved

An invariant follows the trace: it says what the checkpoint and the log hold of the insert, from the
order in which its steps and those of the checkpoint have been taken. The load gives the row once in
two kinds of order only.
-/

set_option autoImplicit false

namespace JiaMiaoDB
open ByteFormat BinaryRowCodec Interleaving

namespace Threads
open StorageEngine

/-! ### The engine beside the two threads -/

/-- The engine with the version of the insert put if `p`, and listed in the indexes if `i`. -/
structure View (e : StorageEngine) (q : Str) (m : MemTable) (t : Tuple) (id : Int64) (row : Row)
    (p i : Prop) (x : StorageEngine) : Prop where
  catalog : x.catalog = e.catalog
  txnMgr : x.txnMgr = e.txnMgr
  rowIds : x.rowIds = e.rowIds
  clock : x.clock = e.clock
  put : p → ∃ seq, x.data = e.data.insert q (m.put id t seq)
  notPut : ¬ p → x.data = e.data
  listed : i → x.indexes = mapIndexes e.indexes q (addToIndex id row)
  notListed : ¬ i → x.indexes = e.indexes
  shape : (x.tables[q]?).map TableSchema.shape = (e.tables[q]?).map TableSchema.shape
  tables : ∀ k, q ≠ k → x.tables[k]? = e.tables[k]?

variable {e x : StorageEngine} {q : Str} {m : MemTable} {t : Tuple} {id : Int64} {row : Row}
  {p i : Prop}

theorem View.shapes (h : View e q m t id row p i x) (k : Str) :
    (x.tables[k]?).map TableSchema.shape = (e.tables[k]?).map TableSchema.shape := by
  by_cases hk : q = k
  · rw [← hk]
    exact h.shape
  · rw [h.tables k hk]

theorem View.mem_tables (h : View e q m t id row p i x) {k : Str} : k ∈ x.tables ↔ k ∈ e.tables := by
  rw [Std.ExtTreeMap.mem_iff_isSome_getElem?, Std.ExtTreeMap.mem_iff_isSome_getElem?,
    ← Option.isSome_map, h.shapes, Option.isSome_map]

theorem View.keys (h : View e q m t id row p i x) : x.tables.keys = e.tables.keys :=
  OrderedMap.keys_ext fun _ => h.mem_tables

/-- The other tables are as they were. -/
theorem View.data_of_ne (h : View e q m t id row p i x) {k : Str} (hk : q ≠ k) :
    x.data[k]? = e.data[k]? := by
  by_cases hp : p
  · obtain ⟨seq, hdata⟩ := h.put hp
    simp [hdata, Std.ExtTreeMap.getElem?_insert, hk]
  · rw [h.notPut hp]

theorem View.indexes_of_ne (h : View e q m t id row p i x) {k : Str} (hk : q ≠ k) :
    x.indexes[k]? = e.indexes[k]? := by
  by_cases hi : i
  · rw [h.listed hi, getElem?_mapIndexes, if_neg hk]
  · rw [h.notListed hi]

theorem View.of_eq {x' : StorageEngine} (h : View e q m t id row p i x) (hcat : x'.catalog = x.catalog)
    (htxn : x'.txnMgr = x.txnMgr) (hids : x'.rowIds = x.rowIds) (hclock : x'.clock = x.clock)
    (hdata : x'.data = x.data) (hidx : x'.indexes = x.indexes) (htables : x'.tables = x.tables) :
    View e q m t id row p i x' where
  catalog := hcat.trans h.catalog
  txnMgr := htxn.trans h.txnMgr
  rowIds := hids.trans h.rowIds
  clock := hclock.trans h.clock
  put hp := by
    rw [hdata]
    exact h.put hp
  notPut hp := hdata.trans (h.notPut hp)
  listed hi := hidx.trans (h.listed hi)
  notListed hi := hidx.trans (h.notListed hi)
  shape := by
    rw [htables]
    exact h.shape
  tables := by
    rw [htables]
    exact h.tables

/-- Whatever has been done, some engine looks like it. -/
theorem exists_view [Decidable p] [Decidable i] : ∃ x, View e q m t id row p i x := by
  refine ⟨{ e with
    data := if p then e.data.insert q (m.put id t 0) else e.data
    indexes := if i then mapIndexes e.indexes q (addToIndex id row) else e.indexes }, ?_⟩
  exact {
    catalog := rfl
    txnMgr := rfl
    rowIds := rfl
    clock := rfl
    put := fun hp => ⟨0, if_pos hp⟩
    notPut := fun hp => if_neg hp
    listed := fun hi => if_pos hi
    notListed := fun hi => if_neg hi
    shape := rfl
    tables := fun _ _ => rfl }

/-- The tuple of the insert, under an id that no version has, and what the table reads without
it. -/
structure Incoming (e : StorageEngine) (q : Str) (m : MemTable) (t : Tuple) (id : Int64) (row row' : Row)
    (rows : RowSet) : Prop where
  data : e.data[q]? = some m
  tuple : rowToTuple row (headerFromRow q id row) = .ok t
  row : toRow t = .ok row'
  rows : materializeAll m = .ok rows
  new : ∀ (k : InternalKey) (t' : Tuple), m.entries[k]? = some t' →
    k.userKey ≠ makeUserKey m.name id

section Rows
variable {row' : Row} {rows : RowSet}

theorem Incoming.perm_put (h : Incoming e q m t id row row' rows) (seq : UInt64) :
    (m.put id t seq).scanAll.Perm (t :: m.scanAll) := by
  have hfree : m.entries[(⟨makeUserKey m.name id, seq⟩ : InternalKey)]? = none := by
    cases hk : m.entries[(⟨makeUserKey m.name id, seq⟩ : InternalKey)]? with
    | none => rfl
    | some t' => exact absurd rfl (h.new _ t' hk)
  have := MemTable.perm_put (t := t) hfree
  rwa [normalize_rowToTuple h.tuple] at this

/-- The rows that are read with the tuple, or without it. -/
theorem View.reads [Decidable p] (h : View e q m t id row p i x)
    (hin : Incoming e q m t id row row' rows) : ∃ mx rowsx, x.data[q]? = some mx ∧
      materializeAll mx = .ok rowsx ∧ rowsx.Perm (if p then row' :: rows else rows) := by
  by_cases hp : p
  · obtain ⟨seq, hdata⟩ := h.put hp
    have hread : (t :: m.scanAll).mapM toRow = .ok (row' :: rows) :=
      ExceptList.mapM_cons_ok.2 ⟨row', rows, hin.row, hin.rows, rfl⟩
    obtain ⟨rowsx, hrowsx, hperm⟩ := ExceptList.mapM_perm (hin.perm_put seq).symm hread
    rw [if_pos hp]
    exact ⟨m.put id t seq, rowsx, by simp [hdata], hrowsx, hperm.symm⟩
  · rw [if_neg hp]
    exact ⟨m, rows, by rw [h.notPut hp, hin.data], hin.rows, .refl rows⟩

/-- Every table can be copied. -/
theorem View.tableCheckpoint [Decidable p] (h : View e q m t id row p i x)
    (hin : Incoming e q m t id row row' rows)
    (hread : ∀ k ∈ e.tables.keys, ∃ rows, e.tableCheckpoint k = .ok (k, rows)) {k : Str}
    (hk : k ∈ e.tables.keys) : ∃ rows, x.tableCheckpoint k = .ok (k, rows) := by
  by_cases hq : q = k
  · subst hq
    obtain ⟨mx, rowsx, hmx, hrowsx, -⟩ := h.reads hin
    rw [StorageEngine.tableCheckpoint, hmx]
    exact ⟨_, ExceptList.map_ok_iff.2 ⟨_, ExceptList.map_ok_iff.2 ⟨rowsx, hrowsx, rfl⟩, rfl⟩⟩
  · obtain ⟨rows, hrows⟩ := hread k hk
    rw [StorageEngine.tableCheckpoint] at hrows ⊢
    rw [h.data_of_ne hq]
    exact ⟨rows, hrows⟩

end Rows

/-! ### The invariant -/

abbrev takeNumber : Step := .inl .takeNumber
abbrev appendRecord : Step := .inl .appendRecord
abbrev putTuple : Step := .inl .putTuple
abbrev updateIndex : Step := .inl .updateIndex
abbrev readLastSeq : Step := .inr .readLastSeq
abbrev copyOf (name : Str) : Step := .inr (.copyTable name)
abbrev truncateLog : Step := .inr .truncateLog
abbrev resetCounter : Step := .inr .resetCounter

/-- One for a step that has been taken. -/
def count (c : Prop) [Decidable c] : Int := if c then 1 else 0

/-- The numbers that the insert has drawn. -/
def taken (done : List Step) : Int := count (takeNumber ∈ done) + count (putTuple ∈ done)

/-- The log record, when it has been written. -/
def written (q : Str) (id : Int64) (row : Row) (number clock : Int64) (done : List Step) :
    List WALRecordV3 :=
  if appendRecord ∈ done then [insertRecord q id row number clock] else []

/-- The engine when `done` has been run. The log is known above the numbers that count: all from
the counter of `e` on, after the truncation only those above the checkpoint. -/
structure EngineSide (e : StorageEngine) (q : Str) (m : MemTable) (t : Tuple) (id : Int64)
    (row : Row) (trace done : List Step) (x : StorageEngine) (n lastSeq : Int64) : Prop where
  view : View e q m t id row (putTuple ∈ done) (updateIndex ∈ done) x
  number : takeNumber ∈ done →
    n = (if Before trace resetCounter takeNumber then e.wal.seq else e.walSeq) + 1
  counter : resetCounter ∉ done → x.walSeq.toInt = e.walSeq.toInt + taken done
  reset : resetCounter ∈ done → takeNumber ∉ done → x.walSeq = e.wal.seq
  bound : x.walSeq.toInt ≤ max e.walSeq.toInt e.wal.seq.toInt + taken done
  wal : x.wal.seq = if appendRecord ∈ done then n else e.wal.seq
  log : ∃ records, x.dir.disk.walLog = encodeLog records ∧ (∀ r ∈ records, r.Fits) ∧
    ∀ k, e.walSeq ≤ k → (truncateLog ∈ done → k = lastSeq) →
      records.filter (fun r => k < r.seq) =
        (written q id row n e.clock done).filter fun r => k < r.seq

/-- The tables that have been copied. -/
def copiedNames (steps : List CheckpointStep) : List Str :=
  steps.filterMap fun
    | .copyTable name => some name
    | _ => none

/-- A checkpoint whose tables have been copied from `seen`. -/
def CopiedFrom (seen : StorageEngine) (names : List Str) (ckp : Checkpoint) : Prop :=
  ckp = { copyTables seen names { Checkpoint.empty with
      lastSeq := ckp.lastSeq, timestamp := seen.clock } with
    nextXid := ckp.nextXid
    clogBytes := ckp.clogBytes
    catalogBytes := ckp.catalogBytes }

/-- The checkpoint and its file when `steps` have been run. -/
structure CheckpointSide (e : StorageEngine) (q : Str) (m : MemTable) (t : Tuple) (id : Int64)
    (row : Row) (trace : List Step) (steps : List CheckpointStep) (ckp : Checkpoint)
    (file : Option Bytes) : Prop where
  lastSeq : .readLastSeq ∈ steps → ckp.lastSeq.toInt = e.walSeq.toInt +
    (count (Before trace takeNumber readLastSeq) + count (Before trace putTuple readLastSeq))
  copied : .readLastSeq ∈ steps → ∃ seen, View e q m t id row (Before trace putTuple (copyOf q))
    (Before trace updateIndex (copyOf q)) seen ∧ CopiedFrom seen (copiedNames steps) ckp
  transactions : .copyTransactions ∈ steps →
    ckp.nextXid = e.txnMgr.nextXid ∧ ckp.clogBytes = clogEncode e.txnMgr.clog
  catalog : .copyCatalog ∈ steps → ckp.catalogBytes = catalogEncode e.catalog
  saved : .save ∈ steps → file = some (CheckpointManager.save ckp)

structure Progress (e : StorageEngine) (q : Str) (m : MemTable) (t : Tuple) (id : Int64) (row : Row)
    (trace done : List Step) (s : Threads) : Prop where
  engine : EngineSide e q m t id row trace done s.engine s.number s.ckp.lastSeq
  checkpoint : CheckpointSide e q m t id row trace (rights done) s.ckp s.engine.dir.disk.checkpointBin

section Steps
variable {trace done rest : List Step} {s : Threads}

theorem nodup_insertSteps : insertSteps.Nodup := by decide

theorem nodup_checkpointSteps (e : StorageEngine) : (checkpointSteps e.tables.keys).Nodup := by
  have hnames : (e.tables.keys.map CheckpointStep.copyTable).Nodup :=
    Std.ExtTreeMap.nodup_keys.map fun _ _ h => CheckpointStep.copyTable.inj h
  simp [checkpointSteps, List.nodup_append, hnames]

theorem mem_concat_of_ne {a b : Step} (h : b ≠ a) : b ∈ done ++ [a] ↔ b ∈ done := by simp [h]

theorem before_due {a c : Step} (htrace : TraceOf e trace) (hsplit : trace = done ++ a :: rest) :
    Before trace c a ↔ c ∈ done := by
  subst hsplit
  cases a with
  | inl a => exact htrace.before_inl nodup_insertSteps
  | inr a => exact htrace.before_inr (nodup_checkpointSteps e)

/-! ### The steps of the insert -/

/-- Where the insert stands when one of its steps is due. -/
theorem insert_due {a : InsertStep} (htrace : TraceOf e trace) (hsplit : trace = done ++ .inl a :: rest)
    (b : InsertStep) : .inl b ∈ done ↔ b ∈ insertSteps.takeWhile (· ≠ a) := by
  subst hsplit
  rw [← (htrace.inl nodup_insertSteps).1, mem_lefts]

/-- The insert leaves the checkpoint alone. -/
theorem CheckpointSide.insert {ckp : Checkpoint} {file : Option Bytes} {a : InsertStep}
    (h : CheckpointSide e q m t id row trace (rights done) ckp file) :
    CheckpointSide e q m t id row trace (rights (done ++ [.inl a])) ckp file := by
  rwa [rights_append, rights_inl, rights_nil, List.append_nil]

theorem ne_max_of_bound {n : Int64} {b c k : Int} (h : n.toInt ≤ max b c + k)
    (hroom : max b c + 2 < 2 ^ 63) (hk : k ≤ 1) : n ≠ Int64.maxValue := fun he => by
  rw [he, Int64.toInt_maxValue] at h
  omega

theorem step_takeNumber (h : Progress e q m t id row trace done s) (htrace : TraceOf e trace)
    (hsplit : trace = done ++ takeNumber :: rest)
    (hroom : max e.walSeq.toInt e.wal.seq.toInt + 2 < 2 ^ 63) :
    ∃ s', (runInsert q id row .takeNumber).run s = (.ok (), s') ∧
      Progress e q m t id row trace (done ++ [takeNumber]) s' := by
  obtain ⟨hN, hW, hP⟩ : takeNumber ∉ done ∧ appendRecord ∉ done ∧ putTuple ∉ done := by
    simp only [takeNumber, appendRecord, putTuple, insert_due htrace hsplit]
    decide
  have hmem {b : Step} (hb : b ≠ takeNumber) : b ∈ done ++ [takeNumber] ↔ b ∈ done :=
    mem_concat_of_ne hb
  have htaken : taken done = 0 := by simp [taken, count, hN, hP]
  have htaken' : taken (done ++ [takeNumber]) = 1 := by simp [taken, count, hP]
  have hmax : s.engine.walSeq ≠ Int64.maxValue :=
    ne_max_of_bound (k := taken done) h.engine.bound hroom (by rw [htaken]; decide)
  have hsucc := FixedWidth.toInt_succ hmax
  refine ⟨⟨{ s.engine with walSeq := s.engine.walSeq + 1 }, s.engine.walSeq + 1, s.ckp⟩,
    by rw [runInsert, Prog.bind_ok (run_onEngine (run_nextSeq hmax))]; rfl, ?_, h.checkpoint.insert⟩
  have hbefore : Before trace resetCounter takeNumber ↔ resetCounter ∈ done :=
    before_due htrace hsplit
  constructor
  · simp only [hmem (b := putTuple) (by decide), hmem (b := updateIndex) (by decide)]
    exact h.engine.view.of_eq rfl rfl rfl rfl rfl rfl rfl
  · intro _
    by_cases hR : resetCounter ∈ done
    · rw [if_pos (hbefore.2 hR)]
      exact congrArg (· + 1) (h.engine.reset hR hN)
    · rw [if_neg (mt hbefore.1 hR)]
      have := h.engine.counter hR
      rw [htaken, Int.add_zero] at this
      exact congrArg (· + 1) (Int64.toInt_inj.1 this)
  · intro hR
    have := h.engine.counter (mt (hmem (by decide)).2 hR)
    rw [htaken] at this
    simp only [hsucc, htaken', this]
    omega
  · intro _ hnot
    exact absurd (by simp) hnot
  · have := h.engine.bound
    rw [htaken] at this
    simp only [hsucc, htaken']
    omega
  · have := h.engine.wal
    rw [if_neg hW] at this
    rw [if_neg (mt (hmem (by decide)).1 hW)]
    exact this
  · obtain ⟨records, hlog, hfits, hkept⟩ := h.engine.log
    refine ⟨records, hlog, hfits, fun n hn hT => ?_⟩
    rw [hkept n hn fun hT' => hT ((hmem (by decide)).2 hT'), written, written, if_neg hW,
      if_neg (mt (hmem (by decide)).1 hW)]

/-- A step of the insert draws a number or it does not. -/
theorem taken_concat_of_ne {a : Step} (hN : takeNumber ≠ a) (hP : putTuple ≠ a) :
    taken (done ++ [a]) = taken done := by
  simp only [taken, mem_concat_of_ne hN, mem_concat_of_ne hP]

theorem step_appendRecord (h : Progress e q m t id row trace done s) (htrace : TraceOf e trace)
    (hsplit : trace = done ++ appendRecord :: rest) (hshort : q.length < 2 ^ 16)
    (hfits : InsertFits id row) :
    ∃ s', (runInsert q id row .appendRecord).run s = (.ok (), s') ∧
      Progress e q m t id row trace (done ++ [appendRecord]) s' := by
  have hW : appendRecord ∉ done := by
    simp only [appendRecord, insert_due htrace hsplit]
    decide
  have hmem {b : Step} (hb : b ≠ appendRecord) : b ∈ done ++ [appendRecord] ↔ b ∈ done :=
    mem_concat_of_ne hb
  have htaken : taken (done ++ [appendRecord]) = taken done :=
    taken_concat_of_ne (by decide) (by decide)
  set r := insertRecord q id row s.number e.clock with hr
  have hclock : s.engine.clock = e.clock := h.engine.view.clock
  refine ⟨⟨s.engine.append r, s.number, s.ckp⟩, ?_, ?_, ?_⟩
  · rw [runInsert, Prog.run_modify, hclock]
    rfl
  · constructor
    · simp only [hmem (b := putTuple) (by decide), hmem (b := updateIndex) (by decide)]
      exact h.engine.view.of_eq rfl rfl rfl rfl rfl rfl rfl
    · exact fun hN => h.engine.number ((hmem (by decide)).1 hN)
    · intro hR
      rw [htaken]
      exact h.engine.counter (mt (hmem (by decide)).2 hR)
    · exact fun hR hN => h.engine.reset ((hmem (by decide)).1 hR) (mt (hmem (by decide)).2 hN)
    · rw [htaken]
      exact h.engine.bound
    · rw [if_pos (by simp)]
      rfl
    · obtain ⟨records, hlog, hrecords, hkept⟩ := h.engine.log
      refine ⟨records ++ [r], ?_, ?_, fun k hk hT => ?_⟩
      · simp [StorageEngine.append, DiskEvent.apply, DiskEvent.write, DiskEvent.bytes, hlog, encodeLog]
      · intro r' hr'
        rcases List.mem_append.1 hr' with hr' | hr'
        · exact hrecords r' hr'
        · rw [List.mem_singleton.1 hr']
          exact ⟨hshort, hfits.payload⟩
      · have := hkept k hk fun hT' => hT ((hmem (by decide)).2 hT')
        rw [written, if_neg hW, List.filter_nil] at this
        rw [List.filter_append, this, List.nil_append, written, if_pos (by simp)]
  · have hfile : (s.engine.append r).dir.disk.checkpointBin = s.engine.dir.disk.checkpointBin := by
      simp [StorageEngine.append, DiskEvent.apply, DiskEvent.write]
    rw [hfile]
    exact h.checkpoint.insert

theorem step_putTuple (h : Progress e q m t id row trace done s) (htrace : TraceOf e trace)
    (hsplit : trace = done ++ putTuple :: rest)
    (hroom : max e.walSeq.toInt e.wal.seq.toInt + 2 < 2 ^ 63) (hm : e.data[q]? = some m)
    (ht : rowToTuple row (headerFromRow q id row) = .ok t) :
    ∃ s', (runInsert q id row .putTuple).run s = (.ok (), s') ∧
      Progress e q m t id row trace (done ++ [putTuple]) s' := by
  obtain ⟨hN, hP⟩ : takeNumber ∈ done ∧ putTuple ∉ done := by
    simp only [takeNumber, putTuple, insert_due htrace hsplit]
    decide
  have hmem {b : Step} (hb : b ≠ putTuple) : b ∈ done ++ [putTuple] ↔ b ∈ done :=
    mem_concat_of_ne hb
  have htaken : taken done = 1 := by simp [taken, count, hN, hP]
  have htaken' : taken (done ++ [putTuple]) = 2 := by simp [taken, count, hN]
  have hmax : s.engine.walSeq ≠ Int64.maxValue :=
    ne_max_of_bound (k := taken done) h.engine.bound hroom htaken.le
  have hsucc := FixedWidth.toInt_succ hmax
  have hdata : s.engine.data = e.data := h.engine.view.notPut hP
  have hm' : s.engine.data[q]? = some m := by rw [hdata, hm]
  have hput := run_putVersion ht hm' hmax
  refine ⟨s.setEngine { s.engine with
    walSeq := s.engine.walSeq + 1
    data := s.engine.data.insert q (m.put id t (s.engine.walSeq + 1).toUInt64) },
    run_onEngine hput, ?_, h.checkpoint.insert⟩
  have hview := h.engine.view
  constructor
  · simp only [hmem (b := updateIndex) (by decide)]
    exact {
      catalog := hview.catalog
      txnMgr := hview.txnMgr
      rowIds := hview.rowIds
      clock := hview.clock
      put := fun _ => ⟨(s.engine.walSeq + 1).toUInt64, by simp only [setEngine, hdata]⟩
      notPut := fun hnot => absurd (by simp) hnot
      listed := hview.listed
      notListed := hview.notListed
      shape := hview.shape
      tables := hview.tables }
  · exact fun hN => h.engine.number ((hmem (by decide)).1 hN)
  · intro hR
    have := h.engine.counter (mt (hmem (by decide)).2 hR)
    rw [htaken] at this
    rw [htaken']
    simp only [setEngine, hsucc, this]
    omega
  · exact fun _ hnot => absurd ((hmem (by decide)).2 hN) hnot
  · have := h.engine.bound
    rw [htaken] at this
    rw [htaken']
    simp only [setEngine, hsucc]
    omega
  · simp only [hmem (b := appendRecord) (by decide)]
    exact h.engine.wal
  · obtain ⟨records, hlog, hrecords, hkept⟩ := h.engine.log
    refine ⟨records, hlog, hrecords, fun k hk hT => ?_⟩
    simp only [written, hmem (b := appendRecord) (by decide)]
    exact hkept k hk fun hT' => hT ((hmem (by decide)).2 hT')

theorem step_updateIndex (h : Progress e q m t id row trace done s) (htrace : TraceOf e trace)
    (hsplit : trace = done ++ updateIndex :: rest) :
    ∃ s', (runInsert q id row .updateIndex).run s = (.ok (), s') ∧
      Progress e q m t id row trace (done ++ [updateIndex]) s' := by
  have hI : updateIndex ∉ done := by
    simp only [updateIndex, insert_due htrace hsplit]
    decide
  have hmem {b : Step} (hb : b ≠ updateIndex) : b ∈ done ++ [updateIndex] ↔ b ∈ done :=
    mem_concat_of_ne hb
  have htaken : taken (done ++ [updateIndex]) = taken done :=
    taken_concat_of_ne (by decide) (by decide)
  have hview := h.engine.view
  refine ⟨_, Prog.run_modify _ _, ?_, ?_⟩
  · simp only [setEngine, setRowCount_eq, updateIndexes_eq]
    constructor
    · simp only [hmem (b := putTuple) (by decide)]
      exact {
        catalog := hview.catalog
        txnMgr := hview.txnMgr
        rowIds := hview.rowIds
        clock := hview.clock
        put := hview.put
        notPut := hview.notPut
        listed := fun _ => congrArg (fun i => mapIndexes i q _) (hview.notListed hI)
        notListed := fun hnot => absurd (by simp) hnot
        shape := (shape_countRows _ _ q q).trans hview.shape
        tables := fun k hk => (countRows_of_ne hk).trans (hview.tables k hk) }
    · exact fun hN => h.engine.number ((hmem (by decide)).1 hN)
    · intro hR
      rw [htaken]
      exact h.engine.counter (mt (hmem (by decide)).2 hR)
    · exact fun hR hN => h.engine.reset ((hmem (by decide)).1 hR) (mt (hmem (by decide)).2 hN)
    · rw [htaken]
      exact h.engine.bound
    · simp only [hmem (b := appendRecord) (by decide)]
      exact h.engine.wal
    · obtain ⟨records, hlog, hrecords, hkept⟩ := h.engine.log
      refine ⟨records, hlog, hrecords, fun k hk hT => ?_⟩
      simp only [written, hmem (b := appendRecord) (by decide)]
      exact hkept k hk fun hT' => hT ((hmem (by decide)).2 hT')
  · simp only [setEngine, setRowCount_eq, updateIndexes_eq]
    exact h.checkpoint.insert

/-! ### The steps of the checkpoint -/

/-- The checkpoint leaves the engine alone until it rewrites the log. -/
theorem EngineSide.skip {x x' : StorageEngine} {n lastSeq lastSeq' : Int64} {b : CheckpointStep}
    (h : EngineSide e q m t id row trace done x n lastSeq) (hT : truncateLog ∉ done)
    (hb : b ≠ .truncateLog) (hb' : b ≠ .resetCounter) (dir : Dir) (hx : x' = { x with dir := dir })
    (hdir : dir.disk.walLog = x.dir.disk.walLog) :
    EngineSide e q m t id row trace (done ++ [.inr b]) x' n lastSeq' := by
  subst hx
  have hmem {c : InsertStep} : .inl c ∈ done ++ [.inr b] ↔ .inl c ∈ done :=
    mem_concat_of_ne Sum.inl_ne_inr
  have hR : resetCounter ∈ done ++ [.inr b] ↔ resetCounter ∈ done :=
    mem_concat_of_ne fun he => hb' (Sum.inr.inj he).symm
  have hT' : truncateLog ∉ done ++ [.inr b] := fun hmem' =>
    hT ((mem_concat_of_ne fun he => hb (Sum.inr.inj he).symm).1 hmem')
  have htaken : taken (done ++ [.inr b]) = taken done :=
    taken_concat_of_ne Sum.inl_ne_inr Sum.inl_ne_inr
  obtain ⟨records, hlog, hrecords, hkept⟩ := h.log
  constructor
  · simp only [hmem]
    exact h.view.of_eq rfl rfl rfl rfl rfl rfl rfl
  · exact fun hN => h.number (hmem.1 hN)
  · rw [hR, htaken]
    exact h.counter
  · rw [hR, hmem]
    exact h.reset
  · rw [htaken]
    exact h.bound
  · simp only [hmem]
    exact h.wal
  · refine ⟨records, hdir.trans hlog, hrecords, fun k hk _ => ?_⟩
    simp only [written, hmem]
    exact hkept k hk fun hmem' => absurd hmem' hT

theorem rights_concat (done : List Step) (b : CheckpointStep) :
    rights (done ++ [.inr b]) = rights done ++ [b] := by
  simp

/-- What has been run when a step of the checkpoint is due, by the place of the step. -/
theorem due_of_split {a : CheckpointStep} {before : List CheckpointStep}
    (htrace : TraceOf e trace) (hsplit : trace = done ++ .inr a :: rest)
    (hsteps : ∃ after, checkpointSteps e.tables.keys = before ++ a :: after) :
    rights done = before := by
  subst hsplit
  obtain ⟨after, hsteps⟩ := hsteps
  have hnodup := nodup_checkpointSteps e
  have hnot : a ∉ before := fun hmem => by
    rw [hsteps] at hnodup
    exact (List.nodup_append.1 hnodup).2.2 a hmem a (by simp) rfl
  rw [(htrace.inr hnodup).1, hsteps, takeWhile_ne hnot]

theorem step_readLastSeq (h : Progress e q m t id row trace done s) (htrace : TraceOf e trace)
    (hsplit : trace = done ++ readLastSeq :: rest) :
    ∃ s', (runCheckpoint .readLastSeq).run s = (.ok (), s') ∧
      Progress e q m t id row trace (done ++ [readLastSeq]) s' := by
  have hrights : rights done = [] := due_of_split htrace hsplit ⟨_, rfl⟩
  have hnone {b : CheckpointStep} : .inr b ∉ done := fun hmem => by
    rw [← mem_rights, hrights] at hmem
    cases hmem
  refine ⟨_, Prog.run_modify _ _,
    h.engine.skip hnone (by decide) (by decide) s.engine.dir rfl rfl, ?_⟩
  rw [rights_concat, hrights, List.nil_append]
  constructor
  · intro _
    have := h.engine.counter hnone
    simpa only [taken, before_due htrace hsplit] using this
  · intro _
    obtain ⟨seen, hseen⟩ : ∃ x, View e q m t id row (Before trace putTuple (copyOf q))
      (Before trace updateIndex (copyOf q)) x := exists_view
    refine ⟨seen, hseen, ?_⟩
    simp only [CopiedFrom, copiedNames, copyTables, hseen.clock, h.engine.view.clock]
    simp
  · simp
  · simp
  · simp

theorem copyTables_concat {names : List Str} {name : Str} {schema : TableSchema}
    {rows : List (Int64 × Row)} (hschema : x.tables[name]? = some schema)
    (hrows : x.tableCheckpoint name = .ok (name, rows)) (ckp : Checkpoint) :
    copyTables x (names ++ [name]) ckp =
      addToCheckpoint x schema name rows (copyTables x names ckp) := by
  simp [copyTables, addToCheckpoint, hschema, hrows, Except.toOption]

theorem tableCheckpoint_congr {x' : StorageEngine} {k : Str} (h : x'.data[k]? = x.data[k]?) :
    x'.tableCheckpoint k = x.tableCheckpoint k := by
  rw [tableCheckpoint, tableCheckpoint, h]

/-- Two engines give the same copies of the tables in which they agree. -/
theorem copyTables_congr {x' : StorageEngine} {names : List Str}
    (htables : ∀ k ∈ names, x'.tables[k]? = x.tables[k]?) (hdata : ∀ k ∈ names, x'.data[k]? = x.data[k]?)
    (hindexes : ∀ k ∈ names, x'.indexes[k]? = x.indexes[k]?) (hids : x'.rowIds = x.rowIds)
    (ckp : Checkpoint) : copyTables x' names ckp = copyTables x names ckp := by
  have hschemas : names.filterMap (fun name => x'.tables[name]?) =
      names.filterMap fun name => x.tables[name]? := List.filterMap_congr htables
  simp only [copyTables, hschemas, hids]
  congr 1
  · refine List.foldl_ext _ _ _ fun m k hk => ?_
    rw [tableCheckpoint_congr (hdata k hk)]
  · exact List.foldl_ext _ _ _ fun m k hk => by rw [hindexes k hk]

theorem View.copyTables_eq {x' : StorageEngine} {p' i' : Prop} {names : List Str}
    (h : View e q m t id row p i x) (h' : View e q m t id row p' i' x') (hq : q ∉ names)
    (ckp : Checkpoint) : copyTables x' names ckp = copyTables x names ckp := by
  have hne {k : Str} (hk : k ∈ names) : q ≠ k := fun he => hq (he ▸ hk)
  exact copyTables_congr (fun k hk => (h'.tables k (hne hk)).trans (h.tables k (hne hk)).symm)
    (fun k hk => (h'.data_of_ne (hne hk)).trans (h.data_of_ne (hne hk)).symm)
    (fun k hk => (h'.indexes_of_ne (hne hk)).trans (h.indexes_of_ne (hne hk)).symm)
    (h'.rowIds.trans h.rowIds.symm) ckp

theorem CopiedFrom.concat {names : List Str} {name : Str} {schema : TableSchema}
    {rows : List (Int64 × Row)} {ckp : Checkpoint} (h : CopiedFrom x names ckp)
    (hschema : x.tables[name]? = some schema) (hrows : x.tableCheckpoint name = .ok (name, rows)) :
    CopiedFrom x (names ++ [name]) (addToCheckpoint x schema name rows ckp) := by
  rw [CopiedFrom, copyTables_concat hschema hrows]
  exact congrArg (addToCheckpoint x schema name rows) h

/-- The other sections are free. -/
theorem CopiedFrom.sections {names : List Str} {ckp : Checkpoint} (h : CopiedFrom x names ckp)
    (nextXid : TransactionId) (clogBytes catalogBytes : Bytes) : CopiedFrom x names { ckp with
      nextXid := nextXid, clogBytes := clogBytes, catalogBytes := catalogBytes } := by
  unfold CopiedFrom at h ⊢
  have := congrArg (fun c : Checkpoint => ({ c with
    nextXid := nextXid, clogBytes := clogBytes, catalogBytes := catalogBytes } : Checkpoint)) h
  exact this

/-- Until its table is copied, any engine beside the insert may stand for the one copied from. -/
theorem CopiedFrom.other {x' : StorageEngine} {p' i' : Prop} {names : List Str} {ckp : Checkpoint}
    (h : CopiedFrom x names ckp) (hx : View e q m t id row p i x) (hx' : View e q m t id row p' i' x')
    (hq : q ∉ names) : CopiedFrom x' names ckp := by
  rw [CopiedFrom, hx.copyTables_eq hx' hq, hx'.clock, ← hx.clock]
  exact h

theorem step_copyTable {name : Str} {row' : Row} {rows : RowSet}
    (h : Progress e q m t id row trace done s) (htrace : TraceOf e trace)
    (hsplit : trace = done ++ copyOf name :: rest) (hin : Incoming e q m t id row row' rows)
    (hread : ∀ k ∈ e.tables.keys, ∃ rows, e.tableCheckpoint k = .ok (k, rows))
    (hname : name ∈ e.tables.keys) :
    ∃ s', (runCheckpoint (.copyTable name)).run s = (.ok (), s') ∧
      Progress e q m t id row trace (done ++ [copyOf name]) s' := by
  obtain ⟨names, after, hkeys⟩ := List.append_of_mem hname
  have hrights : rights done = .readLastSeq :: names.map .copyTable :=
    due_of_split htrace hsplit ⟨after.map .copyTable ++ _, by simp [checkpointSteps, hkeys]; rfl⟩
  have hcopied : copiedNames (rights done) = names := by
    rw [hrights]
    simp [copiedNames, List.filterMap_map]
  have hnot : name ∉ names := fun hmem => by
    have := Std.ExtTreeMap.nodup_keys (t := e.tables)
    rw [hkeys] at this
    exact (List.nodup_append.1 this).2.2 name hmem name (by simp) rfl
  have hT : truncateLog ∉ done := by
    rw [← mem_rights, hrights]
    simp
  have hview := h.engine.view
  obtain ⟨trows, hrows⟩ := hview.tableCheckpoint hin hread hname
  have hmem : name ∈ s.engine.tables := hview.mem_tables.2 (Std.ExtTreeMap.mem_keys.1 hname)
  have hschema := Std.ExtTreeMap.getElem?_eq_some_getElem hmem
  set schema := s.engine.tables[name]
  refine ⟨_, run_copyTable hschema hrows,
    h.engine.skip hT (by simp) (by simp) s.engine.dir rfl rfl, ?_⟩
  obtain ⟨seen, hseen, hfrom⟩ := h.checkpoint.copied (by rw [hrights]; simp)
  rw [hcopied] at hfrom
  rw [rights_concat]
  constructor
  · exact fun _ => h.checkpoint.lastSeq (by rw [hrights]; simp)
  · intro _
    have hnames : copiedNames (rights done ++ [.copyTable name]) = names ++ [name] := by
      rw [← hcopied]
      simp [copiedNames]
    rw [hnames]
    by_cases hq : q = name
    · subst hq
      refine ⟨s.engine, ?_, (hfrom.other hseen hview hnot).concat hschema hrows⟩
      simp only [before_due htrace hsplit]
      exact hview
    · refine ⟨seen, hseen, ?_⟩
      have hadd : addToCheckpoint s.engine schema name trows s.ckp =
          addToCheckpoint seen schema name trows s.ckp := by
        simp only [addToCheckpoint, hview.rowIds, hseen.rowIds, hview.indexes_of_ne hq,
          hseen.indexes_of_ne hq]
      simp only [hadd]
      refine hfrom.concat ?_ ?_
      · rw [hseen.tables name hq, ← hview.tables name hq, hschema]
      · rw [tableCheckpoint_congr ((hseen.data_of_ne hq).trans (hview.data_of_ne hq).symm), hrows]
  · rw [hrights]
    simp
  · rw [hrights]
    simp
  · rw [hrights]
    simp

theorem step_copyTransactions (h : Progress e q m t id row trace done s) (htrace : TraceOf e trace)
    (hsplit : trace = done ++ .inr .copyTransactions :: rest) :
    ∃ s', (runCheckpoint .copyTransactions).run s = (.ok (), s') ∧
      Progress e q m t id row trace (done ++ [.inr .copyTransactions]) s' := by
  have hrights : rights done = .readLastSeq :: e.tables.keys.map .copyTable :=
    due_of_split htrace hsplit ⟨_, rfl⟩
  have hT : truncateLog ∉ done := by
    rw [← mem_rights, hrights]
    simp
  have hview := h.engine.view
  refine ⟨_, Prog.run_modify _ _,
    h.engine.skip hT (by decide) (by decide) s.engine.dir rfl rfl, ?_⟩
  rw [rights_concat]
  constructor
  · exact fun _ => h.checkpoint.lastSeq (by rw [hrights]; simp)
  · intro _
    obtain ⟨seen, hseen, hfrom⟩ := h.checkpoint.copied (by rw [hrights]; simp)
    have hnames : copiedNames (rights done ++ [.copyTransactions]) = copiedNames (rights done) := by
      simp [copiedNames]
    rw [hnames]
    exact ⟨seen, hseen, hfrom.sections _ _ _⟩
  · intro _
    rw [← hview.txnMgr]
    exact ⟨rfl, rfl⟩
  · rw [hrights]
    simp
  · rw [hrights]
    simp

theorem step_copyCatalog (h : Progress e q m t id row trace done s) (htrace : TraceOf e trace)
    (hsplit : trace = done ++ .inr .copyCatalog :: rest) :
    ∃ s', (runCheckpoint .copyCatalog).run s = (.ok (), s') ∧
      Progress e q m t id row trace (done ++ [.inr .copyCatalog]) s' := by
  have hrights : rights done =
      .readLastSeq :: (e.tables.keys.map .copyTable ++ [.copyTransactions]) :=
    due_of_split htrace hsplit ⟨_, by simp [checkpointSteps]; rfl⟩
  have hT : truncateLog ∉ done := by
    rw [← mem_rights, hrights]
    simp
  refine ⟨_, Prog.run_modify _ _,
    h.engine.skip hT (by decide) (by decide) s.engine.dir rfl rfl, ?_⟩
  rw [rights_concat]
  constructor
  · exact fun _ => h.checkpoint.lastSeq (by rw [hrights]; simp)
  · intro _
    obtain ⟨seen, hseen, hfrom⟩ := h.checkpoint.copied (by rw [hrights]; simp)
    have hnames : copiedNames (rights done ++ [.copyCatalog]) = copiedNames (rights done) := by
      simp [copiedNames]
    rw [hnames]
    exact ⟨seen, hseen, hfrom.sections _ _ _⟩
  · exact fun _ => h.checkpoint.transactions (by rw [hrights]; simp)
  · intro _
    rw [← h.engine.view.catalog]
  · rw [hrights]
    simp

theorem step_save (h : Progress e q m t id row trace done s) (htrace : TraceOf e trace)
    (hsplit : trace = done ++ .inr .save :: rest) :
    ∃ s', (runCheckpoint .save).run s = (.ok (), s') ∧
      Progress e q m t id row trace (done ++ [.inr .save]) s' := by
  have hrights : rights done =
      .readLastSeq :: (e.tables.keys.map .copyTable ++ [.copyTransactions, .copyCatalog]) :=
    due_of_split htrace hsplit ⟨_, by simp [checkpointSteps]; rfl⟩
  have hT : truncateLog ∉ done := by
    rw [← mem_rights, hrights]
    simp
  have hdisk : (s.engine.dir.push (.saveCheckpoint s.ckp)).disk =
      { s.engine.dir.disk with checkpointBin := some (CheckpointManager.save s.ckp) } := by
    rw [Dir.disk_push]
    rfl
  refine ⟨_, Prog.run_modify _ _, h.engine.skip hT (by decide) (by decide)
    (s.engine.dir.push (.saveCheckpoint s.ckp)) rfl (by rw [hdisk]), ?_⟩
  rw [rights_concat]
  constructor
  · exact fun _ => h.checkpoint.lastSeq (by rw [hrights]; simp)
  · intro _
    obtain ⟨seen, hseen, hfrom⟩ := h.checkpoint.copied (by rw [hrights]; simp)
    have hnames : copiedNames (rights done ++ [.save]) = copiedNames (rights done) := by
      simp [copiedNames]
    rw [hnames]
    exact ⟨seen, hseen, hfrom⟩
  · exact fun _ => h.checkpoint.transactions (by rw [hrights]; simp)
  · exact fun _ => h.checkpoint.catalog (by rw [hrights]; simp)
  · intro _
    simp only [setEngine, saveCheckpoint, hdisk]

/-- The last two steps leave the checkpoint and its file alone. -/
theorem CheckpointSide.skip {steps : List CheckpointStep} {ckp : Checkpoint} {file : Option Bytes}
    {b : CheckpointStep} (h : CheckpointSide e q m t id row trace steps ckp file)
    (hb : b = .truncateLog ∨ b = .resetCounter) :
    CheckpointSide e q m t id row trace (steps ++ [b]) ckp file := by
  have hmem {c : CheckpointStep} (h₁ : c ≠ .truncateLog) (h₂ : c ≠ .resetCounter) :
      c ∈ steps ++ [b] ↔ c ∈ steps := by
    rcases hb with rfl | rfl <;> simp [h₁, h₂]
  have hnames : copiedNames (steps ++ [b]) = copiedNames steps := by
    rcases hb with rfl | rfl <;> simp [copiedNames]
  constructor
  · exact fun hL => h.lastSeq ((hmem (by decide) (by decide)).1 hL)
  · rw [hnames]
    exact fun hL => h.copied ((hmem (by decide) (by decide)).1 hL)
  · exact fun hK => h.transactions ((hmem (by decide) (by decide)).1 hK)
  · exact fun hK => h.catalog ((hmem (by decide) (by decide)).1 hK)
  · exact fun hS => h.saved ((hmem (by decide) (by decide)).1 hS)

theorem count_nonneg (c : Prop) [Decidable c] : 0 ≤ count c := by
  rw [count]
  split <;> decide

theorem step_truncateLog (h : Progress e q m t id row trace done s) (htrace : TraceOf e trace)
    (hsplit : trace = done ++ truncateLog :: rest) :
    ∃ s', (runCheckpoint .truncateLog).run s = (.ok (), s') ∧
      Progress e q m t id row trace (done ++ [truncateLog]) s' := by
  have hrights : rights done =
      .readLastSeq :: (e.tables.keys.map .copyTable ++ [.copyTransactions, .copyCatalog, .save]) :=
    due_of_split htrace hsplit ⟨_, by simp [checkpointSteps]; rfl⟩
  have hT : truncateLog ∉ done := by
    rw [← mem_rights, hrights]
    simp
  have hmem {b : Step} (hb : b ≠ truncateLog) : b ∈ done ++ [truncateLog] ↔ b ∈ done :=
    mem_concat_of_ne hb
  have htaken : taken (done ++ [truncateLog]) = taken done :=
    taken_concat_of_ne (by decide) (by decide)
  have hlast : e.walSeq ≤ s.ckp.lastSeq := by
    have := h.checkpoint.lastSeq (by rw [hrights]; simp)
    have hN := count_nonneg (Before trace takeNumber readLastSeq)
    have hP := count_nonneg (Before trace putTuple readLastSeq)
    rw [Int64.le_iff_toInt_le]
    omega
  obtain ⟨records, hlog, hrecords, hkept⟩ := h.engine.log
  have hfilter := hkept s.ckp.lastSeq hlast fun _ => rfl
  set kept := records.filter (fun r => s.ckp.lastSeq < r.seq) with hk
  have htrunc : s.engine.wal.truncate s.engine.dir.disk s.ckp.lastSeq = (kept, s.engine.wal) := by
    rw [WriteAheadLogV3.truncate, WriteAheadLogV3.replay_encodeLog hrecords (.inl rfl)
      (by rw [hlog, List.append_nil])]
    simp only [← hk, hfilter, written]
    by_cases hW : appendRecord ∈ done
    · rw [if_pos hW, List.filter_singleton]
      have hwal := h.engine.wal
      rw [if_pos hW] at hwal
      cases hc : decide (s.ckp.lastSeq < (insertRecord q id row s.number e.clock).seq)
      · rfl
      · exact congrArg (Prod.mk _) (congrArg WriteAheadLogV3.mk hwal.symm)
    · rw [if_neg hW]
      rfl
  refine ⟨s.setEngine { s.engine with dir := s.engine.dir.push (.rewriteWal kept) }, ?_, ?_, ?_⟩
  · rw [runCheckpoint, Prog.run_modify, htrunc]
  · constructor
    · simp only [hmem (b := putTuple) (by decide), hmem (b := updateIndex) (by decide)]
      exact h.engine.view.of_eq rfl rfl rfl rfl rfl rfl rfl
    · exact fun hN => h.engine.number ((hmem (by decide)).1 hN)
    · rw [hmem (by decide), htaken]
      exact h.engine.counter
    · rw [hmem (by decide), hmem (by decide)]
      exact h.engine.reset
    · rw [htaken]
      exact h.engine.bound
    · simp only [hmem (b := appendRecord) (by decide)]
      exact h.engine.wal
    · refine ⟨kept, ?_, fun r hr => hrecords r (List.mem_filter.1 hr).1, fun k _ hk' => ?_⟩
      · simp [setEngine, DiskEvent.apply, DiskEvent.write, DiskEvent.bytes]
      · have hw : written q id row s.number e.clock (done ++ [truncateLog]) =
            written q id row s.number e.clock done := by
          simp only [written, hmem (b := appendRecord) (by decide)]
        rw [hk' (by simp)]
        change kept.filter (fun r => s.ckp.lastSeq < r.seq) =
          (written q id row s.number e.clock (done ++ [truncateLog])).filter fun r =>
            s.ckp.lastSeq < r.seq
        rw [hw, ← hfilter, hk, List.filter_filter]
        simp only [Bool.and_self]
  · have hfile : (s.engine.dir.push (.rewriteWal kept)).disk.checkpointBin =
        s.engine.dir.disk.checkpointBin := by
      simp [DiskEvent.apply, DiskEvent.write]
    rw [rights_concat]
    simp only [setEngine, hfile]
    exact h.checkpoint.skip (.inl rfl)

theorem step_resetCounter (h : Progress e q m t id row trace done s) (htrace : TraceOf e trace)
    (hsplit : trace = done ++ resetCounter :: rest)
    (hroom : max e.walSeq.toInt e.wal.seq.toInt + 2 < 2 ^ 63) :
    ∃ s', (runCheckpoint .resetCounter).run s = (.ok (), s') ∧
      Progress e q m t id row trace (done ++ [resetCounter]) s' := by
  have hmem {b : Step} (hb : b ≠ resetCounter) : b ∈ done ++ [resetCounter] ↔ b ∈ done :=
    mem_concat_of_ne hb
  have htaken : taken (done ++ [resetCounter]) = taken done :=
    taken_concat_of_ne (by decide) (by decide)
  -- The record is written under a number that has been taken.
  have horder : appendRecord ∈ done → takeNumber ∈ done := by
    have hlefts : lefts done ++ lefts rest = insertSteps := by
      rw [← htrace.left, hsplit]
      simp
    rw [← mem_lefts, ← mem_lefts]
    cases hdone : lefts done with
    | nil => simp
    | cons a l =>
      rw [hdone, List.cons_append] at hlefts
      rw [(List.cons.inj hlefts).1]
      simp
  have hwal := h.engine.wal
  refine ⟨_, Prog.run_modify _ _, ?_, ?_⟩
  · constructor
    · simp only [hmem (b := putTuple) (by decide), hmem (b := updateIndex) (by decide)]
      exact h.engine.view.of_eq rfl rfl rfl rfl rfl rfl rfl
    · exact fun hN => h.engine.number ((hmem (by decide)).1 hN)
    · exact fun hR => absurd (by simp) hR
    · intro _ hN
      rw [if_neg fun hW => hN ((hmem (by decide)).2 (horder hW))] at hwal
      exact hwal
    · rw [htaken]
      simp only [setEngine, hwal]
      have hP := count_nonneg (putTuple ∈ done)
      by_cases hW : appendRecord ∈ done
      · have hN : count (takeNumber ∈ done) = 1 := if_pos (horder hW)
        have hsucc {n : Int64} (hn : n.toInt ≤ max e.walSeq.toInt e.wal.seq.toInt) :
            (n + 1).toInt ≤ max e.walSeq.toInt e.wal.seq.toInt + 1 := by
          rw [FixedWidth.toInt_succ fun he => by rw [he, Int64.toInt_maxValue] at hn; omega]
          omega
        rw [if_pos hW, h.engine.number (horder hW), taken, hN]
        split
        · have := hsucc (n := e.wal.seq) (by omega)
          omega
        · have := hsucc (n := e.walSeq) (by omega)
          omega
      · have hN := count_nonneg (takeNumber ∈ done)
        rw [if_neg hW, taken]
        omega
    · simp only [hmem (b := appendRecord) (by decide)]
      exact hwal
    · obtain ⟨records, hlog, hrecords, hkept⟩ := h.engine.log
      refine ⟨records, hlog, hrecords, fun k hk hT => ?_⟩
      simp only [written, hmem (b := appendRecord) (by decide)]
      exact hkept k hk fun hT' => hT ((hmem (by decide)).2 hT')
  · rw [rights_concat]
    exact h.checkpoint.skip (.inr rfl)

/-! ### Whole traces -/

/-- Every trace of the two calls runs to its end. -/
theorem progress_trace {row' : Row} {rows : RowSet} {lastSeq : Int64} {records : List WALRecordV3}
    (htrace : TraceOf e trace) (hin : Incoming e q m t id row row' rows)
    (hread : ∀ k ∈ e.tables.keys, ∃ rows, e.tableCheckpoint k = .ok (k, rows))
    (hshort : q.length < 2 ^ 16) (hfits : InsertFits id row) (hlog : LogHolds e lastSeq records)
    (hroom : max e.walSeq.toInt e.wal.seq.toInt + 2 < 2 ^ 63) :
    ∃ s, (runTrace q id row trace).run (start e) = (.ok (), s) ∧
      Progress e q m t id row trace trace s := by
  have hstart : Progress e q m t id row trace [] (start e) := by
    refine ⟨?_, by constructor <;> simp⟩
    constructor
    · exact {
        catalog := rfl
        txnMgr := rfl
        rowIds := rfl
        clock := rfl
        put := fun h => absurd h List.not_mem_nil
        notPut := fun _ => rfl
        listed := fun h => absurd h List.not_mem_nil
        notListed := fun _ => rfl
        shape := rfl
        tables := fun _ _ => rfl }
    · simp
    · simp [taken, count, start]
    · simp
    · have : (start e).engine.walSeq.toInt ≤ max e.walSeq.toInt e.wal.seq.toInt := Int.le_max_left _ _
      simpa [taken, count] using this
    · rfl
    · refine ⟨records, hlog.walLog, hlog.fits, fun k hk _ => ?_⟩
      rw [written, if_neg List.not_mem_nil, List.filter_nil, List.filter_eq_nil_iff]
      intro r hr
      simpa using Int64.not_lt.2 (Int64.le_trans (hlog.counted r hr) hk)
  have hrun : (runTrace q id row trace).wp (fun _ => Progress e q m t id row trace trace)
      (fun _ _ => False) (start e) := by
    refine Prog.wp_forEach (Progress e q m t id row trace) (fun done a rest hsplit s h => ?_) hstart
    obtain ⟨s', hs', hprogress⟩ : ∃ s', (runStep q id row a).run s = (.ok (), s') ∧
        Progress e q m t id row trace (done ++ [a]) s' := by
      cases a with
      | inl a =>
        cases a with
        | takeNumber => exact step_takeNumber h htrace hsplit hroom
        | appendRecord => exact step_appendRecord h htrace hsplit hshort hfits
        | putTuple => exact step_putTuple h htrace hsplit hroom hin.data hin.tuple
        | updateIndex => exact step_updateIndex h htrace hsplit
      | inr a =>
        cases a with
        | readLastSeq => exact step_readLastSeq h htrace hsplit
        | copyTable name =>
          have hname : .copyTable name ∈ checkpointSteps e.tables.keys := by
            rw [← htrace.right, mem_rights, hsplit]
            simp
          exact step_copyTable h htrace hsplit hin hread (by simpa [checkpointSteps] using hname)
        | copyTransactions => exact step_copyTransactions h htrace hsplit
        | copyCatalog => exact step_copyCatalog h htrace hsplit
        | save => exact step_save h htrace hsplit
        | truncateLog => exact step_truncateLog h htrace hsplit
        | resetCounter => exact step_resetCounter h htrace hsplit hroom
    exact Prog.wp_of_ok hs' hprogress
  rcases hs : (runTrace q id row trace).run (start e) with ⟨f | ⟨⟩, s⟩
  · exact (Prog.wp_error hrun hs).elim
  · have hprogress := Prog.wp_ok hrun hs
    exact ⟨s, rfl, hprogress⟩

end Steps

end Threads
end JiaMiaoDB
