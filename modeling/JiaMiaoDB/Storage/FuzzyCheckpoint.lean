import JiaMiaoDB.Lib.Interleaving
import JiaMiaoDB.Storage.DdlReplay

/-!
# A checkpoint beside an insert

An insert holds the lock of its own table only, and a checkpoint that another table's call has
triggered takes none of the tables' locks. So the steps of the two interleave freely, and the row of
the insert reaches the checkpoint, the log, both or neither.
-/

set_option autoImplicit false

namespace JiaMiaoDB
open ByteFormat BinaryRowCodec Interleaving

/-- `insert` after its validation. -/
inductive InsertStep where
  | takeNumber | appendRecord | putTuple | updateIndex
deriving DecidableEq

inductive CheckpointStep where
  | readLastSeq
  | copyTable (name : Str)
  | copyTransactions | copyCatalog | save | truncateLog | resetCounter
deriving DecidableEq

/-- The engine that both threads share, the number that the insert has taken and the checkpoint as
far as it has been filled. -/
structure Threads where
  engine : StorageEngine
  number : Int64
  ckp : Checkpoint

abbrev ThreadsM := Prog Threads Failure

namespace Threads
open StorageEngine

def start (e : StorageEngine) : Threads := ⟨e, 0, Checkpoint.empty⟩

def setEngine (s : Threads) (e : StorageEngine) : Threads := { s with engine := e }

def onEngine {α : Type} (p : EngineM α) : ThreadsM α :=
  Prog.zoom (·.engine) (fun e s => s.setEngine e) p

/-- The log record of the insert. -/
def insertRecord (q : Str) (id : Int64) (row : Row) (number clock : Int64) : WALRecordV3 :=
  ⟨number, clock, WalOp.insert.toTag, q, InvalidTransactionId, walEncodeInsert ⟨id, row⟩⟩

def runInsert (q : Str) (id : Int64) (row : Row) : InsertStep → ThreadsM Unit
  | .takeNumber => do
    let n ← onEngine nextSeq
    Prog.modify fun s => { s with number := n }
  | .appendRecord => Prog.modify fun s =>
    s.setEngine (s.engine.append (insertRecord q id row s.number s.engine.clock))
  | .putTuple => onEngine (putVersion q id row)
  | .updateIndex => Prog.modify fun s =>
    s.setEngine (setRowCount q (updateIndexes q id row s.engine))

/-- A table's schema, rows, counter and indexes go into the checkpoint. -/
def addToCheckpoint (e : StorageEngine) (schema : TableSchema) (name : Str)
    (rows : List (Int64 × Row)) (ckp : Checkpoint) : Checkpoint :=
  { ckp with
    tables := ckp.tables ++ [schema]
    tableRows := ckp.tableRows.insert name rows
    rowIdCounters := ckp.rowIdCounters.insert name (e.rowIds.getD name 0)
    indexesData := (e.indexes[name]?).elim ckp.indexesData (ckp.indexesData.insert name) }

def copyTable (name : Str) : ThreadsM Unit := do
  let s ← Prog.get
  match s.engine.tables[name]? with
  | none => pure ()
  | some schema => do
    let rows ← Prog.ofExcept (s.engine.tableCheckpoint name)
    Prog.set { s with ckp := addToCheckpoint s.engine schema name rows.2 s.ckp }

def runCheckpoint : CheckpointStep → ThreadsM Unit
  | .readLastSeq => Prog.modify fun s => { s with ckp := { Checkpoint.empty with
      lastSeq := s.engine.walSeq, timestamp := s.engine.clock } }
  | .copyTable name => copyTable name
  | .copyTransactions => Prog.modify fun s => { s with ckp := { s.ckp with
      nextXid := s.engine.txnMgr.nextXid, clogBytes := clogEncode s.engine.txnMgr.clog } }
  | .copyCatalog => Prog.modify fun s => { s with ckp := { s.ckp with
      catalogBytes := catalogEncode s.engine.catalog } }
  | .save => Prog.modify fun s => s.setEngine (s.engine.saveCheckpoint s.ckp)
  | .truncateLog => Prog.modify fun s =>
    let (kept, w) := s.engine.wal.truncate s.engine.dir.disk s.ckp.lastSeq
    s.setEngine { s.engine with dir := s.engine.dir.push (.rewriteWal kept), wal := w }
  | .resetCounter => Prog.modify fun s =>
    s.setEngine { s.engine with walSeq := s.engine.wal.seq }

def insertSteps : List InsertStep := [.takeNumber, .appendRecord, .putTuple, .updateIndex]

/-- The tables are copied in the order of their names. -/
def checkpointSteps (names : List Str) : List CheckpointStep :=
  .readLastSeq :: (names.map .copyTable ++
    [.copyTransactions, .copyCatalog, .save, .truncateLog, .resetCounter])

abbrev Step := InsertStep ⊕ CheckpointStep

def runStep (q : Str) (id : Int64) (row : Row) : Step → ThreadsM Unit
  | .inl i => runInsert q id row i
  | .inr c => runCheckpoint c

def runTrace (q : Str) (id : Int64) (row : Row) (trace : List Step) : ThreadsM Unit :=
  Prog.forEach (runStep q id row) trace

/-- A trace of the insert and of a checkpoint of the engine. -/
abbrev TraceOf (e : StorageEngine) (trace : List Step) : Prop :=
  Shuffle insertSteps (checkpointSteps e.tables.keys) trace

/-! ### The two calls alone -/

theorem run_onEngine {α : Type} {p : EngineM α} {s : Threads} {a : α} {e' : StorageEngine}
    (h : p.run s.engine = (.ok a, e')) : (onEngine p).run s = (.ok a, s.setEngine e') := by
  simp only [onEngine, Prog.zoom, h]

/-- The steps of the insert in a row are the insert. -/
theorem run_insertSteps {q : Str} {id : Int64} {row : Row} {e e' : StorageEngine}
    (h : (storeInserted q id row InvalidTransactionId).run e = (.ok (), e')) :
    ∃ s, (runTrace q id row (insertSteps.map .inl)).run (start e) = (.ok (), s) ∧ s.engine = e' := by
  by_cases hmax : e.walSeq = Int64.maxValue
  · rw [storeInserted, Prog.bind_error (run_writeWal_max hmax _ _ _ _)] at h
    cases h
  rw [storeInserted, Prog.bind_ok (run_writeWal hmax _ _ _ _)] at h
  have hnumber : (runInsert q id row .takeNumber).run (start e) =
      (.ok (), ⟨{ e with walSeq := e.walSeq + 1 }, e.walSeq + 1, Checkpoint.empty⟩) := by
    rw [runInsert, Prog.bind_ok (run_onEngine (run_nextSeq (e := (start e).engine) hmax))]
    rfl
  rw [Prog.run_bind] at h
  rcases hput : (putVersion q id row).run { e with
      walSeq := e.walSeq + 1
      dir := e.dir.push (.append (insertRecord q id row (e.walSeq + 1) e.clock))
      wal := ⟨e.walSeq + 1⟩ } with ⟨f | ⟨⟩, e₃⟩
  · simp only [insertRecord] at hput
    rw [hput] at h
    cases h
  · simp only [insertRecord] at hput
    rw [hput] at h
    cases h
    refine ⟨⟨setRowCount q (updateIndexes q id row e₃), e.walSeq + 1, Checkpoint.empty⟩, ?_, rfl⟩
    have hcons {a : Step} {s s' : Threads} (ha : (runStep q id row a).run s = (.ok (), s'))
        (as : List Step) := Prog.run_forEach_cons (f := runStep q id row) ha as
    refine (hcons (a := .inl .takeNumber) hnumber _).trans ?_
    refine (hcons (a := .inl .appendRecord) (Prog.run_modify _ _) _).trans ?_
    refine (hcons (a := .inl .putTuple) (run_onEngine (s := ⟨_, _, _⟩) hput) _).trans ?_
    exact hcons (a := .inl .updateIndex) (Prog.run_modify _ _) _

theorem run_copyTable {s : Threads} {name : Str} {schema : TableSchema} {rows : List (Int64 × Row)}
    (hschema : s.engine.tables[name]? = some schema)
    (hrows : s.engine.tableCheckpoint name = .ok (name, rows)) : (copyTable name).run s =
      (.ok (), { s with ckp := addToCheckpoint s.engine schema name rows s.ckp }) := by
  rw [copyTable, Prog.bind_ok (Prog.run_get s), hschema]
  dsimp only
  rw [hrows]
  rfl

/-- What copying the tables one by one makes of a checkpoint. -/
def copyTables (e : StorageEngine) (names : List Str) (ckp : Checkpoint) : Checkpoint :=
  { ckp with
    tables := ckp.tables ++ names.filterMap fun name => e.tables[name]?
    tableRows := names.foldl (fun m name =>
      ((e.tableCheckpoint name).toOption.map Prod.snd).elim m (m.insert name)) ckp.tableRows
    rowIdCounters := names.foldl (fun m name =>
      (some (e.rowIds.getD name 0)).elim m (m.insert name)) ckp.rowIdCounters
    indexesData := names.foldl (fun m name => (e.indexes[name]?).elim m (m.insert name))
      ckp.indexesData }

theorem run_copyTables {q : Str} {id : Int64} {row : Row} {names : List Str} {s : Threads}
    (h : ∀ name ∈ names, name ∈ s.engine.tables ∧
      ∃ rows, s.engine.tableCheckpoint name = .ok (name, rows)) (rest : List Step) :
    (runTrace q id row (names.map (fun name => .inr (.copyTable name)) ++ rest)).run s =
      (runTrace q id row rest).run { s with ckp := copyTables s.engine names s.ckp } := by
  induction names generalizing s with
  | nil =>
    have : copyTables s.engine [] s.ckp = s.ckp := by simp [copyTables]
    rw [this]
    rfl
  | cons name names ih =>
    obtain ⟨hmem, rows, hrows⟩ := h name (by simp)
    have hschema := Std.ExtTreeMap.getElem?_eq_some_getElem hmem
    refine (Prog.run_forEach_cons (f := runStep q id row) (a := .inr (.copyTable name))
      (run_copyTable hschema hrows) _).trans ?_
    refine (ih (s := { s with ckp := addToCheckpoint s.engine s.engine.tables[name] name rows s.ckp })
      fun name' hname' => h name' (by simp [hname'])).trans ?_
    have : copyTables s.engine names (addToCheckpoint s.engine s.engine.tables[name] name rows s.ckp) =
        copyTables s.engine (name :: names) s.ckp := by
      simp only [copyTables, addToCheckpoint, List.filterMap_cons, hschema, List.foldl_cons, hrows,
        List.append_assoc, List.singleton_append, Except.toOption, Option.map_some, Option.elim_some]
    rw [this]

theorem foldl_tableRows {e : StorageEngine} {names : List Str} {rows : List (Str × List (Int64 × Row))}
    (h : names.mapM e.tableCheckpoint = .ok rows) (m : StrMap (List (Int64 × Row))) :
    names.foldl (fun m name =>
        ((e.tableCheckpoint name).toOption.map Prod.snd).elim m (m.insert name)) m =
      rows.foldl (fun m p => m.insert p.1 p.2) m := by
  induction names generalizing rows m with
  | nil =>
    cases h
    rfl
  | cons name names ih =>
    obtain ⟨p, ps, hp, hps, rfl⟩ := ExceptList.mapM_cons_ok.1 h
    have hname := fst_of_tableCheckpoint hp
    rw [List.foldl_cons, List.foldl_cons, hp, ih hps, ← hname]
    rfl

/-- Without an insert in between, the tables are copied as they stand in the engine's checkpoint. -/
theorem copyTables_keys {e : StorageEngine} {ckp : Checkpoint} (h : e.toCheckpoint = .ok ckp) :
    copyTables e e.tables.keys { Checkpoint.empty with lastSeq := e.walSeq, timestamp := e.clock } =
      { ckp with
        nextXid := FirstNormalTransactionId
        clogBytes := []
        catalogBytes := [] } := by
  rw [toCheckpoint] at h
  obtain ⟨rows, hrows, h⟩ := ExceptList.bind_ok_iff.1 h
  cases h
  simp only [copyTables, Checkpoint.empty, List.nil_append, OrderedMap.filterMap_keys,
    foldl_tableRows hrows]
  congr 1
  · refine Std.ExtTreeMap.ext_getElem? fun k => ?_
    rw [OrderedMap.getElem?_foldl_insert, Std.ExtTreeMap.getElem?_map]
    by_cases hk : k ∈ e.tables.keys
    · rw [if_pos hk, Std.ExtTreeMap.getElem?_eq_some_getElem (Std.ExtTreeMap.mem_keys.1 hk)]
      rfl
    · rw [if_neg hk, Std.ExtTreeMap.getElem?_eq_none (mt Std.ExtTreeMap.mem_keys.2 hk)]
      simp
  · refine Std.ExtTreeMap.ext_getElem? fun k => ?_
    rw [OrderedMap.getElem?_foldl_insert, Std.ExtTreeMap.getElem?_filter']
    by_cases hk : k ∈ e.tables.keys
    · have hc : e.tables.contains k = true :=
        Std.ExtTreeMap.mem_iff_contains.1 (Std.ExtTreeMap.mem_keys.1 hk)
      rw [if_pos hk]
      cases e.indexes[k]? <;> simp [Option.filter, hc]
    · have hc : e.tables.contains k = false :=
        Bool.eq_false_iff.2 (mt Std.ExtTreeMap.mem_iff_contains.2 (mt Std.ExtTreeMap.mem_keys.2 hk))
      rw [if_neg hk]
      cases e.indexes[k]? <;> simp [Option.filter, hc]

/-- The steps of the checkpoint in a row are the checkpoint. -/
theorem run_checkpointSteps {q : Str} {id : Int64} {row : Row} {e : StorageEngine} {ckp : Checkpoint}
    (h : e.toCheckpoint = .ok ckp) :
    ∃ s, (runTrace q id row ((checkpointSteps e.tables.keys).map .inr)).run (start e) =
      (.ok (), s) ∧ s.engine = (checkpoint.run e).2 := by
  have htaken := takenFrom_toCheckpoint h
  have hcopy : ∀ name ∈ e.tables.keys, name ∈ e.tables ∧
      ∃ rows, e.tableCheckpoint name = .ok (name, rows) := fun name hname =>
    have hname := Std.ExtTreeMap.mem_keys.1 hname
    ⟨hname, _, htaken.rows name hname⟩
  have hckp : { { ckp with
      nextXid := FirstNormalTransactionId
      clogBytes := []
      catalogBytes := [] } with
      nextXid := e.txnMgr.nextXid
      clogBytes := clogEncode e.txnMgr.clog
      catalogBytes := catalogEncode e.catalog } = ckp := by
    rw [← htaken.nextXid, ← htaken.clogBytes, ← htaken.catalogBytes]
  have hsteps : (checkpointSteps e.tables.keys).map (Sum.inr (α := InsertStep)) =
      .inr .readLastSeq :: (e.tables.keys.map (fun name => .inr (.copyTable name)) ++
        [.inr .copyTransactions, .inr .copyCatalog, .inr .save, .inr .truncateLog,
          .inr .resetCounter]) := by
    simp [checkpointSteps]
  refine ⟨⟨(checkpoint.run e).2, 0, ckp⟩, ?_, rfl⟩
  rw [hsteps]
  refine (Prog.run_forEach_cons (f := runStep q id row) (a := .inr .readLastSeq)
    (Prog.run_modify _ _) _).trans ?_
  refine (run_copyTables (s := { start e with ckp := { Checkpoint.empty with
    lastSeq := e.walSeq, timestamp := e.clock } }) hcopy _).trans ?_
  rw [run_checkpoint, h]
  simp only [start, copyTables_keys h]
  have hcons {a : Step} {s s' : Threads} (ha : (runStep q id row a).run s = (.ok (), s'))
      (as : List Step) := Prog.run_forEach_cons (f := runStep q id row) ha as
  refine (hcons (a := .inr .copyTransactions) (Prog.run_modify _ _) _).trans ?_
  refine (hcons (a := .inr .copyCatalog) (Prog.run_modify _ _) _).trans ?_
  simp only [hckp]
  refine (hcons (a := .inr .save) (Prog.run_modify _ _) _).trans ?_
  refine (hcons (a := .inr .truncateLog) (Prog.run_modify _ _) _).trans ?_
  exact hcons (a := .inr .resetCounter) (Prog.run_modify _ _) _

end Threads
end JiaMiaoDB
