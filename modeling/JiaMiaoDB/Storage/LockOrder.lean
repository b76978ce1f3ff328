import JiaMiaoDB.Lib.ScopedLocks
import JiaMiaoDB.Storage.CallLocks
import JiaMiaoDB.Storage.Effects

/-!
# The order of the locks

There is no search for deadlocks, and a call that takes a second lock in the lock manager does so
under another id. What keeps the calls from waiting for each other is the order in which they take
their locks: a table or the catalog, then the lifecycle mutex, then the log, then the mutexes of the
log, of the transaction manager and of the commit log.
-/

set_option autoImplicit false

namespace JiaMiaoDB
open ScopedLocks

inductive EngineMutex where
  | lifecycle | wal | txn | ssi | clog
deriving DecidableEq

/-- A target of the lock manager or a mutex. -/
inductive EngineLock where
  | target (t : LockTarget)
  | mutex (m : EngineMutex)
deriving DecidableEq

/-! ### What each function locks

Branches and the number of rounds of a loop are left open, and an exception may come at any time. -/

abbrev LockScript := Scoped EngineLock LockMode

namespace LockScript

def onMutex (m : EngineMutex) (body : LockScript) : LockScript := .guard (.mutex m) .exclusive body

def briefly (m : EngineMutex) : LockScript := onMutex m .done

def onTarget (name : Str) (mode : LockMode) (body : LockScript) : LockScript :=
  .guard (.target ⟨.table, name⟩) mode body

def inTurn (ps : List LockScript) : LockScript := ps.foldr .andThen .done

def perhaps (p : LockScript) : LockScript := .either p .done

/-! #### The commit log and the transaction manager -/

def setStatus : LockScript := briefly .clog

def getStatus : LockScript := briefly .clog

def allXids : LockScript := briefly .clog

def inProgressXids : LockScript := briefly .clog

def checkTupleVisibility : LockScript := inTurn [perhaps getStatus, perhaps getStatus]

def getOldestActiveXid : LockScript := briefly .txn

def freezeOldXids : LockScript :=
  inTurn [getOldestActiveXid, allXids, .repeated (inTurn [getStatus, perhaps setStatus])]

def maybeAntiWraparound : LockScript := perhaps freezeOldXids

def allocateXid : LockScript := inTurn [maybeAntiWraparound, briefly .txn, setStatus]

def assignXid : LockScript := perhaps allocateXid

def getSnapshot : LockScript := briefly .txn

def registerSiread : LockScript := perhaps (briefly .ssi)

def registerWrite : LockScript := perhaps (briefly .ssi)

def cleanupTransactionState : LockScript := briefly .ssi

def ssiIsPivot : LockScript := briefly .ssi

def commitTransaction : LockScript :=
  .either (briefly .txn)
    (inTurn [perhaps ssiIsPivot, setStatus, briefly .txn, cleanupTransactionState])

def abortTransaction : LockScript :=
  perhaps (inTurn [setStatus, briefly .txn, cleanupTransactionState])

/-- The only place where a mutex is taken under another one of the manager. -/
def rebuildActiveFromClog : LockScript :=
  onMutex .txn (inTurn [inProgressXids, .repeated setStatus])

/-- A call of the manager; those that are missing lock nothing. -/
def managerCall : LockScript :=
  [commitTransaction, abortTransaction, assignXid, freezeOldXids, maybeAntiWraparound, getSnapshot,
    registerSiread, registerWrite, cleanupTransactionState, ssiIsPivot, rebuildActiveFromClog,
    getOldestActiveXid, getStatus, setStatus].foldr .either .done

/-! #### The log -/

def walOpen : LockScript := briefly .wal

def walClose : LockScript := briefly .wal

def walAppend : LockScript := briefly .wal

def walSync : LockScript := briefly .wal

/-- Reads the records again under its own mutex; `replay` locks nothing. -/
def walTruncate : LockScript := briefly .wal

def writeWal : LockScript := walAppend

def clogEncode : LockScript := inTurn [allXids, .repeated getStatus]

def checkpoint : LockScript :=
  inTurn [onTarget kWalTarget .exclusive walSync, clogEncode,
    onTarget kWalTarget .exclusive (inTurn [walTruncate, walSync])]

def maybeCheckpoint : LockScript := perhaps (onMutex .lifecycle checkpoint)

def replayRecord : LockScript := .either setStatus (perhaps getStatus)

end LockScript

open LockScript

namespace Operation

/-- What an operation locks under its own target. -/
def inside : Operation → LockScript
  | call c => match c with
    | .createDatabase _ | .dropDatabase _ | .createSchema .. | .createUser .. | .dropUser _
    | .createTable .. | .dropTable _ | .insert .. => inTurn [writeWal, maybeCheckpoint]
    | .update .. | .remove .. => inTurn [.repeated writeWal, maybeCheckpoint]
    | .insertWithTxn .. => inTurn [assignXid, getSnapshot,
        .repeated (inTurn [LockScript.checkTupleVisibility, registerSiread]), writeWal, maybeCheckpoint]
    | .updateWithTxn .. => inTurn [assignXid, getSnapshot,
        .repeated (inTurn [LockScript.checkTupleVisibility, perhaps (inTurn [registerWrite,
          .repeated LockScript.checkTupleVisibility, writeWal])]), maybeCheckpoint]
    | .removeWithTxn .. => inTurn [assignXid, getSnapshot,
        .repeated (inTurn [LockScript.checkTupleVisibility, perhaps (inTurn [registerWrite, writeWal])]),
        maybeCheckpoint]
    | .writeXactCommit _ | .writeXactAbort _ => writeWal
    | .vacuum => inTurn [getOldestActiveXid, .repeated (inTurn [getStatus, perhaps getStatus]),
        maybeAntiWraparound]
    | .txn _ => .repeated managerCall
    | .setCurrentDb _ | .createIndex .. | .applyUndo | .applyUndoTo _ | .setClock _ => .done
  | scan _ | indexLookup .. => .done
  | scanWithSnapshot .. | indexLookupWithSnapshot .. =>
    .repeated (inTurn [LockScript.checkTupleVisibility, registerSiread])

def script (e : StorageEngine) (op : Operation) : LockScript :=
  match op.request e with
  | some (target, mode) => .guard (.target target) mode op.inside
  | none => op.inside

end Operation

/-- The public operations of the engine. -/
inductive PublicCall where
  | operation (op : Operation)
  | load | save | close
  | listDatabases | listUsers | listSchemas | listTables | getSchema
  | currentDb | hasIndex

namespace PublicCall

/-- What a call locks; the engine decides the qualified name of its table. -/
def script (e : StorageEngine) : PublicCall → LockScript
  | operation op => op.script e
  | load => onMutex .lifecycle (inTurn [.repeated setStatus, rebuildActiveFromClog, walOpen,
      .repeated replayRecord])
  | save => onMutex .lifecycle checkpoint
  | close => inTurn [onMutex .lifecycle checkpoint, walClose]
  | listDatabases | listUsers | listSchemas | listTables | getSchema =>
    onTarget kCatalogTarget .shared .done
  | currentDb | hasIndex => .done

end PublicCall

/-! ### Threads -/

abbrev EngineFrame := Frame EngineLock LockMode TransactionId

/-- The locks of an engine and its threads. A call takes each lock of the lock manager under the next
id of `callXidSeq`, which wraps around. -/
structure EngineThreads where
  locks : LockManager
  callXidSeq : TransactionId
  owner : EngineMutex → Option Nat
  frames : Nat → List EngineFrame

namespace EngineThreads

/-- No call is under way. -/
def idle : EngineThreads where
  locks := .create 30000
  callXidSeq := FirstNormalTransactionId + 0x10000000
  owner := fun _ => none
  frames := fun _ => []

section
variable (s : EngineThreads)

def setFrames (i : Nat) (K : List EngineFrame) : EngineThreads :=
  { s with frames := Function.update s.frames i K }

def nextCallXid : EngineThreads := { s with callXidSeq := s.callXidSeq + 1 }

def setOwner (m : EngineMutex) (i : Option Nat) : EngineThreads :=
  { s with owner := Function.update s.owner m i }

/-- A round of the acquisition has ended. -/
def acquired (i : Nat) (target : LockTarget) (mode : LockMode) (xid : TransactionId)
    (p : LockScript) (K : List EngineFrame) : LockOutcome × LockManager → EngineThreads
  | (.granted, m) => { s with locks := m }.setFrames i
      (.run p :: .release (.target target) mode xid :: K)
  | (.waits, m) => { s with locks := m }.setFrames i (.wait (.target target) mode xid p :: K)
  | (_, m) => { s with locks := m }.setFrames i (unwind K)

end

/-- A step of one thread. A mutex is taken when it is free, and a target as the lock manager says. -/
inductive Step (s : EngineThreads) : EngineThreads → Prop
  | call {i : Nat} (c : PublicCall) (e : StorageEngine) : s.frames i = [] →
    Step s (s.setFrames i [.run (c.script e)])
  | quiet {i : Nat} {K : List EngineFrame} : Quiet (s.frames i) K → Step s (s.setFrames i K)
  | acquire {i : Nat} {target : LockTarget} {mode : LockMode} {p : LockScript}
      {K : List EngineFrame} {elapsed : Nat} {r : LockOutcome × LockManager} :
    s.frames i = .run (.guard (.target target) mode p) :: K →
    s.locks.acquire s.callXidSeq target mode elapsed = some r →
    Step s (s.nextCallXid.acquired i target mode s.callXidSeq p K r)
  | wake {i : Nat} {target : LockTarget} {mode : LockMode} {xid : TransactionId} {p : LockScript}
      {K : List EngineFrame} {elapsed : Nat} {r : LockOutcome × LockManager} :
    s.frames i = .wait (.target target) mode xid p :: K →
    s.locks.attempt xid target mode elapsed = some r →
    Step s (s.acquired i target mode xid p K r)
  | lock {i : Nat} {m : EngineMutex} {mode : LockMode} {p : LockScript} {K : List EngineFrame} :
    s.frames i = .run (.guard (.mutex m) mode p) :: K → s.owner m = none →
    Step s ((s.setOwner m (some i)).setFrames i
      (.run p :: .release (.mutex m) mode InvalidTransactionId :: K))
  | throw {i : Nat} {p : LockScript} {K : List EngineFrame} : s.frames i = .run p :: K →
    Step s (s.setFrames i (unwind K))
  | releaseTarget {i : Nat} {target : LockTarget} {mode : LockMode} {xid : TransactionId}
      {K : List EngineFrame} : s.frames i = .release (.target target) mode xid :: K →
    Step s ({ s with locks := s.locks.releaseAll xid }.setFrames i K)
  | unlock {i : Nat} {m : EngineMutex} {mode : LockMode} {xid : TransactionId}
      {K : List EngineFrame} : s.frames i = .release (.mutex m) mode xid :: K →
    Step s ((s.setOwner m none).setFrames i K)

inductive Reachable : EngineThreads → Prop
  | idle : Reachable idle
  | step {s s' : EngineThreads} : Reachable s → Step s s' → Reachable s'

/-! ### The order -/

/-- The rank of a lock: a call waits for a lock only while it holds locks of lower rank. -/
def rank : EngineLock → Nat
  | .target t => if t.name = kWalTarget then 2 else 0
  | .mutex .lifecycle => 1
  | .mutex .wal => 3
  | .mutex .txn => 3
  | .mutex .ssi => 3
  | .mutex .clog => 4

/-- A qualified name has a dot, and the name of the log target has none. -/
theorem rank_table (e : StorageEngine) (table : Str) :
    rank (.target ⟨.table, e.resolveTableName table⟩) = 0 := by
  refine if_neg fun h => ?_
  have hdot := StorageEngine.dot_mem_resolveTableName e table
  rw [show e.resolveTableName table = kWalTarget from h] at hdot
  exact absurd hdot (by decide)

/-- What an operation does under the lock of a table or of the catalog respects the order. -/
theorem inside_respects (op : Operation) :
    op.inside.Respects rank [.target ⟨.table, kCatalogTarget⟩] := by
  cases op with
  | call c => cases c <;> exact of_decide_eq_true rfl
  | scan table => exact of_decide_eq_true rfl
  | scanWithSnapshot table snap xid cid => exact of_decide_eq_true rfl
  | indexLookup table column value => exact of_decide_eq_true rfl
  | indexLookupWithSnapshot table column value snap xid cid => exact of_decide_eq_true rfl

theorem rank_request {e : StorageEngine} {op : Operation} {target : LockTarget} {mode : LockMode}
    (h : op.request e = some (target, mode)) :
    rank (.target target) = 0 ∨ target.name = kWalTarget ∧ op.inside = writeWal := by
  cases op with
  | call c =>
    cases c <;> cases h
    all_goals first
      | exact .inl rfl
      | exact .inl (rank_table e _)
      | exact .inr ⟨rfl, rfl⟩
  | scan table =>
    cases h
    exact .inl (rank_table e table)
  | scanWithSnapshot table snap xid cid =>
    cases h
    exact .inl (rank_table e table)
  | indexLookup table column value =>
    cases h
    exact .inl (rank_table e table)
  | indexLookupWithSnapshot table column value snap xid cid =>
    cases h
    exact .inl (rank_table e table)

theorem operation_respects (e : StorageEngine) (op : Operation) :
    (op.script e).Respects rank [] := by
  unfold Operation.script
  split
  · rename_i target mode hrequest
    refine ⟨fun _ h => absurd h List.not_mem_nil, ?_⟩
    rcases rank_request hrequest with hzero | ⟨hname, hinside⟩
    · refine (inside_respects op).mono fun l hl => ⟨_, List.mem_singleton_self _, ?_⟩
      rw [List.mem_singleton.1 hl, hzero]
      exact Nat.zero_le _
    · rw [hinside]
      refine ⟨fun l hl => ?_, trivial⟩
      rw [List.mem_singleton.1 hl, rank, if_pos hname]
      decide
  · exact (inside_respects op).mono fun _ h => absurd h List.not_mem_nil

theorem script_respects (e : StorageEngine) (c : PublicCall) : (c.script e).Respects rank [] := by
  cases c with
  | operation op => exact operation_respects e op
  | load => exact of_decide_eq_true rfl
  | save => exact of_decide_eq_true rfl
  | close => exact of_decide_eq_true rfl
  | listDatabases => exact of_decide_eq_true rfl
  | listUsers => exact of_decide_eq_true rfl
  | listSchemas => exact of_decide_eq_true rfl
  | listTables => exact of_decide_eq_true rfl
  | getSchema => exact of_decide_eq_true rfl
  | currentDb => trivial
  | hasIndex => trivial

/-! ### Runs -/

variable {s s' : EngineThreads}

/-- A step is a call that starts, or a move of one thread. -/
theorem Step.cases (h : Step s s') : ∃ i K, s'.frames = Function.update s.frames i K ∧
    ((∃ (c : PublicCall) (e : StorageEngine), K = [.run (c.script e)]) ∨ Move (s.frames i) K) := by
  cases h with
  | @call i c e hidle => exact ⟨i, _, rfl, .inl ⟨c, e, rfl⟩⟩
  | @quiet i K hquiet => exact ⟨i, K, rfl, .inr (.quiet hquiet)⟩
  | @acquire i target mode p K elapsed r hframes hr =>
    obtain ⟨outcome, m⟩ := r
    cases outcome with
    | granted => exact ⟨i, _, rfl, .inr (hframes ▸ .enter _)⟩
    | waits => exact ⟨i, _, rfl, .inr (hframes ▸ .suspend _)⟩
    | throws f => exact ⟨i, _, rfl, .inr (hframes ▸ .throw rfl)⟩
    | released => exact ⟨i, _, rfl, .inr (hframes ▸ .throw rfl)⟩
  | @wake i target mode xid p K elapsed r hframes hr =>
    obtain ⟨outcome, m⟩ := r
    cases outcome with
    | granted => exact ⟨i, _, rfl, .inr (hframes ▸ .resume)⟩
    | waits => exact ⟨i, _, rfl, .inr (hframes ▸ .stay)⟩
    | throws f => exact ⟨i, _, rfl, .inr (hframes ▸ .throw rfl)⟩
    | released => exact ⟨i, _, rfl, .inr (hframes ▸ .throw rfl)⟩
  | @lock i m mode p K hframes hfree => exact ⟨i, _, rfl, .inr (hframes ▸ .enter _)⟩
  | @throw i p K hframes => exact ⟨i, _, rfl, .inr (hframes ▸ .throw rfl)⟩
  | @releaseTarget i target mode xid K hframes => exact ⟨i, _, rfl, .inr (hframes ▸ .release)⟩
  | @unlock i m mode xid K hframes => exact ⟨i, _, rfl, .inr (hframes ▸ .release)⟩

def Orderly (s : EngineThreads) : Prop := ∀ i, Ordered rank (s.frames i)

theorem Step.orderly (h : Step s s') (hs : s.Orderly) : s'.Orderly := by
  obtain ⟨i, K, hframes, hK⟩ := h.cases
  intro j
  rw [hframes, Function.update_apply]
  split
  · rcases hK with ⟨c, e, rfl⟩ | hmove
    · exact ⟨script_respects e c, trivial⟩
    · exact hmove.ordered (hs i)
  · exact hs j

theorem Reachable.orderly (h : Reachable s) : s.Orderly := by
  induction h with
  | idle => exact fun _ => trivial
  | step _ hstep ih => exact hstep.orderly ih

/-- No threads wait in a circle, and no thread waits for a lock that it holds itself. -/
theorem deadlock_free (h : Reachable s) : (∀ i, ¬ Relation.TransGen (WaitsOn s.frames) i i) ∧
    ∀ i l, wanted (s.frames i) = some l → l ∉ held (s.frames i) := by
  refine ⟨acyclic h.orderly, ?_⟩
  intro i l hwanted hheld
  exact lt_irrefl _ ((h.orderly i).lt_wanted hwanted hheld)

/-- The second save waits for the first one, and not the other way round. -/
theorem two_saves : ∃ s, Reachable s ∧ WaitsOn s.frames 1 0 ∧
    ¬ Relation.TransGen (WaitsOn s.frames) 1 1 := by
  have e : StorageEngine := .create Disk.empty 0 0
  have hfirst : Reachable _ := .step .idle (.call (i := 0) .save e rfl)
  have hlocked : Reachable _ := .step hfirst (.lock (i := 0) rfl rfl)
  have hsecond : Reachable _ := .step hlocked (.call (i := 1) .save e rfl)
  refine ⟨_, hsecond, ⟨.mutex .lifecycle, rfl, ?_⟩, (deadlock_free hsecond).1 1⟩
  exact List.mem_cons_self

end EngineThreads

end JiaMiaoDB
