import JiaMiaoDB.Types
import Std.Data.ExtTreeSet

/-! Transaction ids, the commit log, snapshots and the transaction manager. One context holds the
current transaction; a call that throws leaves the manager as it was at the throw. -/

set_option autoImplicit false

namespace JiaMiaoDB

abbrev TransactionId := UInt32

def InvalidTransactionId : TransactionId := 0
def FrozenTransactionId : TransactionId := 2
def FirstNormalTransactionId : TransactionId := 3

def XIDFreezeThreshold : Nat := 2000000
def XIDEmergencyStop : Nat := 2146483648

inductive TransactionStatus where
  | inProgress | committed | aborted | subCommitted
deriving DecidableEq

inductive TBlockState where
  | default | started | begin | inProgress | end_ | abortPending
deriving DecidableEq

inductive IsolationLevel where
  | readCommitted | repeatableRead | serializable
deriving DecidableEq

abbrev XidSet := Std.ExtTreeSet TransactionId compare

structure RowKey where
  table : Str
  rowId : Int64
deriving DecidableEq

inductive UndoOp where
  | insert | update | delete
deriving DecidableEq

structure UndoRecord where
  op : UndoOp
  tableName : Str
  rowId : Int64
  oldRow : Row
  newRow : Row

structure Savepoint where
  name : Str
  undoPosition : Nat

structure Snapshot where
  xmin : TransactionId
  xmax : TransactionId
  xip : List TransactionId
  curcid : Int32

/-! ### Commit log -/

structure CLog where
  statusMap : Std.ExtTreeMap TransactionId TransactionStatus compare

namespace CLog

def empty : CLog := ⟨∅⟩

def setStatus (c : CLog) (xid : TransactionId) (status : TransactionStatus) : CLog :=
  ⟨c.statusMap.insert xid status⟩

/-- An xid without an entry counts as in progress. -/
def getStatus (c : CLog) (xid : TransactionId) : TransactionStatus :=
  c.statusMap.getD xid .inProgress

def allXids (c : CLog) : List TransactionId := c.statusMap.keys

def inProgressXids (c : CLog) : List TransactionId :=
  c.allXids.filter fun xid => c.getStatus xid = .inProgress

@[simp] theorem getStatus_setStatus_self (c : CLog) (xid : TransactionId)
    (status : TransactionStatus) : (c.setStatus xid status).getStatus xid = status := by
  simp [getStatus, setStatus]

theorem getStatus_setStatus_of_ne {xid other : TransactionId} (c : CLog)
    (status : TransactionStatus) (h : xid ≠ other) :
    (c.setStatus xid status).getStatus other = c.getStatus other := by
  simp [getStatus, setStatus, Std.ExtTreeMap.getD_insert, h]

theorem getStatus_setStatus (c : CLog) (xid other : TransactionId) (status : TransactionStatus) :
    (c.setStatus xid status).getStatus other =
      if xid = other then status else c.getStatus other := by
  split
  · subst xid
    exact getStatus_setStatus_self c other status
  · exact getStatus_setStatus_of_ne c status ‹_›

end CLog

/-! ### Visibility -/

/-- A transaction id read from a system column: only a positive integer counts. -/
def xidField (row : Row) (column : Str) : TransactionId :=
  match row[column]? with
  | some (.int v) => if 0 < v then v.toUInt64.toUInt32 else InvalidTransactionId
  | _ => InvalidTransactionId

/-- The command id in `_cid`, when there is an integer. -/
def cidField (row : Row) : Option Int32 :=
  match row[str "_cid"]? with
  | some (.int v) => some v.toInt32
  | _ => none

def checkTupleVisibility (row : Row) (currentXid : TransactionId) (snap : Snapshot)
    (curCid : Int32) (clog : CLog) : Bool :=
  let xmin := xidField row (str "_xmin")
  if xmin = InvalidTransactionId then true
  else
    let xmax := xidField row (str "_xmax")
    if xmin = FrozenTransactionId then
      if xmax = InvalidTransactionId then true
      else if xmax = currentXid ∧ currentXid ≠ InvalidTransactionId then false
      else clog.getStatus xmax ≠ .committed
    else if xmin = currentXid ∧ currentXid ≠ InvalidTransactionId then
      if (cidField row).any (curCid < ·) then false
      else xmax ≠ currentXid
    else if clog.getStatus xmin = .aborted then false
    else if clog.getStatus xmin = .inProgress then false
    else if snap.xmin ≤ xmin ∧ xmin < snap.xmax ∧ xmin ∈ snap.xip then false
    else if xmax = InvalidTransactionId then true
    else if xmax = currentXid ∧ currentXid ≠ InvalidTransactionId then false
    else clog.getStatus xmax ≠ .committed

/-! ### Transaction manager -/

structure TransactionContext where
  xid : TransactionId
  blockState : TBlockState
  commandId : Int32
  undoRecords : List UndoRecord
  snapshot : Snapshot
  hasSnapshot : Bool
  isolation : IsolationLevel
  savepoints : List Savepoint

instance : Ord RowKey := ⟨compareLex (compareOn RowKey.table) (compareOn RowKey.rowId)⟩

structure TransactionManager where
  context : TransactionContext
  nextXid : TransactionId
  clog : CLog
  activeXids : XidSet
  sireadMap : Std.ExtTreeMap RowKey XidSet compare
  inConflict : Std.ExtTreeMap TransactionId XidSet compare

namespace RowKey

instance : Std.TransOrd RowKey :=
  inferInstanceAs (Std.TransCmp (compareLex (compareOn RowKey.table) (compareOn RowKey.rowId)))

instance : Std.LawfulEqOrd RowKey where
  eq_of_compare {a b} h := by
    rcases a with ⟨t, r⟩
    rcases b with ⟨t', r'⟩
    simp only [compare, compareLex, compareOn, Ordering.then_eq_eq] at h
    obtain ⟨ht, hr⟩ := h
    rw [Std.LawfulEqOrd.eq_of_compare (a := t) (b := t') ht,
      Std.LawfulEqOrd.eq_of_compare (a := r) (b := r') hr]

end RowKey

abbrev TxnM := Prog TransactionManager Failure

def Snapshot.empty : Snapshot := ⟨InvalidTransactionId, InvalidTransactionId, [], 0⟩

def TransactionContext.initial : TransactionContext where
  xid := InvalidTransactionId
  blockState := .default
  commandId := 0
  undoRecords := []
  snapshot := Snapshot.empty
  hasSnapshot := false
  isolation := .readCommitted
  savepoints := []

namespace TransactionManager

def initial : TransactionManager where
  context := TransactionContext.initial
  nextXid := FirstNormalTransactionId
  clog := CLog.empty
  activeXids := ∅
  sireadMap := ∅
  inConflict := ∅

/-! #### Ids and wrap-around -/

/-- The least active xid, or the next xid when nothing is active. -/
def getOldestActiveXid (m : TransactionManager) : TransactionId :=
  m.activeXids.toList.head?.getD m.nextXid

/-- Zombie entries below the oldest active xid are set to aborted. -/
def freezeOldXids (m : TransactionManager) : TransactionManager :=
  let oldest := m.getOldestActiveXid
  { m with
    clog := m.clog.allXids.foldl (fun c xid =>
      if xid < FirstNormalTransactionId then c
      else if oldest ≤ xid then c
      else if c.getStatus xid = .inProgress then c.setStatus xid .aborted
      else c) m.clog }

def maybeAntiWraparound (m : TransactionManager) : TransactionManager :=
  if m.nextXid.toNat ≤ XIDFreezeThreshold then m
  else if XIDFreezeThreshold < m.nextXid.toNat - FrozenTransactionId.toNat then m.freezeOldXids
  else m

def allocateXid : TxnM TransactionId := do
  Prog.modify maybeAntiWraparound
  let m ← Prog.get
  if XIDEmergencyStop ≤ m.nextXid.toNat then
    Prog.throw (.runtimeError (str "XID 计数已达紧急停机点, 需执行全库 VACUUM (anti-wraparound)"))
  else
    let xid := m.nextXid
    Prog.set { m with
      nextXid := m.nextXid + 1
      activeXids := m.activeXids.insert xid
      clog := m.clog.setStatus xid .inProgress }
    pure xid

def setContext (m : TransactionManager) (c : TransactionContext) : TransactionManager :=
  { m with context := c }

def assignXid : TxnM TransactionId := do
  let m ← Prog.get
  if m.context.xid = InvalidTransactionId then
    let xid ← allocateXid
    Prog.modify fun m => m.setContext { m.context with xid := xid }
    pure xid
  else pure m.context.xid

def commandCounterIncrement : TxnM Unit := do
  let m ← Prog.get
  if m.context.commandId = Int32.maxValue then Prog.throw .undefined
  else Prog.set (m.setContext { m.context with commandId := m.context.commandId + 1 })

/-! #### Snapshots -/

def getSnapshot (m : TransactionManager) : Snapshot where
  xmin := m.activeXids.toList.head?.getD m.nextXid
  xmax := m.nextXid
  xip := m.activeXids.toList
  curcid := m.context.commandId

/-- The snapshot of the transaction, taken at its first use. -/
def getTransactionSnapshot : TxnM Snapshot := do
  let m ← Prog.get
  if m.context.hasSnapshot then pure m.context.snapshot
  else
    let snap := m.getSnapshot
    Prog.set (m.setContext { m.context with snapshot := snap, hasSnapshot := true })
    pure snap

/-! #### Read and write sets of serializable transactions -/

def tracksConflicts (m : TransactionManager) : Bool :=
  m.context.isolation = .serializable ∧ m.context.xid ≠ InvalidTransactionId

def registerSiread (m : TransactionManager) (key : RowKey) : TransactionManager :=
  if m.tracksConflicts then
    { m with
      sireadMap := m.sireadMap.insert key ((m.sireadMap.getD key ∅).insert m.context.xid) }
  else m

def registerWrite (m : TransactionManager) (key : RowKey) : TransactionManager :=
  if m.tracksConflicts then
    { m with
      inConflict := (m.sireadMap.getD key ∅).toList.foldl (fun edges reader =>
        if reader = m.context.xid then edges
        else edges.insert reader ((edges.getD reader ∅).insert m.context.xid)) m.inConflict }
  else m

def cleanupTransactionState (m : TransactionManager) (xid : TransactionId) :
    TransactionManager :=
  { m with
    sireadMap := (m.sireadMap.map fun _ readers => readers.erase xid).filter
      fun _ readers => !readers.isEmpty
    inConflict := (m.inConflict.erase xid).map fun _ conflicts => conflicts.erase xid }

def ssiIsPivot (m : TransactionManager) (xid : TransactionId) : Bool :=
  (m.inConflict.getD xid ∅).toList.any fun other =>
    other ≠ xid ∧ (m.inConflict.getD other ∅).contains xid

/-! #### Undo records and savepoints -/

def addUndoRecord (m : TransactionManager) (r : UndoRecord) : TransactionManager :=
  m.setContext { m.context with undoRecords := m.context.undoRecords ++ [r] }

def savepoint (m : TransactionManager) (name : Str) : TransactionManager :=
  m.setContext { m.context with
    savepoints := m.context.savepoints ++ [⟨name, m.context.undoRecords.length⟩] }

def noSavepoint (name : Str) : Failure :=
  .runtimeError (str "savepoint \"" ++ name ++ str "\" 不存在")

/-- The latest savepoint of that name and the savepoints set before it. -/
def findSavepoint (name : Str) (savepoints : List Savepoint) :
    Option (Savepoint × List Savepoint) :=
  match savepoints.reverse.dropWhile (·.name ≠ name) with
  | [] => none
  | sp :: before => some (sp, before.reverse)

/-- The number of records to undo. The named savepoint leaves the stack too. -/
def rollbackToSavepoint (name : Str) : TxnM Nat := do
  let m ← Prog.get
  match findSavepoint name m.context.savepoints with
  | none => Prog.throw (noSavepoint name)
  | some (sp, before) =>
    Prog.set (m.setContext { m.context with savepoints := before })
    -- A position past the end of the records counts as nothing to undo, as natural subtraction does.
    pure (m.context.undoRecords.length - sp.undoPosition)

def releaseSavepoint (name : Str) : TxnM Unit := do
  let m ← Prog.get
  match findSavepoint name m.context.savepoints with
  | none => Prog.throw (noSavepoint name)
  | some (_, before) => Prog.set (m.setContext { m.context with savepoints := before })

/-! #### Blocks, commit and abort -/

/-- The reset of the context when a command or a block starts a transaction. -/
def startContext (c : TransactionContext) (state : TBlockState) : TransactionContext :=
  { c with
    xid := InvalidTransactionId, commandId := 0, undoRecords := [], hasSnapshot := false
    blockState := state }

def startTransactionCommand (m : TransactionManager) : TransactionManager :=
  match m.context.blockState with
  | .default => m.setContext (startContext m.context .started)
  | _ => m

def beginTransactionBlock : TxnM Unit := do
  let m ← Prog.get
  match m.context.blockState with
  | .default => Prog.set (m.setContext (startContext m.context .begin))
  | .started => Prog.set (m.setContext { m.context with blockState := .begin })
  | _ => Prog.throw (.runtimeError (str "已在事务块中"))

/-- The part of the context that a finished transaction clears. -/
def finishContext (c : TransactionContext) : TransactionContext :=
  { c with
    xid := InvalidTransactionId, commandId := 0, undoRecords := [], savepoints := []
    hasSnapshot := false }

/-- The end of a transaction with an xid: its outcome is recorded and its traces removed. -/
def finish (m : TransactionManager) (xid : TransactionId) (status : TransactionStatus) :
    TransactionManager :=
  let m := { m with clog := m.clog.setStatus xid status, activeXids := m.activeXids.erase xid }
  (m.cleanupTransactionState xid).setContext (finishContext m.context)

def commitTransaction : TxnM Unit := do
  let m ← Prog.get
  let xid := m.context.xid
  if xid = InvalidTransactionId then
    -- Savepoints and the command id stay.
    Prog.set { m with
      activeXids := m.activeXids.erase xid
      context := { m.context with undoRecords := [], hasSnapshot := false } }
  else if m.context.isolation = .serializable ∧ m.ssiIsPivot xid then
    Prog.throw (.runtimeError (str "could not serialize access (SSI pivot detected)"))
  else Prog.set (m.finish xid .committed)

def abortTransaction (m : TransactionManager) : TransactionManager :=
  let xid := m.context.xid
  if xid ≠ InvalidTransactionId then m.finish xid .aborted
  else m.setContext (finishContext m.context)

def setBlockState (m : TransactionManager) (state : TBlockState) : TransactionManager :=
  m.setContext { m.context with blockState := state }

def commitTransactionCommand : TxnM Unit := do
  let m ← Prog.get
  match m.context.blockState with
  | .started | .end_ => do
    commitTransaction
    Prog.modify (·.setBlockState .default)
  | .begin => Prog.set (m.setBlockState .inProgress)
  | .inProgress => commandCounterIncrement
  | .abortPending => Prog.set (m.abortTransaction.setBlockState .default)
  | .default => pure ()

def isInTransaction (m : TransactionManager) : Bool := m.context.blockState ≠ .default

/-! #### Recovery -/

/-- Transactions that were in progress in the checkpoint count as aborted. -/
def rebuildActiveFromClog (m : TransactionManager) : TransactionManager :=
  { m with
    activeXids := ∅
    clog := m.clog.inProgressXids.foldl (fun c xid => c.setStatus xid .aborted) m.clog }

def resetContext (m : TransactionManager) : TransactionManager :=
  m.setContext (finishContext { m.context with blockState := .default })

end TransactionManager
end JiaMiaoDB
