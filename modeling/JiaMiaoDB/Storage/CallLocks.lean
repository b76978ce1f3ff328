import JiaMiaoDB.Storage.Calls
import JiaMiaoDB.Storage.LockManager

/-!
# The locks of the calls

Every call locks one target while its body runs. Calls that change tables as a whole lock the
catalog, and calls on the rows of a table lock the table, so neither waits for the other. The lock
that a checkpoint takes on the log inside a body is left out: no call waits for another one with it.
-/

set_option autoImplicit false

namespace JiaMiaoDB
open StorageEngine

def kCatalogTarget : Str := str "__catalog__"
def kWalTarget : Str := str "__wal__"

/-- A call, or a read that changes nothing. -/
inductive Operation where
  | call (c : Call)
  | scan (table : Str)
  | scanWithSnapshot (table : Str) (snap : Snapshot) (xid : TransactionId) (cid : Int32)
  | indexLookup (table column : Str) (value : Value)
  | indexLookupWithSnapshot (table column : Str) (value : Value) (snap : Snapshot)
      (xid : TransactionId) (cid : Int32)

namespace Operation

def tableLock (e : StorageEngine) (table : Str) (mode : LockMode) : LockTarget × LockMode :=
  (⟨.table, e.resolveTableName table⟩, mode)

/-- The target is fixed before the lock is taken. -/
def request (e : StorageEngine) : Operation → Option (LockTarget × LockMode)
  | call c => match c with
    | .createDatabase _ | .dropDatabase _ | .createSchema .. | .createUser .. | .dropUser _
    | .createTable .. | .dropTable _ => some (⟨.table, kCatalogTarget⟩, .exclusive)
    | .vacuum => some (⟨.table, kCatalogTarget⟩, .shared)
    | .insert table _ | .update table _ _ | .remove table _ | .insertWithTxn table _
    | .updateWithTxn table _ _ | .removeWithTxn table _ => some (tableLock e table .exclusive)
    | .writeXactCommit _ | .writeXactAbort _ => some (⟨.table, kWalTarget⟩, .exclusive)
    | .setCurrentDb _ | .createIndex .. | .applyUndo | .applyUndoTo _ | .txn _ | .setClock _ => none
  | scan table | scanWithSnapshot table .. | indexLookup table .. | indexLookupWithSnapshot table .. =>
    some (tableLock e table .shared)

def exec (e : StorageEngine) : Operation → StorageEngine
  | call c => (c.exec.run e).2
  | _ => e

/-- The calls that replace, remove or rewrite tables under the catalog lock. -/
def changesTables : Operation → Bool
  | call (.dropTable _) | call (.dropDatabase _) | call (.createTable ..) | call .vacuum => true
  | _ => false

/-- The table whose rows the operation reads or writes. -/
def rowsOf : Operation → Option Str
  | call c => match c with
    | .insert table _ | .update table _ _ | .remove table _ | .insertWithTxn table _
    | .updateWithTxn table _ _ | .removeWithTxn table _ => some table
    | _ => none
  | scan table | scanWithSnapshot table .. | indexLookup table .. | indexLookupWithSnapshot table .. =>
    some table

end Operation

/-- What the engine has of a table in its four maps. -/
def StorageEngine.entry (e : StorageEngine) (qualified : Str) :
    Option TableSchema × Option MemTable × Option Int64 × Option (List IndexInfo) :=
  (e.tables[qualified]?, e.data[qualified]?, e.rowIds[qualified]?, e.indexes[qualified]?)

inductive CallPhase where
  | waiting | holding | done
deriving DecidableEq

structure Running where
  operation : Operation
  target : LockTarget
  mode : LockMode
  phase : CallPhase

/-- The calls under way, each under the id of its own that it locks with. -/
structure CallThreads where
  locks : LockManager
  engine : StorageEngine
  running : TransactionId → Option Running

namespace CallThreads

def idle (waitTimeoutMs : UInt32) (e : StorageEngine) : CallThreads :=
  ⟨.create waitTimeoutMs, e, fun _ => none⟩

section
variable (s : CallThreads)

def setRunning (x : TransactionId) (r : Option Running) : CallThreads :=
  { s with running := Function.update s.running x r }

/-- A round of the acquisition has ended. -/
def acquired (x : TransactionId) (r : Running) : LockOutcome × LockManager → CallThreads
  | (.granted, m) => { s with locks := m }.setRunning x (some { r with phase := .holding })
  | (.waits, m) => { s with locks := m }.setRunning x (some { r with phase := .waiting })
  | (_, m) => { s with locks := m }.setRunning x none

end

inductive Step (s : CallThreads) : CallThreads → Prop
  | acquire {x : TransactionId} {op : Operation} {target : LockTarget} {mode : LockMode}
      {elapsed : Nat} {r : LockOutcome × LockManager} : s.running x = none →
    op.request s.engine = some (target, mode) → s.locks.acquire x target mode elapsed = some r →
    Step s (s.acquired x ⟨op, target, mode, .waiting⟩ r)
  | wake {x : TransactionId} {c : Running} {elapsed : Nat} {r : LockOutcome × LockManager} :
    s.running x = some c → c.phase = .waiting →
    s.locks.attempt x c.target c.mode elapsed = some r → Step s (s.acquired x c r)
  | run {x : TransactionId} {c : Running} : s.running x = some c → c.phase = .holding →
    Step s ({ s with engine := c.operation.exec s.engine }.setRunning x
      (some { c with phase := .done }))
  | release {x : TransactionId} {c : Running} : s.running x = some c → c.phase = .done →
    Step s ({ s with locks := s.locks.releaseLocked x c.target c.mode }.setRunning x none)

inductive Reachable (s : CallThreads) : CallThreads → Prop
  | start : Reachable s s
  | step {s₁ s₂ : CallThreads} : Reachable s s₁ → Step s₁ s₂ → Reachable s s₂

end CallThreads

open CallThreads

/-- Whenever `ddl` runs between the lock and the release of `user`, it leaves the table alone that
`user` has locked. -/
def Excludes (waitTimeoutMs : UInt32) (e : StorageEngine) (ddl user : Operation) : Prop :=
  ∀ (s : CallThreads) (x y : TransactionId) (c d : Running) (qualified : Str),
    Reachable (idle waitTimeoutMs e) s →
    s.running x = some c → c.phase = .holding → c.operation = ddl →
    s.running y = some d → d.phase ≠ .waiting → d.operation = user →
    d.target = ⟨.table, qualified⟩ →
    (ddl.exec s.engine).entry qualified = s.engine.entry qualified

namespace Operation
variable {e : StorageEngine} {op : Operation} {table : Str}

/-- A qualified name has a dot, and the name of the catalog target has none. -/
theorem resolveTableName_ne_catalog (e : StorageEngine) (table : Str) :
    e.resolveTableName table ≠ kCatalogTarget := by
  intro h
  have hdot : (46 : UInt8) ∈ e.resolveTableName table := by
    rw [resolveTableName, Catalog.qualifyTableName]
    split
    · assumption
    · refine List.mem_append_left _ (List.mem_append_right _ ?_)
      decide
  rw [h] at hdot
  exact absurd hdot (by decide)

theorem request_changesTables (h : op.changesTables = true) :
    ∃ mode, op.request e = some (⟨.table, kCatalogTarget⟩, mode) := by
  unfold changesTables at h
  split at h
  · exact ⟨.exclusive, rfl⟩
  · exact ⟨.exclusive, rfl⟩
  · exact ⟨.exclusive, rfl⟩
  · exact ⟨.shared, rfl⟩
  · cases h

theorem request_rowsOf (h : op.rowsOf = some table) :
    ∃ mode, op.request e = some (tableLock e table mode) := by
  unfold rowsOf at h
  split at h
  · split at h <;> cases h <;> exact ⟨.exclusive, rfl⟩
  all_goals
    cases h
    exact ⟨.shared, rfl⟩

end Operation

namespace LockManager
variable {m : LockManager} {x : TransactionId} {target : LockTarget} {mode : LockMode}

/-- A target without an entry is granted at once. -/
theorem acquire_free (hheld : m.held x target = none) (hfree : m.keyStates[target]? = none) :
    m.acquire x target mode 0 = some (.granted, m.grant x target mode) := by
  have hgrant : m.canGrant target mode = true := by rw [canGrant, hfree]
  have hstate : m.keyState target = .create := by rw [keyState, hfree, Option.getD_none]
  rw [acquire, hheld]
  dsimp only
  rw [attempt, if_pos hgrant, hstate, if_neg]
  rintro ⟨-, hmax⟩
  cases hmax

end LockManager

section Overlap
variable {waitTimeoutMs : UInt32} {e : StorageEngine} {ddl user : Operation} {table : Str}

/-- Both locks are granted, one after the other. -/
theorem exists_overlap (hddl : ddl.changesTables = true) (huser : user.rowsOf = some table) :
    ∃ s c d, Reachable (idle waitTimeoutMs e) s ∧ s.engine = e ∧
      s.running 1 = some c ∧ c.phase = .holding ∧ c.operation = ddl ∧
      s.running 0 = some d ∧ d.phase = .holding ∧ d.operation = user ∧
      d.target = ⟨.table, e.resolveTableName table⟩ := by
  obtain ⟨mode, hrequest⟩ := Operation.request_rowsOf (e := e) huser
  obtain ⟨mode', hrequest'⟩ := Operation.request_changesTables (e := e) hddl
  set target : LockTarget := ⟨.table, e.resolveTableName table⟩
  have hne : (⟨.table, kCatalogTarget⟩ : LockTarget) ≠ target := by
    intro he
    exact Operation.resolveTableName_ne_catalog e table (congrArg LockTarget.name he).symm
  have hcreate (x : TransactionId) (t : LockTarget) :
      (LockManager.create waitTimeoutMs).held x t = none ∧
        (LockManager.create waitTimeoutMs).keyStates[t]? = none := by
    simp [LockManager.create, LockManager.held]
  set m := (LockManager.create waitTimeoutMs).grant 0 target mode with hm
  have hacquire : (idle waitTimeoutMs e).locks.acquire 0 target mode 0 = some (.granted, m) :=
    LockManager.acquire_free (hcreate 0 target).1 (hcreate 0 target).2
  set s₁ := (idle waitTimeoutMs e).acquired 0 ⟨user, target, mode, .waiting⟩ (.granted, m)
  have h₁ : Reachable (idle waitTimeoutMs e) s₁ :=
    .step .start (.acquire rfl hrequest hacquire)
  have hacquire' : s₁.locks.acquire 1 ⟨.table, kCatalogTarget⟩ mode' 0 =
      some (.granted, m.grant 1 ⟨.table, kCatalogTarget⟩ mode') := by
    refine LockManager.acquire_free (m := m) ?_ ?_
    · rw [hm, LockManager.held_grant, if_neg (by simp)]
      exact (hcreate 1 _).1
    · rw [hm, LockManager.getElem?_grant, if_neg hne]
      exact (hcreate 1 _).2
  have h₂ := Reachable.step h₁ (.acquire (x := 1) rfl hrequest' hacquire')
  exact ⟨_, _, _, h₂, rfl, rfl, rfl, rfl, rfl, rfl, rfl, rfl⟩

/-- No lock keeps a call that changes a table away from one that reads or writes its rows. -/
theorem not_excludes (hddl : ddl.changesTables = true) (huser : user.rowsOf = some table)
    (hchange : (ddl.exec e).entry (e.resolveTableName table) ≠ e.entry (e.resolveTableName table)) :
    ¬ Excludes waitTimeoutMs e ddl user := by
  intro h
  have hover := @exists_overlap waitTimeoutMs e ddl user table hddl huser
  obtain ⟨s, c, d, hs, rfl, hc, hholding, hop, hd, hholding', hop', htarget⟩ := hover
  exact hchange (h s 1 0 c d _ hs hc hholding hop hd (by rw [hholding']; decide) hop' htarget)

/-- An engine with a table `t`. -/
def tableEngine : StorageEngine :=
  ((Call.createTable (str "t") [⟨str "a", .integer, false, false, none⟩]).exec.run
    (create Disk.empty 0 0)).2

theorem entry_tableEngine : (Operation.exec tableEngine (.call (.dropTable (str "t")))).entry
    (tableEngine.resolveTableName (str "t")) ≠
      tableEngine.entry (tableEngine.resolveTableName (str "t")) := by
  intro h
  have hschema := congrArg (fun p => p.1.isSome) h
  exact absurd hschema (by decide +kernel)

theorem not_excludes_insert : ¬ Excludes 5000 tableEngine (.call (.dropTable (str "t")))
    (.call (.insertWithTxn (str "t") ∅)) :=
  not_excludes rfl rfl entry_tableEngine

/-- The table goes while a scan has its lock. -/
theorem not_excludes_scan :
    ¬ Excludes 5000 tableEngine (.call (.dropTable (str "t"))) (.scan (str "t")) := by
  obtain ⟨s, c, d, hs, he, hc, hholding, hop, hd, hholding', hop', htarget⟩ :=
    @exists_overlap 5000 tableEngine (.call (.dropTable (str "t"))) (.scan (str "t")) _ rfl rfl
  intro h
  have hsame := h s 1 0 c d _ hs hc hholding hop hd (by rw [hholding']; decide) hop' htarget
  rw [he] at hsame
  exact entry_tableEngine hsame

end Overlap

end JiaMiaoDB
