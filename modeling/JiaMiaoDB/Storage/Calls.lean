import JiaMiaoDB.Storage.Recovery

/-! The calls that a client makes on an engine, as one type, and what all of them have in common with
regard to the log: they only append records, each under the next sequence number. -/

set_option autoImplicit false

namespace JiaMiaoDB
open StorageEngine

inductive Call where
  | createDatabase (name : Str)
  | dropDatabase (name : Str)
  | createSchema (dbName schemaName : Str)
  | createUser (name password salt : Str)
  | dropUser (name : Str)
  | setCurrentDb (name : Str)
  | createTable (name : Str) (columns : List ColumnDef)
  | dropTable (name : Str)
  | createIndex (table column : Str)
  | insert (table : Str) (row : Row)
  | update (table : Str) (matches_ : Row → Bool) (updates : Updates)
  | remove (table : Str) (matches_ : Row → Bool)
  | insertWithTxn (table : Str) (row : Row)
  | updateWithTxn (table : Str) (matches_ : Row → Bool) (updates : Updates)
  | removeWithTxn (table : Str) (matches_ : Row → Bool)
  | applyUndo
  | applyUndoTo (count : Nat)
  | writeXactCommit (xid : TransactionId)
  | writeXactAbort (xid : TransactionId)
  | vacuum
  | txn (call : TxnM Unit)
  | setClock (clock : Int64)

namespace Call

def discard {α : Type} (p : EngineM α) : EngineM Unit := do
  let _ ← p
  pure ()

/-- The call without the checkpoint check at its end. -/
def body : Call → EngineM Unit
  | createDatabase name => createDatabaseBody name
  | dropDatabase name => dropDatabaseBody name
  | createSchema dbName schemaName => createSchemaBody dbName schemaName
  | createUser name password salt => createUserBody name password salt
  | dropUser name => dropUserBody name
  | setCurrentDb name => StorageEngine.setCurrentDb name
  | createTable name columns => createTableBody name columns
  | dropTable name => dropTableBody name
  | createIndex table column => StorageEngine.createIndex table column
  | insert table row => discard (insertBody table row)
  | update table matches_ updates => discard (updateBody table matches_ updates)
  | remove table matches_ => discard (removeBody table matches_)
  | insertWithTxn table row => discard (insertWithTxnBody table row)
  | updateWithTxn table matches_ updates => discard (updateWithTxnBody table matches_ updates)
  | removeWithTxn table matches_ => discard (removeWithTxnBody table matches_)
  | applyUndo => StorageEngine.applyUndo
  | applyUndoTo count => StorageEngine.applyUndoTo count
  | writeXactCommit xid => StorageEngine.writeXactCommit xid
  | writeXactAbort xid => StorageEngine.writeXactAbort xid
  | vacuum => discard StorageEngine.vacuum
  | txn call => inTxn call
  | setClock clock => Prog.modify fun e => { e with clock := clock }

def exec : Call → EngineM Unit
  | createDatabase name => StorageEngine.createDatabase name
  | dropDatabase name => StorageEngine.dropDatabase name
  | createSchema dbName schemaName => StorageEngine.createSchema dbName schemaName
  | createUser name password salt => StorageEngine.createUser name password salt
  | dropUser name => StorageEngine.dropUser name
  | createTable name columns => StorageEngine.createTable name columns
  | dropTable name => StorageEngine.dropTable name
  | insert table row => discard (StorageEngine.insert table row)
  | update table matches_ updates => discard (StorageEngine.update table matches_ updates)
  | remove table matches_ => discard (StorageEngine.remove table matches_)
  | insertWithTxn table row => discard (StorageEngine.insertWithTxn table row)
  | updateWithTxn table matches_ updates =>
    discard (StorageEngine.updateWithTxn table matches_ updates)
  | removeWithTxn table matches_ => discard (StorageEngine.removeWithTxn table matches_)
  | call => call.body

/-- Whether the call ends with a checkpoint check. -/
def checksCheckpoint : Call → Bool
  | setCurrentDb _ | createIndex _ _ | applyUndo | applyUndoTo _ | writeXactCommit _
  | writeXactAbort _ | vacuum | txn _ | setClock _ => false
  | _ => true

theorem discard_thenCheckpoint {α : Type} (p : EngineM α) :
    discard (thenCheckpoint p) = thenCheckpoint (discard p) := by
  simp only [discard, thenCheckpoint, bind_assoc, pure_bind]

theorem exec_eq (c : Call) :
    c.exec = if c.checksCheckpoint then thenCheckpoint c.body else c.body := by
  cases c with
  | insert | update | remove | insertWithTxn | updateWithTxn | removeWithTxn =>
    exact discard_thenCheckpoint _
  | _ => rfl

end Call

/-! ### Invariants of the log and the counter -/

/-- A property of the files and the counter that a new number keeps. -/
structure CounterInvariant (I : Dir → Int64 → Prop) : Prop where
  bump : ∀ dir n, n ≠ Int64.maxValue → I dir n → I dir (n + 1)

/-- One that a new record under a new number keeps too. -/
structure LogInvariant (I : Dir → Int64 → Prop) : Prop extends CounterInvariant I where
  write : ∀ dir n clock (op : WalOp) table xid data, n ≠ Int64.maxValue → I dir n →
    I (dir.push (.append ⟨n + 1, clock, op.toTag, table, xid, data⟩)) (n + 1)

/-- One that every new record keeps but the record of a commit. -/
structure DataInvariant (I : Dir → Int64 → Prop) : Prop extends CounterInvariant I where
  write : ∀ dir n clock (op : WalOp) table xid data, op ≠ .xactCommit → n ≠ Int64.maxValue → I dir n →
    I (dir.push (.append ⟨n + 1, clock, op.toTag, table, xid, data⟩)) (n + 1)

theorem LogInvariant.data {I : Dir → Int64 → Prop} (h : LogInvariant I) : DataInvariant I :=
  ⟨h.toCounterInvariant, fun dir n clock op table xid data _ => h.write dir n clock op table xid data⟩

def LogInvariant.On (I : Dir → Int64 → Prop) (e : StorageEngine) : Prop := I e.dir e.walSeq

namespace LogInvariant
variable {I : Dir → Int64 → Prop}

/-- A program that leaves files and counter alone. -/
theorem keeps_modify {f : StorageEngine → StorageEngine}
    (hf : ∀ e, (f e).dir = e.dir ∧ (f e).walSeq = e.walSeq) :
    Prog.Keeps (ε := Failure) (On I) (Prog.modify f) :=
  Prog.Keeps.modify fun e h => by
    rw [On, (hf e).1, (hf e).2]
    exact h

theorem keeps_inTxn {α : Type} (p : TxnM α) : Prog.Keeps (On I) (inTxn p) := fun e h => by
  rw [inTxn, Prog.wp_zoom]
  exact Prog.wp_mono (Prog.wp_true p) (fun _ _ _ => h) (fun _ _ _ => h)

theorem keeps_inCatalog {α : Type} (p : CatalogM α) : Prog.Keeps (On I) (inCatalog p) :=
  fun e h => by
    rw [inCatalog, Prog.wp_zoom]
    exact Prog.wp_mono (Prog.wp_true p) (fun _ _ _ => h) (fun _ _ _ => h)

theorem modifyTable_frame (qualified : Str) (f : MemTable → MemTable) (e : StorageEngine) :
    (modifyTable qualified f e).dir = e.dir ∧ (modifyTable qualified f e).walSeq = e.walSeq := by
  rw [modifyTable]
  split <;> exact ⟨rfl, rfl⟩

theorem keeps_nextSeq (h : CounterInvariant I) : Prog.Keeps (On I) nextSeq := fun e he => by
  rw [nextSeq, Prog.wp_bind, Prog.wp_get]
  by_cases hmax : e.walSeq = Int64.maxValue
  · rw [if_pos hmax]
    exact he
  · rw [if_neg hmax]
    exact h.bump _ _ hmax he

theorem keeps_writeWal_of {op : WalOp} {table : Str} {payload : Bytes} {xid : TransactionId}
    (h : ∀ dir n clock, n ≠ Int64.maxValue → I dir n →
      I (dir.push (.append ⟨n + 1, clock, op.toTag, table, xid, payload⟩)) (n + 1)) :
    Prog.Keeps (On I) (writeWal op table payload xid) := fun e he => by
  rw [writeWal, Prog.wp_bind, nextSeq, Prog.wp_bind, Prog.wp_get]
  by_cases hmax : e.walSeq = Int64.maxValue
  · rw [if_pos hmax]
    exact he
  · rw [if_neg hmax]
    exact h _ _ _ hmax he

theorem keeps_writeWal (h : DataInvariant I) {op : WalOp} (hop : op ≠ .xactCommit) (table : Str)
    (payload : Bytes) (xid : TransactionId) :
    Prog.Keeps (On I) (writeWal op table payload xid) :=
  keeps_writeWal_of fun _ _ _ hmax he => h.write _ _ _ op table xid payload hop hmax he

theorem keeps_eraseVersions (qualified : Str) (rowId : Int64) :
    Prog.Keeps (On I) (eraseVersions qualified rowId) :=
  keeps_modify (modifyTable_frame qualified _)

theorem keeps_putVersion (h : CounterInvariant I) (qualified : Str) (rowId : Int64) (row : Row) :
    Prog.Keeps (On I) (putVersion qualified rowId row) :=
  (Prog.Keeps.ofExcept _).bind fun _ =>
    (keeps_nextSeq h).bind fun _ => keeps_modify (modifyTable_frame qualified _)

theorem keeps_rebuildIndexes (table : Str) : Prog.Keeps (On I) (rebuildIndexes table) := by
  refine Prog.Keeps.get_bind fun e h => ?_
  split
  · rw [Prog.wp_bind, Prog.wp_set]
    exact Prog.Keeps.ofExcept _ _ h
  · exact h

theorem keeps_createIndex (table column : Str) : Prog.Keeps (On I) (createIndex table column) := by
  refine Prog.Keeps.get_bind fun e h => ?_
  dsimp only
  split
  · exact h
  · split
    · exact h
    · split
      · exact h
      · split <;> exact h

theorem setRowCount_frame (qualified : Str) (e : StorageEngine) :
    (setRowCount qualified e).dir = e.dir ∧ (setRowCount qualified e).walSeq = e.walSeq := by
  rw [setRowCount]
  split <;> exact ⟨rfl, rfl⟩

theorem updateIndexes_frame (table : Str) (rowId : Int64) (row : Row) (e : StorageEngine) :
    (updateIndexes table rowId row e).dir = e.dir ∧
      (updateIndexes table rowId row e).walSeq = e.walSeq := by
  rw [updateIndexes]
  split <;> exact ⟨rfl, rfl⟩

theorem keeps_nextRowId (qualified : Str) : Prog.Keeps (On I) (nextRowId qualified) := by
  refine Prog.Keeps.get_bind fun e h => ?_
  dsimp only
  split <;> exact h

theorem keeps_rebuildIf (affected : Bool) (table : Str) :
    Prog.Keeps (On I) (rebuildIf affected table) :=
  Prog.Keeps.ite (fun _ => keeps_rebuildIndexes table) (fun _ => Prog.Keeps.pure ())

section Rows
variable (h : DataInvariant I)
include h

theorem keeps_storeInserted (qualified : Str) (id : Int64) (row : Row) (xid : TransactionId) :
    Prog.Keeps (On I) (storeInserted qualified id row xid) :=
  (keeps_writeWal h (by decide) _ _ _).bind fun _ =>
    (keeps_putVersion h.toCounterInvariant _ _ _).bind fun _ =>
      (keeps_modify (updateIndexes_frame _ _ _)).bind fun _ => keeps_modify (setRowCount_frame _)

theorem keeps_insertBody (table : Str) (row : Row) : Prog.Keeps (On I) (insertBody table row) := by
  refine Prog.Keeps.get.bind fun e => ?_
  dsimp only
  split
  · exact Prog.Keeps.throw _
  · exact (Prog.Keeps.ofExcept _).bind fun _ => (keeps_nextRowId _).bind fun _ =>
      (Prog.Keeps.ofExcept _).bind fun _ => (keeps_storeInserted h _ _ _ _).bind fun _ =>
        Prog.Keeps.pure _

theorem keeps_updateRow (qualified : Str) (updates : Updates) (row : Row) :
    Prog.Keeps (On I) (updateRow qualified updates row) :=
  (Prog.Keeps.ofExcept _).bind fun _ => (keeps_writeWal h (by decide) _ _ _).bind fun _ =>
    (keeps_eraseVersions _ _).bind fun _ => keeps_putVersion h.toCounterInvariant _ _ _

theorem keeps_updateBody (table : Str) (matches_ : Row → Bool) (updates : Updates) :
    Prog.Keeps (On I) (updateBody table matches_ updates) :=
  Prog.Keeps.get.bind fun _ => (Prog.Keeps.ofExcept _).bind fun _ =>
    (Prog.Keeps.ofExcept _).bind fun _ =>
      (Prog.Keeps.forEach fun _ _ => keeps_updateRow h _ _ _).bind fun _ =>
        (keeps_rebuildIf _ _).bind fun _ => Prog.Keeps.pure _

theorem keeps_copyRows (qualified : Str) (rows : List Row) (m : MemTable) :
    Prog.Keeps (On I) (rows.foldlM (copyRow qualified) m) := by
  induction rows generalizing m with
  | nil => exact Prog.Keeps.pure m
  | cons row rows ih =>
    rw [List.foldlM_cons]
    exact ((Prog.Keeps.ofExcept _).bind fun _ => (Prog.Keeps.ofExcept _).bind fun _ =>
      (keeps_nextSeq h.toCounterInvariant).bind fun _ => Prog.Keeps.pure _).bind fun m' => ih m'

theorem keeps_removeRows (qualified : Str) (rows targets : RowSet) :
    Prog.Keeps (On I) (removeRows qualified rows targets) :=
  Prog.Keeps.ite (fun _ => Prog.Keeps.pure _) fun _ => (keeps_copyRows h _ _ _).bind fun _ =>
    (keeps_modify (f := (·.setTable qualified _)) fun _ => ⟨rfl, rfl⟩).bind fun _ =>
      keeps_rebuildIndexes _

theorem keeps_removeBody (table : Str) (matches_ : Row → Bool) :
    Prog.Keeps (On I) (removeBody table matches_) :=
  Prog.Keeps.get.bind fun _ => (Prog.Keeps.ofExcept _).bind fun _ =>
    (Prog.Keeps.ofExcept _).bind fun _ =>
      (Prog.Keeps.forEach fun _ _ => (Prog.Keeps.ofExcept _).bind fun _ =>
        keeps_writeWal h (by decide) _ _ _).bind fun _ => (keeps_removeRows h _ _ _).bind fun _ =>
          (keeps_modify (setRowCount_frame _)).bind fun _ => Prog.Keeps.pure _

theorem keeps_insertWithTxnBody (table : Str) (row : Row) :
    Prog.Keeps (On I) (insertWithTxnBody table row) := by
  refine Prog.Keeps.get.bind fun e => ?_
  dsimp only
  split
  · exact Prog.Keeps.throw _
  · exact (Prog.Keeps.ofExcept _).bind fun _ => (keeps_nextRowId _).bind fun _ =>
      (keeps_inTxn _).bind fun _ => Prog.Keeps.get.bind fun _ =>
        (Prog.Keeps.ofExcept _).bind fun _ => (keeps_inTxn _).bind fun _ =>
          (keeps_inTxn _).bind fun _ => (keeps_storeInserted h _ _ _ _).bind fun _ =>
            Prog.Keeps.pure _

theorem keeps_updateRowWithTxn (qualified : Str) (updates : Updates) (r : Reader)
    (all : List Tuple) (row : Row) :
    Prog.Keeps (On I) (updateRowWithTxn qualified updates r all row) :=
  (Prog.Keeps.ofExcept _).bind fun _ => (keeps_inTxn _).bind fun _ =>
    Prog.Keeps.get.bind fun _ => (keeps_inTxn _).bind fun _ => (keeps_inTxn _).bind fun _ =>
      (keeps_writeWal h (by decide) _ _ _).bind fun _ => (keeps_eraseVersions _ _).bind fun _ =>
        keeps_putVersion h.toCounterInvariant _ _ _

theorem keeps_removeRowWithTxn (qualified : Str) (r : Reader) (row : Row) :
    Prog.Keeps (On I) (removeRowWithTxn qualified r row) :=
  (Prog.Keeps.ofExcept _).bind fun _ => (keeps_inTxn _).bind fun _ => (keeps_inTxn _).bind fun _ =>
    (keeps_eraseVersions _ _).bind fun _ => (keeps_putVersion h.toCounterInvariant _ _ _).bind fun _ =>
      keeps_writeWal h (by decide) _ _ _

omit h in
theorem keeps_onVisible {body : Row → EngineM Unit} (hbody : ∀ row, Prog.Keeps (On I) (body row))
    (r : Reader) (matches_ : Row → Bool) (t : Tuple) :
    Prog.Keeps (On I) (onVisible r matches_ body t) :=
  (Prog.Keeps.ofExcept _).bind fun row => Prog.Keeps.get.bind fun _ =>
    Prog.Keeps.ite (fun _ => (hbody row).bind fun _ => Prog.Keeps.pure _) fun _ => Prog.Keeps.pure _

theorem keeps_updateWithTxnBody (table : Str) (matches_ : Row → Bool) (updates : Updates) :
    Prog.Keeps (On I) (updateWithTxnBody table matches_ updates) :=
  Prog.Keeps.get.bind fun _ => (Prog.Keeps.ofExcept _).bind fun _ => (keeps_inTxn _).bind fun _ =>
    Prog.Keeps.get.bind fun _ =>
      (Prog.Keeps.sumEach fun _ _ => keeps_onVisible (keeps_updateRowWithTxn h _ _ _ _) _ _ _).bind
        fun _ => (keeps_rebuildIf _ _).bind fun _ => Prog.Keeps.pure _

theorem keeps_removeWithTxnBody (table : Str) (matches_ : Row → Bool) :
    Prog.Keeps (On I) (removeWithTxnBody table matches_) :=
  Prog.Keeps.get.bind fun _ => (Prog.Keeps.ofExcept _).bind fun _ => (keeps_inTxn _).bind fun _ =>
    Prog.Keeps.get.bind fun _ =>
      Prog.Keeps.sumEach fun _ _ => keeps_onVisible (keeps_removeRowWithTxn h _ _) _ _ _

theorem keeps_applyUndoRecord (rec_ : UndoRecord) :
    Prog.Keeps (On I) (applyUndoRecord rec_) := by
  refine Prog.Keeps.get.bind fun e => ?_
  split
  · exact Prog.Keeps.pure _
  · exact (keeps_eraseVersions _ _).bind fun _ =>
      Prog.Keeps.ite (fun _ => Prog.Keeps.pure _) fun _ => keeps_putVersion h.toCounterInvariant _ _ _

theorem keeps_applyUndoTo (count : Nat) : Prog.Keeps (On I) (StorageEngine.applyUndoTo count) :=
  Prog.Keeps.get.bind fun _ =>
    (Prog.Keeps.forEach fun _ _ => keeps_applyUndoRecord h _).bind fun _ =>
      Prog.Keeps.forEach fun _ _ => keeps_rebuildIndexes _

end Rows

/-! ### The other calls -/

theorem eraseTables_frame (names : List Str) (e : StorageEngine) :
    (names.foldl (fun e t => eraseTable t e) e).dir = e.dir ∧
      (names.foldl (fun e t => eraseTable t e) e).walSeq = e.walSeq := by
  induction names generalizing e with
  | nil => exact ⟨rfl, rfl⟩
  | cons t names ih => exact ih (eraseTable t e)

theorem keeps_createKeyIndexes (qualified : Str) (columns : List ColumnDef) :
    Prog.Keeps (On I) (createKeyIndexes qualified columns) :=
  Prog.Keeps.forEach fun _ _ =>
    Prog.Keeps.ite (fun _ => keeps_createIndex _ _) fun _ => Prog.Keeps.pure _

section Calls
variable (h : DataInvariant I)
include h

theorem keeps_catalogBody (call : CatalogM Unit) {op : WalOp} (hop : op ≠ .xactCommit) (name : Str)
    (payload : Bytes) : Prog.Keeps (On I) (catalogBody call op name payload) :=
  (keeps_inCatalog _).bind fun _ => keeps_writeWal h hop _ _ _

theorem keeps_createTableBody (name : Str) (columns : List ColumnDef) :
    Prog.Keeps (On I) (createTableBody name columns) := by
  refine Prog.Keeps.get.bind fun e => Prog.Keeps.ite (fun _ => Prog.Keeps.throw _) fun _ => ?_
  exact (keeps_writeWal h (by decide) _ _ _).bind fun _ =>
    (keeps_modify (f := resetTable _ columns) fun _ => ⟨rfl, rfl⟩).bind fun _ =>
      keeps_createKeyIndexes _ _

theorem keeps_dropTableBody (name : Str) : Prog.Keeps (On I) (dropTableBody name) := by
  refine Prog.Keeps.get.bind fun e => Prog.Keeps.ite (fun _ => ?_) fun _ => Prog.Keeps.throw _
  exact (keeps_writeWal h (by decide) _ _ _).bind fun _ =>
    keeps_modify (f := eraseTable _) fun _ => ⟨rfl, rfl⟩

theorem keeps_freezeRow (qualified : Str) (rowId : Int64) :
    Prog.Keeps (On I) (freezeRow qualified rowId) := by
  refine Prog.Keeps.get.bind fun e => ?_
  split
  · exact Prog.Keeps.pure _
  · exact (Prog.Keeps.ofExcept _).bind fun _ => (keeps_eraseVersions _ _).bind fun _ =>
      keeps_putVersion h.toCounterInvariant _ _ _

theorem keeps_vacuumTable (oldest : TransactionId) (qualified : Str) :
    Prog.Keeps (On I) (vacuumTable oldest qualified) := by
  refine Prog.Keeps.get.bind fun e => ?_
  split
  · exact Prog.Keeps.pure _
  · exact (Prog.Keeps.ofExcept _).bind fun _ =>
      (Prog.Keeps.forEach fun _ _ => keeps_eraseVersions _ _).bind fun _ =>
        (Prog.Keeps.forEach fun _ _ => keeps_freezeRow h _ _).bind fun _ =>
          (keeps_modify (setRowCount_frame _)).bind fun _ => Prog.Keeps.get.bind fun _ =>
            (keeps_rebuildIf _ _).bind fun _ => Prog.Keeps.pure _

/-- Every call but the record of a commit keeps the invariant up to its checkpoint check. -/
theorem keeps_body_of_ne {c : Call} (hc : ∀ xid, c ≠ .writeXactCommit xid) :
    Prog.Keeps (On I) c.body := by
  have discard {α : Type} {p : EngineM α} (hp : Prog.Keeps (On I) p) :
      Prog.Keeps (On I) (Call.discard p) := hp.bind fun _ => Prog.Keeps.pure _
  cases c with
  | createDatabase name => exact keeps_catalogBody h _ (by decide) _ _
  | dropDatabase name =>
    exact (keeps_inCatalog _).bind fun _ =>
      (keeps_modify fun e => eraseTables_frame _ e).bind fun _ => keeps_writeWal h (by decide) _ _ _
  | createSchema dbName schemaName => exact keeps_catalogBody h _ (by decide) _ _
  | createUser name password salt => exact keeps_catalogBody h _ (by decide) _ _
  | dropUser name => exact keeps_catalogBody h _ (by decide) _ _
  | setCurrentDb name => exact keeps_inCatalog (Catalog.setCurrentDatabase name)
  | createTable name columns => exact keeps_createTableBody h name columns
  | dropTable name => exact keeps_dropTableBody h name
  | createIndex table column => exact keeps_createIndex table column
  | insert table row => exact discard (keeps_insertBody h table row)
  | update table matches_ updates => exact discard (keeps_updateBody h _ _ _)
  | remove table matches_ => exact discard (keeps_removeBody h _ _)
  | insertWithTxn table row => exact discard (keeps_insertWithTxnBody h _ _)
  | updateWithTxn table matches_ updates => exact discard (keeps_updateWithTxnBody h _ _ _)
  | removeWithTxn table matches_ => exact discard (keeps_removeWithTxnBody h _ _)
  | applyUndo => exact Prog.Keeps.get.bind fun _ => keeps_applyUndoTo h _
  | applyUndoTo count => exact keeps_applyUndoTo h count
  | writeXactCommit xid => exact absurd rfl (hc xid)
  | writeXactAbort xid => exact keeps_writeWal h (by decide) _ _ _
  | vacuum =>
    exact discard (Prog.Keeps.get.bind fun _ =>
      (Prog.Keeps.sumEach fun _ _ => keeps_vacuumTable h _ _).bind fun _ =>
        (keeps_inTxn _).bind fun _ => Prog.Keeps.pure _)
  | txn call => exact keeps_inTxn call
  | setClock clock => exact keeps_modify fun _ => ⟨rfl, rfl⟩

end Calls

theorem keeps_body (h : LogInvariant I) (c : Call) : Prog.Keeps (On I) c.body := by
  by_cases hc : ∃ xid, c = .writeXactCommit xid
  · obtain ⟨xid, rfl⟩ := hc
    exact keeps_writeWal_of fun _ _ _ hmax he => h.write _ _ _ .xactCommit [] xid _ hmax he
  · exact keeps_body_of_ne h.data fun xid hxid => hc ⟨xid, hxid⟩

/-! ### Loading -/

section Load
variable (h : CounterInvariant I)
include h

omit h in
theorem keeps_replayRow (r : WALRecordV3) {body : MemTable → EngineM Unit}
    (hbody : ∀ m, Prog.Keeps (On I) (body m)) : Prog.Keeps (On I) (replayRow r body) := by
  refine Prog.Keeps.get.bind fun e => Prog.Keeps.ite (fun _ => ?_) fun _ => Prog.Keeps.pure _
  split
  · exact Prog.Keeps.pure _
  · exact hbody _

theorem keeps_replayInsert (r : WALRecordV3) : Prog.Keeps (On I) (replayInsert r) := by
  rw [replayInsert]
  split
  · exact Prog.Keeps.pure _
  · exact (keeps_putVersion h _ _ _).bind fun _ =>
      (keeps_modify (updateIndexes_frame _ _ _)).bind fun _ =>
        (keeps_modify (setRowCount_frame _)).bind fun _ => keeps_modify fun _ => ⟨rfl, rfl⟩

theorem keeps_replayUpdate (r : WALRecordV3) : Prog.Keeps (On I) (replayUpdate r) := by
  rw [replayUpdate]
  split
  · exact Prog.Keeps.pure _
  · exact (keeps_putVersion h _ _ _).bind fun _ => Prog.Keeps.get.bind fun _ =>
      (keeps_rebuildIf _ _).bind fun _ => (keeps_rebuildIndexes _).bind fun _ =>
        keeps_modify (setRowCount_frame _)

theorem keeps_replayDelete (r : WALRecordV3) (m : MemTable) :
    Prog.Keeps (On I) (replayDelete r m) := by
  rw [replayDelete]
  split
  · exact Prog.Keeps.pure _
  · split
    · split
      · exact Prog.Keeps.pure _
      · exact (Prog.Keeps.ofExcept _).bind fun _ => keeps_putVersion h _ _ _
    · exact (keeps_eraseVersions _ _).bind fun _ => (keeps_rebuildIndexes _).bind fun _ =>
        keeps_modify (setRowCount_frame _)

theorem keeps_replayRecord (r : WALRecordV3) : Prog.Keeps (On I) (replayRecord r) := by
  rw [replayRecord]
  split
  · exact keeps_inCatalog _
  · exact Prog.Keeps.get.bind fun _ =>
      Prog.Keeps.ite (fun _ => keeps_inCatalog _) fun _ => Prog.Keeps.pure _
  · split
    · exact Prog.Keeps.pure _
    · exact keeps_inCatalog _
  · exact Prog.Keeps.pure _
  · exact Prog.Keeps.get.bind fun _ =>
      Prog.Keeps.ite (fun _ => keeps_inCatalog _) fun _ => Prog.Keeps.pure _
  · split
    · exact Prog.Keeps.pure _
    · exact (keeps_modify (f := resetTable _ _) fun _ => ⟨rfl, rfl⟩).bind fun _ =>
        keeps_createKeyIndexes _ _
  · exact keeps_modify (f := eraseTable _) fun _ => ⟨rfl, rfl⟩
  · exact keeps_modify fun e => by rw [setStatus]; split <;> exact ⟨rfl, rfl⟩
  · exact keeps_modify fun e => by rw [setStatus]; split <;> exact ⟨rfl, rfl⟩
  · exact keeps_replayRow r fun _ => keeps_replayInsert h r
  · exact keeps_replayRow r fun _ => keeps_replayUpdate h r
  · exact keeps_replayRow r fun m => keeps_replayDelete h r m
  · exact Prog.Keeps.pure _

theorem keeps_restoreTable (ckp : Checkpoint) (isOld : Bool) (t : TableSchema) :
    Prog.Keeps (On I) (restoreTable ckp isOld t) :=
  (keeps_modify (f := addTable _ _) fun _ => ⟨rfl, rfl⟩).bind fun _ =>
    (Prog.Keeps.forEach fun _ _ => keeps_putVersion h _ _ _).bind fun _ =>
      keeps_modify fun _ => ⟨rfl, rfl⟩

end Load

theorem keeps_restore (P : Dir → Prop) (ckp : Checkpoint) :
    Prog.Keeps (On fun dir _ => P dir) (restore ckp) := by
  have h : CounterInvariant fun dir _ => P dir := ⟨fun _ _ _ hd => hd⟩
  rw [restore]
  refine Prog.Keeps.bind (Prog.Keeps.modify fun _ hd => hd) fun _ => ?_
  exact (keeps_inCatalog _).bind fun _ =>
    (Prog.Keeps.forEach fun t _ => keeps_restoreTable h ckp _ t).bind fun _ => keeps_inTxn _

theorem keeps_openLog (P : Dir → Prop) (fromSeq : Int64) :
    Prog.Keeps (On fun dir _ => P dir) (openLog fromSeq) := by
  rw [openLog]
  exact Prog.Keeps.get_bind fun e hd => hd

/-- Loading writes no file. -/
theorem keeps_load (P : Dir → Prop) : Prog.Keeps (On fun dir _ => P dir) load := by
  have h : CounterInvariant fun dir _ => P dir := ⟨fun _ _ _ hd => hd⟩
  rw [load]
  refine Prog.Keeps.bind Prog.Keeps.get fun e => ?_
  exact (keeps_restore P _).bind fun _ => (keeps_openLog P _).bind fun _ =>
    Prog.Keeps.forEach fun r _ => keeps_replayRecord h r

end LogInvariant

theorem StorageEngine.dir_of_load {d : Disk} {checkpointInterval : Int32} {clock : Int64} {e : StorageEngine}
    (h : load.run (create d checkpointInterval clock) = (.ok (), e)) : e.dir = Dir.create d := by
  have hdir := (LogInvariant.keeps_load (· = Dir.create d)).final
    (s := create d checkpointInterval clock) rfl
  rw [h] at hdir
  exact hdir

end JiaMiaoDB
