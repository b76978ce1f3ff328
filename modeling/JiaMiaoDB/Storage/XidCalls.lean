import JiaMiaoDB.Storage.XidBounds

/-!
# Calls and the ids in use

A client does not set the next id itself and adds no undo records. Then every call of the engine
keeps the ids of the state below the next one, which never goes down.
-/

set_option autoImplicit false

namespace JiaMiaoDB
open TransactionManager StorageEngine BinaryRowCodec

/-! ### Calls of the transaction manager -/

/-- The next id is set by `load` only, and undo records are added by the statements. -/
def ManagerCall.client : ManagerCall → Bool
  | .setNextXid _ | .addUndoRecord _ => false
  | _ => true

section Manager
variable {n : TransactionId}

theorem grown_commitTransaction : Prog.Keeps (Grown n) TransactionManager.commitTransaction := by
  refine Prog.Keeps.get_bind fun m h => ?_
  dsimp only
  split
  · rename_i hxid
    have hclear : TransactionManager.Bounded
        (m.setContext { m.context with undoRecords := [], hasSnapshot := false }) :=
      h.1.clear hxid rfl
    exact ⟨hclear.congr rfl rfl rfl rfl, h.2⟩
  · split
    · exact h
    · exact ⟨h.1.finish h.1.context _, h.2⟩

theorem grown_commandCounterIncrement :
    Prog.Keeps (Grown n) TransactionManager.commandCounterIncrement := by
  refine Prog.Keeps.get_bind fun m h => ?_
  split
  · exact h
  · exact ⟨h.1.congr rfl rfl rfl rfl, h.2⟩

theorem nextXid_abortTransaction (m : TransactionManager) :
    m.abortTransaction.nextXid = m.nextXid := by
  simp only [TransactionManager.abortTransaction]
  split <;> rfl

theorem grown_commitTransactionCommand :
    Prog.Keeps (Grown n) TransactionManager.commitTransactionCommand := by
  have hcommit := grown_commitTransaction.bind fun _ =>
    Prog.Keeps.modify (ε := Failure) (f := fun m => m.setBlockState .default)
      fun m (h : m.Grown n) => ⟨h.1.congr rfl rfl rfl rfl, h.2⟩
  refine Prog.Keeps.get_bind fun m h => ?_
  split
  · exact hcommit m h
  · exact hcommit m h
  · exact ⟨h.1.congr rfl rfl rfl rfl, h.2⟩
  · exact grown_commandCounterIncrement m h
  · refine ⟨h.1.abortTransaction.congr rfl rfl rfl rfl, ?_⟩
    change n ≤ m.abortTransaction.nextXid
    rw [nextXid_abortTransaction]
    exact h.2
  · exact h

theorem grown_beginTransactionBlock :
    Prog.Keeps (Grown n) TransactionManager.beginTransactionBlock := by
  refine Prog.Keeps.get_bind fun m h => ?_
  split
  · exact ⟨h.1.clear rfl rfl, h.2⟩
  · exact ⟨h.1.congr rfl rfl rfl rfl, h.2⟩
  · exact h

/-- The calls that a client makes. -/
theorem grown_run {c : ManagerCall} (hc : c.client = true) : Prog.Keeps (Grown n) c.run := by
  have discard {α : Type} {p : TxnM α} (hp : Prog.Keeps (Grown n) p) :
      Prog.Keeps (Grown n) (ManagerCall.discard p) := hp.bind fun _ => Prog.Keeps.pure ()
  cases c with
  | startTransactionCommand =>
    refine Prog.Keeps.modify fun m h => ?_
    unfold TransactionManager.startTransactionCommand
    split
    · exact ⟨h.1.clear rfl rfl, h.2⟩
    · exact h
  | commitTransactionCommand => exact grown_commitTransactionCommand
  | beginTransactionBlock => exact grown_beginTransactionBlock
  | commitTransaction => exact grown_commitTransaction
  | abortTransaction =>
    exact grown_modify (fun m h => h.abortTransaction) nextXid_abortTransaction
  | setIsolationLevel level =>
    exact grown_modify (fun m h => h.congr rfl rfl rfl rfl) fun _ => rfl
  | assignXid => exact discard grown_assignXid
  | setNextXid xid => cases hc
  | freezeOldXids => exact grown_modify (fun m h => h.freezeOldXids) fun _ => rfl
  | maybeAntiWraparound =>
    exact grown_modify (fun m h => h.maybeAntiWraparound) nextXid_maybeAntiWraparound
  | commandCounterIncrement => exact grown_commandCounterIncrement
  | getTransactionSnapshot =>
    refine discard (Prog.Keeps.get_bind fun m h => ?_)
    split
    · exact h
    · exact ⟨h.1.congr rfl rfl rfl rfl, h.2⟩
  | addUndoRecord r => cases hc
  | savepoint name => exact grown_modify (fun m h => h.congr rfl rfl rfl rfl) fun _ => rfl
  | rollbackToSavepoint name =>
    refine discard (Prog.Keeps.get_bind fun m h => ?_)
    split
    · exact h
    · exact ⟨h.1.congr rfl rfl rfl rfl, h.2⟩
  | releaseSavepoint name =>
    refine Prog.Keeps.get_bind fun m h => ?_
    split
    · exact h
    · exact ⟨h.1.congr rfl rfl rfl rfl, h.2⟩
  | registerSiread key =>
    refine grown_modify (fun m h => h.registerSiread key) fun m => ?_
    unfold TransactionManager.registerSiread
    split <;> rfl
  | registerWrite key =>
    refine grown_modify (fun m h => h.registerWrite key) fun m => ?_
    unfold TransactionManager.registerWrite
    split <;> rfl
  | cleanupTransactionState xid =>
    exact grown_modify (fun m h => h.congr rfl rfl rfl rfl) fun _ => rfl
  | rebuildActiveFromClog => exact grown_modify (fun m h => h.rebuildActiveFromClog) fun _ => rfl
  | resetContext => exact grown_modify (fun m h => h.clear rfl rfl) fun _ => rfl

end Manager

namespace StorageEngine

/-! ### Engines -/

/-- The ids of the manager and all stamps are below the next id, which is at least `n`. -/
structure Bounded (n : TransactionId) (e : StorageEngine) : Prop where
  manager : e.txnMgr.Grown n
  stamps : ∀ (q : Str) (mem : MemTable), e.data[q]? = some mem → MemBelow e.txnMgr.nextXid mem

section Engine
variable {n : TransactionId} {e : StorageEngine} {α : Type}

theorem zero_below {xid k : TransactionId} (h : xid < k) : 0 < k :=
  UInt32.lt_of_le_of_lt UInt32.zero_le h

theorem Bounded.sealed (h : Bounded n e) : Sealed e.txnMgr e.txnMgr.nextXid e := ⟨rfl, h.stamps⟩

theorem Bounded.weaken {k : TransactionId} (h : Bounded k e) (hnk : n ≤ k) : Bounded n e :=
  ⟨⟨h.manager.1, UInt32.le_trans hnk h.manager.2⟩, h.stamps⟩

theorem Bounded.self (h : Bounded n e) : Bounded e.txnMgr.nextXid e :=
  ⟨⟨h.manager.1, UInt32.le_refl _⟩, h.stamps⟩

theorem Sealed.bounded {m : TransactionManager} (h : Sealed m m.nextXid e) (hm : m.Grown n) :
    Bounded n e := by
  obtain ⟨rfl, hstamps⟩ := h
  exact ⟨hm, hstamps⟩

/-- A program that leaves the manager alone. -/
theorem Bounded.wp_sealed {p : EngineM α} (h : Bounded n e)
    (hp : p.wp (fun _ => Sealed e.txnMgr e.txnMgr.nextXid)
      (fun _ => Sealed e.txnMgr e.txnMgr.nextXid) e) :
    p.wp (fun _ => Bounded n) (fun _ => Bounded n) e :=
  Prog.wp_mono hp (fun _ _ h' => h'.bounded h.manager) fun _ _ h' => h'.bounded h.manager

theorem bounded_of_sealed {p : EngineM α}
    (hp : ∀ m : TransactionManager, m.Grown n → Prog.Keeps (Sealed m m.nextXid) p) :
    Prog.Keeps (Bounded n) p := fun e h => h.wp_sealed (hp _ h.manager e h.sealed)

theorem Bounded.setTxnMgr {m : TransactionManager} (h : Bounded n e) (hm : m.Bounded)
    (hle : e.txnMgr.nextXid ≤ m.nextXid) : Bounded n (e.setTxnMgr m) :=
  ⟨⟨hm, UInt32.le_trans h.manager.2 hle⟩, fun q mem hq => (h.stamps q mem hq).mono hle⟩

theorem bounded_inTxn {p : TxnM α}
    (hp : ∀ k, n ≤ k → Prog.Keeps (Grown k) p) : Prog.Keeps (Bounded n) (inTxn p) := fun e h => by
  rw [inTxn, Prog.wp_zoom]
  exact Prog.wp_mono (hp _ h.manager.2 e.txnMgr ⟨h.manager.1, UInt32.le_refl _⟩)
    (fun _ _ hm => h.setTxnMgr hm.1 hm.2) fun _ _ hm => h.setTxnMgr hm.1 hm.2

/-- What is left to do may use the id that has just been reached. -/
theorem Bounded.raise {p : EngineM α} (h : Bounded n e)
    (hp : Prog.Keeps (Bounded e.txnMgr.nextXid) p) :
    p.wp (fun _ => Bounded n) (fun _ => Bounded n) e :=
  Prog.wp_mono (hp e h.self) (fun _ _ h' => h'.weaken h.manager.2) fun _ _ h' =>
    h'.weaken h.manager.2

/-- A statement takes an id for its transaction and goes on with it. -/
theorem Bounded.wp_assignXid (h : Bounded n e) {f : TransactionId → EngineM α}
    (hf : ∀ xid k, xid < k → n ≤ k → Prog.Keeps (Bounded k) (f xid)) :
    (inTxn TransactionManager.assignXid >>= f).wp (fun _ => Bounded n) (fun _ => Bounded n) e := by
  rw [Prog.wp_bind, inTxn, Prog.wp_zoom]
  refine Prog.wp_mono (JiaMiaoDB.wp_assignXid (n := e.txnMgr.nextXid)
    ⟨h.manager.1, UInt32.le_refl _⟩) (fun xid m hm => ?_) fun _ m hm => h.setTxnMgr hm.1 hm.2
  obtain ⟨hm, hxid, hle⟩ := hm
  have h' : Bounded n (e.setTxnMgr m) := h.setTxnMgr hm.1 hle
  exact h'.raise (hf xid m.nextXid hxid h'.manager.2)

/-! ### Statements of a transaction -/

theorem bounded_checkUnique (qualified : Str) (columns : List ColumnDef) (row : Row) (r : Reader)
    (all : List Tuple) : Prog.Keeps (Bounded n) (inTxn (checkUnique qualified columns row r all)) := by
  refine bounded_inTxn fun k _ => Prog.Keeps.forEach fun col _ => Prog.Keeps.ite
    (fun _ => Prog.Keeps.pure _) fun _ => ?_
  split
  · exact Prog.Keeps.pure _
  · refine Prog.Keeps.forEach fun t _ => (Prog.Keeps.ofExcept _).bind fun _ =>
      Prog.Keeps.get.bind fun _ => Prog.Keeps.ite (fun _ => Prog.Keeps.pure _) fun _ =>
        Prog.Keeps.ite (fun _ => Prog.Keeps.throw _) fun _ => ?_
    split
    · exact grown_run (c := .registerSiread _) rfl
    · exact Prog.Keeps.pure _

theorem bounded_checkUniqueUpdate (columns : List ColumnDef) (updates : Updates) (rowid : Int64)
    (r : Reader) (all : List Tuple) :
    Prog.Keeps (Bounded n) (inTxn (checkUniqueUpdate columns updates rowid r all)) := by
  refine bounded_inTxn fun k _ => Prog.Keeps.forEach fun col _ => Prog.Keeps.ite
    (fun _ => Prog.Keeps.pure _) fun _ => ?_
  split
  · exact Prog.Keeps.pure _
  · exact Prog.Keeps.forEach fun t _ => (Prog.Keeps.ofExcept _).bind fun _ =>
      Prog.Keeps.get.bind fun _ => Prog.Keeps.ite (fun _ => Prog.Keeps.pure _) fun _ =>
        (Prog.Keeps.ofExcept _).bind fun _ => Prog.Keeps.ite (fun _ => Prog.Keeps.pure _) fun _ =>
          Prog.Keeps.ite (fun _ => Prog.Keeps.throw _) fun _ => Prog.Keeps.pure _

theorem bounded_registerWrite (key : RowKey) :
    Prog.Keeps (Bounded n) (inTxn (Prog.modify (·.registerWrite key))) :=
  bounded_inTxn fun _ _ => grown_run (c := .registerWrite key) rfl

theorem bounded_addUndoRecord {r : UndoRecord} (h : RowBelow n r.oldRow) :
    Prog.Keeps (Bounded n) (inTxn (Prog.modify (·.addUndoRecord r))) :=
  bounded_inTxn fun _ hk => Prog.Keeps.modify fun _ hm =>
    ⟨hm.1.addUndoRecord (h.mono (UInt32.le_trans hk hm.2)), hm.2⟩

theorem bounded_putVersion (q : Str) (id : Int64) {row : Row} (h : RowBelow n row) :
    Prog.Keeps (Bounded n) (putVersion q id row) :=
  bounded_of_sealed fun _ hm => sealed_putVersion q id (h.mono hm.2)

theorem bounded_storeInserted (q : Str) (id : Int64) {row : Row} (h : RowBelow n row)
    (xid : TransactionId) : Prog.Keeps (Bounded n) (storeInserted q id row xid) :=
  bounded_of_sealed fun _ hm => sealed_storeInserted q id (h.mono hm.2) xid

theorem bounded_writeWal (op : WalOp) (table : Str) (payload : Bytes) (xid : TransactionId) :
    Prog.Keeps (Bounded n) (writeWal op table payload xid) :=
  bounded_of_sealed fun _ _ => sealed_writeWal op table payload xid

theorem bounded_eraseVersions (q : Str) (id : Int64) :
    Prog.Keeps (Bounded n) (eraseVersions q id) :=
  bounded_of_sealed fun _ _ => sealed_eraseVersions q id

theorem bounded_insertWithTxnBody (table : Str) (row : Row) :
    Prog.Keeps (Bounded n) (insertWithTxnBody table row) := by
  refine Prog.Keeps.get.bind fun e => ?_
  dsimp only
  split
  · exact Prog.Keeps.throw _
  · refine (Prog.Keeps.ofExcept _).bind fun _ =>
      (bounded_of_sealed fun _ _ => sealed_nextRowId _).bind fun id => fun e he => ?_
    refine he.wp_assignXid fun xid k hxid _ => Prog.Keeps.get_bind fun e he => ?_
    have hrow (row : Row) (cid : Int32) : RowBelow k (stamp row xid 0 cid) :=
      rowBelow_stamp row hxid (zero_below hxid) cid
    have hempty : RowBelow k (∅ : Row) := ⟨zero_below hxid, zero_below hxid⟩
    exact ((Prog.Keeps.ofExcept _).bind fun _ => (bounded_checkUnique _ _ _ _ _).bind fun _ =>
      (bounded_addUndoRecord hempty).bind fun _ => (bounded_storeInserted _ _ (hrow _ _) _).bind
        fun _ => Prog.Keeps.pure _) e he

theorem bounded_updateRowWithTxn (q : Str) (updates : Updates) {r : Reader} (hr : r.xid < n)
    (all : List Tuple) {row : Row} (h : RowBelow n row) :
    Prog.Keeps (Bounded n) (updateRowWithTxn q updates r all row) := by
  have hnew : RowBelow n (stamp (applyUpdates row updates) r.xid 0 r.cid) :=
    rowBelow_stamp _ hr (zero_below hr) _
  exact (Prog.Keeps.ofExcept _).bind fun _ => (bounded_registerWrite _).bind fun _ =>
    Prog.Keeps.get.bind fun _ => (bounded_checkUniqueUpdate _ _ _ _ _).bind fun _ =>
      (bounded_addUndoRecord h).bind fun _ => (bounded_writeWal _ _ _ _).bind fun _ =>
        (bounded_eraseVersions _ _).bind fun _ => bounded_putVersion _ _ hnew

theorem bounded_removeRowWithTxn (q : Str) {r : Reader} (hr : r.xid < n) {row : Row}
    (h : RowBelow n row) : Prog.Keeps (Bounded n) (removeRowWithTxn q r row) := by
  have hnew : RowBelow n ((row.insert (str "_xmax") (.int r.xid.toUInt64.toInt64)).insert
      (str "_cid") (.int r.cid.toInt64)) := (h.setXmax hr).insert (by decide) (by decide) _
  exact (Prog.Keeps.ofExcept _).bind fun _ => (bounded_registerWrite _).bind fun _ =>
    (bounded_addUndoRecord h).bind fun _ => (bounded_eraseVersions _ _).bind fun _ =>
      (bounded_putVersion _ _ hnew).bind fun _ => bounded_writeWal _ _ _ _

theorem bounded_onVisible {body : Row → EngineM Unit}
    (hbody : ∀ row, RowBelow n row → Prog.Keeps (Bounded n) (body row)) (r : Reader)
    (matches_ : Row → Bool) {t : Tuple} (ht : TupleBelow n t) :
    Prog.Keeps (Bounded n) (onVisible r matches_ body t) := by
  intro e he
  rw [onVisible, Prog.wp_bind, Prog.wp_ofExcept]
  refine ⟨fun row hrow => ?_, fun _ _ => he⟩
  exact (Prog.Keeps.get.bind fun _ => Prog.Keeps.ite
    (fun _ => (hbody row ((rowBelow_iff hrow).mpr ht)).bind fun _ => Prog.Keeps.pure _)
    fun _ => Prog.Keeps.pure _) e he

/-- The scanning statements: `body` runs on versions that were there before the id was taken. -/
theorem bounded_scan {table : Str} {β : Type}
    {f : StorageEngine → MemTable → StorageEngine → EngineM β}
    (hf : ∀ e₀ mem e₁ k, MemBelow k mem → e₁.reader.xid < k → Prog.Keeps (Bounded k) (f e₀ mem e₁)) :
    Prog.Keeps (Bounded n) (do
      let e₀ ← Prog.get
      let mem ← Prog.ofExcept (e₀.tableOf table)
      let _ ← inTxn TransactionManager.assignXid
      let e₁ ← Prog.get
      f e₀ mem e₁) := by
  refine Prog.Keeps.get_bind fun e₀ h => ?_
  rw [Prog.wp_bind, Prog.wp_ofExcept]
  refine ⟨fun mem hmem => ?_, fun _ _ => h⟩
  have hbelow : MemBelow e₀.txnMgr.nextXid mem := h.sealed.tableOf hmem
  have hrun : (inTxn TransactionManager.assignXid >>= fun _ => Prog.get >>= f e₀ mem).wp
      (fun _ => Bounded e₀.txnMgr.nextXid) (fun _ => Bounded e₀.txnMgr.nextXid) e₀ := by
    refine h.self.wp_assignXid fun xid k _ hk => Prog.Keeps.get_bind fun e₁ h₁ => ?_
    -- The reader's id is below the next one of the state it was read in.
    exact h₁.raise (hf e₀ mem e₁ _ (hbelow.mono (UInt32.le_trans hk h₁.manager.2))
      h₁.manager.1.context)
  exact Prog.wp_mono hrun (fun _ _ h' => h'.weaken h.manager.2) fun _ _ h' =>
    h'.weaken h.manager.2

theorem bounded_updateWithTxnBody (table : Str) (matches_ : Row → Bool) (updates : Updates) :
    Prog.Keeps (Bounded n) (updateWithTxnBody table matches_ updates) :=
  bounded_scan fun _ _ _ _ hmem hr =>
    (Prog.Keeps.sumEach fun t ht => bounded_onVisible
      (fun _ hrow => bounded_updateRowWithTxn _ _ hr _ hrow) _ _ (hmem t ht)).bind fun _ =>
        (bounded_of_sealed fun _ _ => sealed_rebuildIf _ _).bind fun _ => Prog.Keeps.pure _

theorem bounded_removeWithTxnBody (table : Str) (matches_ : Row → Bool) :
    Prog.Keeps (Bounded n) (removeWithTxnBody table matches_) :=
  bounded_scan fun _ _ _ _ hmem hr => Prog.Keeps.sumEach fun t ht => bounded_onVisible
    (fun _ hrow => bounded_removeRowWithTxn _ hr hrow) _ _ (hmem t ht)

/-! ### All calls -/

theorem bounded_applyUndoTo (count : Nat) :
    Prog.Keeps (Bounded n) (StorageEngine.applyUndoTo count) :=
  bounded_of_sealed fun _ hm => sealed_applyUndoTo count hm.1.undo

theorem bounded_vacuum : Prog.Keeps (Bounded n) StorageEngine.vacuum :=
  Prog.Keeps.get.bind fun _ => (Prog.Keeps.sumEach fun q _ => bounded_of_sealed fun _ hm =>
    sealed_vacuumTable _ q hm.1.next).bind fun _ =>
      (bounded_inTxn fun _ _ => grown_run (c := .maybeAntiWraparound) rfl).bind fun _ =>
        Prog.Keeps.pure _

/-- What a client passes: calls that are its own, and no `_xmin` that is not yet in use. -/
def ClientCall (e : StorageEngine) : Call → Prop
  | .txn p => ∃ c : ManagerCall, c.client = true ∧ p = c.run
  | .insert table row => InsertsBelow table row e
  | .update _ _ updates => headerField updates (str "_xmin") < e.txnMgr.nextXid
  | _ => True

/-- A call, up to its checkpoint check, keeps the bounds. -/
theorem Bounded.wp_body (h : Bounded n e) {c : Call} (hc : ClientCall e c) :
    c.body.wp (fun _ => Bounded n) (fun _ => Bounded n) e := by
  have discard {α : Type} {p : EngineM α} (hp : p.wp (fun _ => Bounded n) (fun _ => Bounded n) e) :
      (Call.discard p).wp (fun _ => Bounded n) (fun _ => Bounded n) e := by
    rw [Call.discard, Prog.wp_bind]
    exact Prog.wp_mono hp (fun _ _ h => h) fun _ _ h => h
  cases c with
  | createDatabase name => exact bounded_of_sealed (fun _ _ => sealed_catalogBody _ _ _ _) e h
  | dropDatabase name => exact bounded_of_sealed (fun _ _ => sealed_dropDatabaseBody _) e h
  | createSchema dbName schemaName =>
    exact bounded_of_sealed (fun _ _ => sealed_catalogBody _ _ _ _) e h
  | createUser name password salt =>
    exact bounded_of_sealed (fun _ _ => sealed_catalogBody _ _ _ _) e h
  | dropUser name => exact bounded_of_sealed (fun _ _ => sealed_catalogBody _ _ _ _) e h
  | setCurrentDb name =>
    exact bounded_of_sealed (fun _ _ => sealed_inCatalog (Catalog.setCurrentDatabase name)) e h
  | createTable name columns =>
    exact bounded_of_sealed (fun _ _ => sealed_createTableBody _ _) e h
  | dropTable name => exact bounded_of_sealed (fun _ _ => sealed_dropTableBody _) e h
  | createIndex table column => exact bounded_of_sealed (fun _ _ => sealed_createIndex _ _) e h
  | insert table row =>
    exact discard (h.wp_sealed (sealed_insertBody h.sealed h.manager.1.pos hc (UInt32.le_refl _)))
  | update table matches_ updates =>
    exact discard (h.wp_sealed (sealed_updateBody _ _ h.manager.1.pos hc e h.sealed))
  | remove table matches_ =>
    exact discard (bounded_of_sealed (fun _ _ => sealed_removeBody _ _) e h)
  | insertWithTxn table row => exact discard (bounded_insertWithTxnBody _ _ e h)
  | updateWithTxn table matches_ updates => exact discard (bounded_updateWithTxnBody _ _ _ e h)
  | removeWithTxn table matches_ => exact discard (bounded_removeWithTxnBody _ _ e h)
  | applyUndo =>
    exact bounded_of_sealed (fun _ hm => Prog.Keeps.get.bind fun _ =>
      sealed_applyUndoTo _ hm.1.undo) e h
  | applyUndoTo count => exact bounded_applyUndoTo count e h
  | writeXactCommit xid => exact bounded_writeWal _ _ _ _ e h
  | writeXactAbort xid => exact bounded_writeWal _ _ _ _ e h
  | vacuum => exact discard (bounded_vacuum e h)
  | txn p =>
    obtain ⟨c, hclient, rfl⟩ := hc
    exact bounded_inTxn (fun _ _ => grown_run hclient) e h
  | setClock clock =>
    exact bounded_of_sealed (fun _ _ => sealed_frame (f := fun e => { e with clock := clock })
      fun _ => ⟨rfl, rfl⟩) e h

end Engine

end StorageEngine
end JiaMiaoDB
