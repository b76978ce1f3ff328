import JiaMiaoDB.Storage.StoredTuples
import JiaMiaoDB.Storage.XidReuse

/-!
# Stored tuples along runs

A property of stored tuples along a run: what the calls must meet, what goes through a checkpoint,
and what the records that a load replays must meet in the state that they are replayed on.
-/

set_option autoImplicit false

namespace JiaMiaoDB
open TransactionManager StorageEngine BinaryRowCodec

/-! ### Checkpoints -/

namespace Checkpoint
variable {G : TableContext → Tuple → Prop}

/-- What the rows of a table in the checkpoint may depend on. -/
def tableContext (ckp : Checkpoint) (t : TableSchema) : TableContext where
  present := true
  columns := t.columns.map ColumnDef.withoutDefault
  counter := ckp.rowIdCounters.getD t.name 0

/-- The rows have the property once they are tuples again. -/
def Stores (G : TableContext → Tuple → Prop) (ckp : Checkpoint) : Prop :=
  ∀ t ∈ ckp.tables, ∀ p ∈ rowsOf ckp t.name, Admits G (ckp.tableContext t) p.1 p.2

theorem stores_empty : Checkpoint.empty.Stores G := fun _ ht => by cases ht

theorem Stores.reloaded {ckp : Checkpoint} (h : ckp.Stores G) : ckp.reloaded.Stores G := by
  intro t ht p hp
  obtain ⟨schema, hschema, rfl⟩ := List.mem_map.mp ht
  have hctx : ckp.reloaded.tableContext schema.withoutDefaults = ckp.tableContext schema := by
    simp only [tableContext, TableSchema.withoutDefaults, List.map_map]
    rfl
  rw [hctx]
  exact h schema hschema p hp

end Checkpoint

namespace StorageEngine
variable {G : TableContext → Tuple → Prop} {ctx cur : Str → TableContext}
  {e e' : StorageEngine} {ckp : Checkpoint} {r : WALRecordV3}

theorem Stored.toCheckpoint (hG : TupleInvariant G) (h : Stored G e)
    (hckp : e.toCheckpoint = .ok ckp) : ckp.Stores G := by
  have htaken := takenFrom_toCheckpoint hckp
  intro t ht p hp
  rw [htaken.tables, OrderedMap.values_eq, List.mem_map] at ht
  obtain ⟨⟨q, schema⟩, hmem, rfl⟩ := ht
  have hschema := Std.ExtTreeMap.mem_toList_iff_getElem?_eq_some.mp hmem
  obtain rfl := h.named q schema hschema
  have hq : schema.name ∈ e.tables :=
    Std.ExtTreeMap.mem_iff_isSome_getElem?.mpr (by rw [hschema]; rfl)
  have hrows := htaken.rows _ hq
  rw [tableCheckpoint] at hrows
  split at hrows
  · rename_i m hm
    obtain ⟨l, hl, heq⟩ := ExceptList.map_ok_iff.mp hrows
    obtain ⟨rows, hrows, rfl⟩ := ExceptList.map_ok_iff.mp hl
    rw [← (Prod.mk.inj heq).2] at hp
    obtain ⟨row, hrow, rfl⟩ := List.mem_map.mp hp
    have hctx : ckp.tableContext schema = e.tableContext schema.name := by
      simp only [Checkpoint.tableContext, tableContext, hschema, htaken.rowIds, contains_data hm,
        Std.ExtTreeMap.getD_eq_getD_getElem?, Std.ExtTreeMap.getElem?_map]
      rfl
    obtain ⟨t, ht, hread⟩ := (ExceptList.mem_of_mapM_ok hrows).mp hrow
    rw [hctx, rowIdOf_of_toRow hread]
    exact hG.restamp ((h.tables _ m hm).good t ht) hread rfl
  · rw [← (Prod.mk.inj (Except.ok.inj hrows)).2] at hp
    cases hp

/-! ### Restoring -/

theorem stored_create (d : Disk) (checkpointInterval : Int32) (clock : Int64) :
    Stored G (create d checkpointInterval clock) := by
  refine ⟨rfl, fun q m hm => ?_, fun r hr => ?_, fun q schema hq => ?_⟩
  · simp [create] at hm
  · cases hr
  · simp [create] at hq

/-- On the way back from a directory no undo records are left. -/
structure Returning (G : TableContext → Tuple → Prop) (e : StorageEngine) : Prop where
  stored : Stored G e
  undo : e.txnMgr.context.undoRecords = []

theorem Returning.no_undo (h : Returning G e) {P : UndoRecord → Prop} :
    ∀ r ∈ e.txnMgr.context.undoRecords, P r := by
  intro r hr
  rw [h.undo] at hr
  cases hr

theorem returning_of_upholds {α : Type} {p : EngineM α}
    (hp : ∀ c : Str → TableContext, Prog.Keeps (Upholds G c c) p)
    (hundo : Prog.Keeps (ManagerInvariant.On fun m => m.context.undoRecords = []) p) :
    Prog.Keeps (Returning G) p := fun e h =>
  Prog.wp_mono (Prog.wp_and (stored_of_upholds hp e h.stored) (hundo e h.undo))
    (fun _ _ h' => ⟨h'.1, h'.2⟩) fun _ _ h' => ⟨h'.1, h'.2⟩

theorem wp_restoreTable_returning (hckp : ckp.Stores G) (isOld : Bool) {t : TableSchema}
    (ht : t ∈ ckp.tables) (h : Returning G e) :
    (restoreTable ckp isOld t).wp (fun _ => Returning G) (fun _ _ => True) e := by
  set q := qualifiedName isOld t.name
  set n := ckp.rowIdCounters.getD t.name 0 with hn
  have hadded : Stored G (addTable q { t with name := q } e) :=
    h.stored.newTable { t with name := q } rfl h.no_undo (e.indexes.insert q [])
  generalize hcur : tableContext (addTable q { t with name := q } e) = cur
  have hctx : withCounter cur q n q = ckp.tableContext t := by
    rw [← hcur]
    simp [withCounter, tableContext, addTable, Checkpoint.tableContext, hn]
  have hstart : Upholds G (withCounter cur q n) cur (addTable q { t with name := q } e) := by
    refine ⟨hcur, fun q' m hm => ?_, h.no_undo, hadded.named⟩
    by_cases hqq : q' = q
    · subst hqq
      rw [addTable, Std.ExtTreeMap.getElem?_insert_self] at hm
      cases hm
      exact MemUpholds.create _
    · have hother : withCounter cur q n q' = (addTable q { t with name := q } e).tableContext q' := by
        rw [withCounter, if_neg hqq, hcur]
      rw [hother]
      exact hadded.tables q' m hm
  have hrows : Prog.Keeps (fun e => Upholds G (withCounter cur q n) cur e ∧
        e.txnMgr.context.undoRecords = [])
      (Prog.forEach (fun p : Int64 × Row => putVersion q p.1 p.2) (rowsOf ckp t.name)) := by
    refine Prog.Keeps.forEach fun p hp e he => ?_
    have hrow : Admits G (withCounter cur q n q) p.1 p.2 := by
      rw [hctx]
      exact hckp t ht p hp
    exact Prog.wp_and (upholds_putVersion q hrow e he.1) (ManagerInvariant.keeps_putVersion
      (J := fun m => m.context.undoRecords = []) q p.1 p.2 e he.2)
  rw [restoreTable, Prog.wp_bind, Prog.wp_modify, Prog.wp_bind]
  refine Prog.wp_mono (hrows _ ⟨hstart, h.undo⟩) (fun _ e' he' => ?_) fun _ _ _ => trivial
  refine ⟨?_, he'.2⟩
  cases hcount : ckp.rowIdCounters[t.name]? with
  | none =>
    have hzero : withCounter cur q n = cur := by
      funext q'
      rw [withCounter]
      split
      · rename_i hqq
        rw [hqq, hn, Std.ExtTreeMap.getD_eq_getD_getElem?, hcount, ← hcur]
        simp [tableContext, addTable]
      · rfl
    rw [hzero] at he'
    refine he'.1.stored.frame rfl rfl ?_ rfl
    rw [restoreSettings, hcount]
    rfl
  | some last =>
    have hlast : n = last := by
      rw [hn, Std.ExtTreeMap.getD_eq_getD_getElem?, hcount]
      rfl
    rw [hlast] at he'
    refine he'.1.counter.frame rfl rfl ?_ rfl
    rw [restoreSettings, hcount]
    rfl

theorem wp_restore_returning (hckp : ckp.Stores G) :
    (restore ckp).wp (fun _ => Returning G) (fun _ _ => True) blank := by
  have hempty : Returning G { blank with walSeq := ckp.lastSeq } :=
    ⟨(stored_create Disk.empty 0 0).frame rfl rfl rfl rfl, rfl⟩
  have hcatalog : Prog.Keeps (Returning G) (inCatalog (restoreCatalog ckp)) :=
    returning_of_upholds (fun _ => upholds_inCatalog _) (ManagerInvariant.keeps_inCatalog _)
  have hcontext (m : TransactionManager) : (restoreTransactions ckp).wp
      (fun _ m => m.context.undoRecords = []) (fun _ _ => True) m := by
    rw [restoreTransactions, Prog.wp_bind, Prog.wp_modify, Prog.wp_bind]
    exact Prog.wp_mono (Prog.wp_true _) (fun _ _ _ => rfl) fun _ _ _ => trivial
  rw [restore, Prog.wp_bind, Prog.wp_modify, Prog.wp_bind]
  refine Prog.wp_mono (hcatalog _ hempty) (fun isOld e he => ?_) fun _ _ _ => trivial
  rw [Prog.wp_bind]
  refine Prog.wp_mono (Prog.wp_forEach_keep (Returning G) (fun t ht e he =>
    wp_restoreTable_returning hckp isOld ht he) he) (fun _ e he => ?_) fun _ _ h => h
  rw [inTxn, Prog.wp_zoom]
  refine Prog.wp_mono (hcontext e.txnMgr) (fun _ m hm => ⟨?_, hm⟩) fun _ _ _ => trivial
  have hset : Upholds G e.tableContext e.tableContext (e.setTxnMgr m) := by
    refine Upholds.setTxnMgr he.stored fun r hr => ?_
    rw [hm] at hr
    cases hr
  exact hset.stored

/-! ### Replaying -/

/-- A record of a row that would be applied brings what may be stored. -/
def ReplayOk (G : TableContext → Tuple → Prop) (e : StorageEngine) (r : WALRecordV3) : Prop :=
  e.replayed r.xid = true → e.data.contains r.table = true → match WalOp.ofTag r.op with
    | .insert => ∀ p, walDecodeInsert r.data = some p → Admits G
        { e.tableContext r.table with counter := max (e.rowIds.getD r.table 0) p.rowid } p.rowid p.row
    | .update => ∀ p, walDecodeUpdate r.data = some p →
        Admits G (e.tableContext r.table) p.rowid p.newRow
    | _ => True

theorem wp_replayRow_stored {E : Failure → StorageEngine → Prop} (h : Stored G e)
    {body : MemTable → EngineM Unit}
    (hbody : e.replayed r.xid = true → ∀ m, e.data[r.table]? = some m →
      (body m).wp (fun _ => Stored G) E e) :
    (replayRow r body).wp (fun _ => Stored G) E e := by
  rw [replayRow, Prog.wp_bind, Prog.wp_get, Prog.wp_ite]
  split
  · rename_i hreplayed
    split
    · exact h
    · exact hbody hreplayed _ ‹_›
  · exact h

theorem wp_replayInsert_stored (hG : TupleInvariant G) (h : Stored G e)
    (hr : ∀ p, walDecodeInsert r.data = some p → Admits G
      { e.tableContext r.table with counter := max (e.rowIds.getD r.table 0) p.rowid }
      p.rowid p.row) :
    (replayInsert r).wp (fun _ => Stored G) (fun _ _ => True) e := by
  rw [replayInsert]
  split
  · exact h
  rename_i p hp
  have hwide := Upholds.widen hG h r.table (n := max (e.rowIds.getD r.table 0) p.rowid)
    (FixedWidth.le_max_left _ _)
  have hrow : Admits G (withCounter e.tableContext r.table
      (max (e.rowIds.getD r.table 0) p.rowid) r.table) p.rowid p.row := by
    rw [withCounter, if_pos rfl]
    exact hr p hp
  rw [Prog.wp_bind]
  refine Prog.wp_mono (upholds_putVersion r.table hrow e hwide) (fun _ e₁ h₁ => ?_)
    fun _ _ _ => trivial
  rw [Prog.wp_bind]
  refine Prog.wp_mono (upholds_updateIndexes _ _ _ e₁ h₁) (fun _ e₂ h₂ => ?_) fun _ _ _ => trivial
  rw [Prog.wp_bind]
  refine Prog.wp_mono (upholds_setRowCount _ e₂ h₂) (fun _ e₃ h₃ => ?_) fun _ _ _ => trivial
  have hlast : e₃.rowIds.getD r.table 0 = e.rowIds.getD r.table 0 :=
    congrArg TableContext.counter (congrFun h₃.now r.table)
  rw [Prog.wp_modify, hlast]
  exact h₃.counter

theorem wp_replayUpdate_stored (h : Stored G e)
    (hr : ∀ p, walDecodeUpdate r.data = some p →
      Admits G (e.tableContext r.table) p.rowid p.newRow) :
    (replayUpdate r).wp (fun _ => Stored G) (fun _ => Stored G) e := by
  rw [replayUpdate]
  split
  · exact h
  · exact h.wp ((upholds_putVersion _ (hr _ ‹_›)).bind fun _ => Prog.Keeps.get.bind fun _ =>
      (upholds_rebuildIf _ _).bind fun _ => (upholds_rebuildIndexes _).bind fun _ =>
        upholds_setRowCount _)

theorem wp_replayDelete_stored (hG : TupleInvariant G) (h : Stored G e) {m : MemTable}
    (hm : e.data[r.table]? = some m) :
    (replayDelete r m).wp (fun _ => Stored G) (fun _ => Stored G) e := by
  rw [replayDelete]
  split
  · exact h
  · rename_i p hp
    split
    · split
      · exact h
      · rename_i t ht
        obtain ⟨hgood, hid⟩ := (h.tables _ m hm).latest ht
        rw [Prog.wp_bind, Prog.wp_ofExcept]
        refine ⟨fun row hread => h.wp (upholds_putVersion _ ?_), fun _ _ => h⟩
        rw [← hid]
        exact hG.restamp hgood hread (business_insert_system rfl _)
    · exact h.wp ((upholds_eraseVersions _ _).bind fun _ => (upholds_rebuildIndexes _).bind fun _ =>
        upholds_setRowCount _)

theorem wp_replayRecord_stored (hG : TupleInvariant G) (h : Returning G e) (hr : ReplayOk G e r) :
    (replayRecord r).wp (fun _ => Stored G) (fun _ _ => True) e := by
  have weaken {p : EngineM Unit} (hp : p.wp (fun _ => Stored G) (fun _ => Stored G) e) :
      p.wp (fun _ => Stored G) (fun _ _ => True) e := Prog.wp_mono hp (fun _ _ h => h)
        fun _ _ _ => trivial
  have keep {p : EngineM Unit} (hp : Prog.Keeps (Upholds G e.tableContext e.tableContext) p) :
      p.wp (fun _ => Stored G) (fun _ _ => True) e := weaken (h.stored.wp hp)
  have hstatus (xid : TransactionId) (status : TransactionStatus) :
      Stored G (setStatus xid status e) := by
    rw [setStatus]
    split
    · exact h.stored
    · have hset : Upholds G e.tableContext e.tableContext (e.setTxnMgr
          { e.txnMgr with clog := e.txnMgr.clog.setStatus xid status }) :=
        Upholds.setTxnMgr h.stored fun _ hr => hr
      exact hset.stored
  rw [replayRecord]
  cases hop : WalOp.ofTag r.op with
  | createDatabase => exact keep (upholds_inCatalog _)
  | dropDatabase =>
    exact keep (Prog.Keeps.get.bind fun _ => Prog.Keeps.ite (fun _ => upholds_inCatalog _) fun _ =>
      Prog.Keeps.pure _)
  | createSchema =>
    dsimp only
    split
    · exact h.stored
    · exact keep (upholds_inCatalog _)
  | createUser => exact h.stored
  | dropUser =>
    exact keep (Prog.Keeps.get.bind fun _ => Prog.Keeps.ite (fun _ => upholds_inCatalog _) fun _ =>
      Prog.Keeps.pure _)
  | createTable =>
    dsimp only
    split
    · exact h.stored
    · rename_i columns _
      have hnew : Stored G (resetTable r.table columns e) :=
        h.stored.newTable ⟨r.table, columns, 0⟩ rfl h.no_undo (e.indexes.insert r.table [])
      rw [Prog.wp_bind, Prog.wp_modify]
      exact Prog.wp_mono (hnew.wp (upholds_createKeyIndexes _ _)) (fun _ _ h => h)
        fun _ _ _ => trivial
  | dropTable => exact h.stored.eraseTable _
  | xactCommit => exact hstatus _ _
  | xactAbort => exact hstatus _ _
  | insert =>
    refine wp_replayRow_stored h.stored fun hreplayed m hm => ?_
    have hrow := hr hreplayed (contains_data hm)
    rw [hop] at hrow
    exact wp_replayInsert_stored hG h.stored hrow
  | update =>
    refine weaken (wp_replayRow_stored h.stored fun hreplayed m hm => ?_)
    have hrow := hr hreplayed (contains_data hm)
    rw [hop] at hrow
    exact wp_replayUpdate_stored h.stored hrow
  | delete => exact weaken (wp_replayRow_stored h.stored fun _ m hm => wp_replayDelete_stored hG h.stored hm)
  | unknown => exact h.stored

/-- Every record has the property in the state that the records before it leave. -/
def AlongReplay (P : StorageEngine → WALRecordV3 → Prop) :
    List WALRecordV3 → StorageEngine → Prop
  | [], _ => True
  | r :: rest, e => P e r ∧ AlongReplay P rest ((replayRecord r).run e).2

theorem AlongReplay.mono {P Q : StorageEngine → WALRecordV3 → Prop} (hPQ : ∀ e r, P e r → Q e r)
    {records : List WALRecordV3} (h : AlongReplay P records e) : AlongReplay Q records e := by
  induction records generalizing e with
  | nil => trivial
  | cons r rest ih => exact ⟨hPQ e r h.1, ih h.2⟩

instance decidableAlongReplay {P : StorageEngine → WALRecordV3 → Prop} [∀ e, DecidablePred (P e)] :
    (records : List WALRecordV3) → (e : StorageEngine) → Decidable (AlongReplay P records e)
  | [], _ => .isTrue trivial
  | r :: rest, e =>
    have := decidableAlongReplay (P := P) rest ((replayRecord r).run e).2
    inferInstanceAs (Decidable (P e r ∧ AlongReplay P rest ((replayRecord r).run e).2))

theorem wp_replay_returning (hG : TupleInvariant G) {records : List WALRecordV3}
    (h : Returning G e) (hr : AlongReplay (ReplayOk G) records e) :
    (Prog.forEach replayRecord records).wp (fun _ => Returning G) (fun _ _ => True) e := by
  induction records generalizing e with
  | nil => exact h
  | cons r rest ih =>
    have hundo : (replayRecord r).wp (fun _ e => e.txnMgr.context.undoRecords = [])
        (fun _ e => e.txnMgr.context.undoRecords = []) e :=
      ManagerInvariant.keeps_replayRecord (J := fun m => m.context.undoRecords = [])
        (fun _ _ hm => hm) r e h.undo
    rw [Prog.forEach, Prog.wp_bind]
    rcases hrun : (replayRecord r).run e with ⟨f | ⟨⟩, e'⟩
    · exact Prog.wp_of_error hrun trivial
    · refine Prog.wp_of_ok hrun (ih ?_ ?_)
      · have hstored := Prog.wp_ok (wp_replayRecord_stored hG h hr.1) hrun
        have hnone := Prog.wp_ok hundo hrun
        exact ⟨hstored, hnone⟩
      · have hrest := hr.2
        rw [hrun] at hrest
        exact hrest

/-- The records that a load of the directory replays have the property, each in its turn. -/
def ReplayMeets (P : StorageEngine → WALRecordV3 → Prop) (d : Disk) : Prop :=
  AlongReplay P (recordsAbove d d.checkpoint) ((restore d.checkpoint).run blank).2

theorem stored_load (hG : TupleInvariant G) {d : Disk} (hckp : d.checkpoint.Stores G)
    (hlog : ReplayMeets (ReplayOk G) d) {checkpointInterval : Int32} {clock : Int64}
    (hload : load.run (create d checkpointInterval clock) = (.ok (), e)) : Stored G e := by
  have hcheckpoint : CheckpointManager.load d.checkpointBin d.checkpointJson = d.checkpoint := rfl
  obtain ⟨wal, hrebuild⟩ := run_load_rebuild hcheckpoint checkpointInterval clock
  rw [hload] at hrebuild
  obtain ⟨hok, he⟩ := Prod.mk.inj hrebuild
  have hwp : (rebuild d.checkpoint (recordsAbove d d.checkpoint)).wp (fun _ => Stored G)
      (fun _ _ => True) blank := by
    rw [rebuild, Prog.wp_bind]
    unfold ReplayMeets at hlog
    rcases hrun : (restore d.checkpoint).run blank with ⟨f | ⟨⟩, e₀⟩
    · exact Prog.wp_of_error hrun trivial
    · refine Prog.wp_of_ok hrun ?_
      rw [hrun] at hlog
      have h₀ := Prog.wp_ok (wp_restore_returning hckp) hrun
      exact Prog.wp_mono (wp_replay_returning hG h₀ hlog) (fun _ _ h => h.stored) fun _ _ h => h
  have hx := Prog.wp_ok hwp (Prod.ext hok.symm rfl)
  rw [he]
  exact Stored.frame hx rfl rfl rfl rfl

end StorageEngine

/-! ### Runs -/

/-- What a client's call must meet in the state that it is made in. -/
def Call.Meets (G : TableContext → Tuple → Prop) (e : StorageEngine) : Call → Prop
  | .insert table row | .insertWithTxn table row => InsertOk G table row e
  | .update table _ updates | .updateWithTxn table _ updates =>
    UpdateOk G updates (e.tableContext (e.resolveTableName table))
  | .createTable name _ => CreateOk name e
  | .txn p => ∃ c : ManagerCall, c.client = true ∧ p = c.run
  | _ => True

/-- Checkpoints fit their file, and what a load replays may be stored. -/
def Session.Meets (G : TableContext → Tuple → Prop) (s : Session) : Action → Prop
  | .call c => c.Meets G s.engine ∧ (c.checksCheckpoint → ∀ e,
      c.body.run s.engine = (.ok (), e) → e.checkpointDue → Savable e)
  | .save => Savable s.engine
  | .close => Savable s.engine
  | .restart k n _ _ => ReplayMeets (ReplayOk G) (s.engine.dir.crash k n)

namespace StorageEngine
variable {G : TableContext → Tuple → Prop} {e : StorageEngine}

theorem wp_body_stored (hG : TupleInvariant G) (h : Stored G e) {c : Call} (hc : c.Meets G e) :
    c.body.wp (fun _ => Stored G) (fun _ => Stored G) e := by
  have discard {α : Type} {p : EngineM α} (hp : p.wp (fun _ => Stored G) (fun _ => Stored G) e) :
      (Call.discard p).wp (fun _ => Stored G) (fun _ => Stored G) e := by
    rw [Call.discard, Prog.wp_bind]
    exact hp
  cases c with
  | createDatabase name => exact h.wp (upholds_catalogBody _ _ _ _)
  | dropDatabase name => exact stored_dropDatabaseBody name e h
  | createSchema dbName schemaName => exact h.wp (upholds_catalogBody _ _ _ _)
  | createUser name password salt => exact h.wp (upholds_catalogBody _ _ _ _)
  | dropUser name => exact h.wp (upholds_catalogBody _ _ _ _)
  | setCurrentDb name => exact h.wp (upholds_inCatalog (Catalog.setCurrentDatabase name))
  | createTable name columns => exact wp_createTableBody_stored h hc columns
  | dropTable name => exact stored_dropTableBody name e h
  | createIndex table column => exact h.wp (upholds_createIndex table column)
  | insert table row => exact discard (wp_insertBody_stored hG h hc)
  | update table matches_ updates => exact discard (wp_updateBody_stored h matches_ hc)
  | remove table matches_ => exact discard (stored_removeBody hG table matches_ e h)
  | insertWithTxn table row => exact discard (wp_insertWithTxnBody_stored hG h hc)
  | updateWithTxn table matches_ updates =>
    exact discard (wp_updateWithTxnBody_stored hG h matches_ hc)
  | removeWithTxn table matches_ => exact discard (stored_removeWithTxnBody hG table matches_ e h)
  | applyUndo => exact (Prog.Keeps.get.bind fun _ => stored_applyUndoTo _) e h
  | applyUndoTo count => exact stored_applyUndoTo count e h
  | writeXactCommit xid => exact h.wp (upholds_writeWal _ _ _ _)
  | writeXactAbort xid => exact h.wp (upholds_writeWal _ _ _ _)
  | vacuum => exact discard (h.wp (upholds_vacuum hG))
  | txn p =>
    obtain ⟨c, hclient, rfl⟩ := hc
    exact h.wp (upholds_inTxn (keepsUndo_client hclient))
  | setClock clock => exact h.frame rfl rfl rfl rfl

/-- The state and all that a crash can leave of the directory. -/
structure StoredInvariant (G : TableContext → Tuple → Prop) (e : StorageEngine) : Prop where
  engine : Stored G e
  dir : e.dir.Leaves (Checkpoint.Stores G)

theorem StoredInvariant.checkpoint (hG : TupleInvariant G) (h : StoredInvariant G e)
    (hs : Savable e) : StoredInvariant G (checkpoint.run e).2 := by
  rw [run_checkpoint]
  cases hckp : e.toCheckpoint with
  | error f => exact h
  | ok ckp =>
    have hsaved := h.dir.saveCheckpoint (hs ckp hckp) (binary_toCheckpoint hckp)
      Checkpoint.stores_empty (h.engine.toCheckpoint hG hckp).reloaded
    exact ⟨h.engine.frame rfl rfl rfl rfl, hsaved.rewriteWal _⟩

theorem storedInvariant_next (hG : TupleInvariant G) {s : Session} {a : Action}
    (h : StoredInvariant G s.engine) (ha : s.Meets G a) (hs : Session.Moves s.engine e a) :
    StoredInvariant G e := by
  cases a with
  | call c =>
    subst hs
    refine exec_of_body ?_ fun hcheck e' hrun hdue h' => h'.checkpoint hG (ha.2 hcheck e' hrun hdue)
    have hengine := wp_body_stored hG h.engine ha.1
    have hdir := (LogInvariant.keeps_body (logInvariant_leaves (Checkpoint.Stores G)) c).final h.dir
    rcases hrun : c.body.run s.engine with ⟨f | ⟨⟩, e'⟩ <;> rw [hrun] at hdir
    · have hstored := Prog.wp_error hengine hrun
      exact ⟨hstored, hdir⟩
    · have hstored := Prog.wp_ok hengine hrun
      exact ⟨hstored, hdir⟩
  | save =>
    subst hs
    exact h.checkpoint hG ha
  | close =>
    subst hs
    exact h.checkpoint hG ha
  | restart k n checkpointInterval clock =>
    have hload : load.run (create (s.engine.dir.crash k n) checkpointInterval clock) =
        (.ok (), e) := hs
    refine ⟨stored_load hG (h.dir k n) ha hload, ?_⟩
    rw [dir_of_load hload]
    exact Dir.Leaves.create (h.dir k n)

/-- Along runs whose actions meet their conditions, every stored tuple has the property. -/
theorem storedInvariant_of_reached (hG : TupleInvariant G) {s : Session}
    (h : Session.Reached (Session.Meets G) s) : StoredInvariant G s.engine := by
  refine h.engine (fun checkpointInterval clock => ?_) fun s a e ha ih hs => ?_
  · exact ⟨stored_create _ _ _, Dir.Leaves.create Checkpoint.stores_empty⟩
  · exact storedInvariant_next hG ih ha hs

end StorageEngine
end JiaMiaoDB
