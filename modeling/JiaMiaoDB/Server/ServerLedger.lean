import JiaMiaoDB.Ai.InsertValues
import JiaMiaoDB.Ai.PlanEquivalence
import JiaMiaoDB.Server.Statements
import JiaMiaoDB.Storage.TransactionLedger

/-!
# The statements of the server and the ledger

A SELECT that scans its table answers with the rows of the ledger that pass its clause, in a block and
outside of one, and leaves the rows as they are. An UPDATE or a DELETE changes these rows of the ledger and
no others, and an INSERT adds its rows. COMMIT and ROLLBACK end the block in the ledger too.
-/

set_option autoImplicit false

namespace JiaMiaoDB
open AIPlanner PipelineExecutor TransactionManager StorageEngine BinaryRowCodec

/-! ### Clauses over the user's columns -/

/-- The clause names no system column. -/
def UserClause (filter : Option Expression) : Prop :=
  ∀ column ∈ filter.elim [] extractWhereColumns, isSystemColumn column = false

theorem evalExpression_business {expr : Expression} {row : Row}
    (h : ∀ column ∈ extractWhereColumns expr, isSystemColumn column = false) :
    evalExpression expr (business row) = evalExpression expr row := by
  induction expr with
  | literal v => rfl
  | columnRef name =>
    have hname := h name (List.mem_singleton_self name)
    rw [evalExpression, evalExpression, Std.ExtTreeMap.getD_eq_getD_getElem?,
      Std.ExtTreeMap.getD_eq_getD_getElem?, getElem?_business, hname, if_neg Bool.false_ne_true]
  | not expr ih => rw [evalExpression, evalExpression, ih h]
  | binary op left right ihl ihr =>
    rw [evalExpression, evalExpression, ihl fun column hc => h column (List.mem_append_left _ hc),
      ihr fun column hc => h column (List.mem_append_right _ hc)]

theorem passes_business {filter : Option Expression} (h : UserClause filter) (row : Row) :
    passes filter (business row) = passes filter row := by
  cases filter with
  | none => rfl
  | some expr => rw [passes_some, passes_some, evalExpression_business h]

/-- The rows come to the table under their ids, one after the other. -/
def Ledger.insertAll (l : Ledger) (q : Str) (added : List (Int64 × Row)) : Ledger :=
  added.foldl (fun l p => l.insert ⟨q, p.1⟩ p.2) l

namespace StorageEngine
variable {e e' : StorageEngine} {l : Ledger}

/-! ### The reader of a statement -/

/-- The reader of the transaction's statements, whichever snapshot it has. -/
structure OwnReader (e : StorageEngine) (r : Reader) : Prop where
  xid : r.xid = e.txnMgr.context.xid
  cid : r.cid = e.txnMgr.context.commandId
  xip : ∀ x ∈ r.snap.xip, x = e.txnMgr.context.xid

theorem Represents.setTxnMgr (h : Represents e l) {m : TransactionManager} (hm : GoesOn e.txnMgr m) :
    Represents (e.setTxnMgr m) l :=
  h.same (carriesOn_of_goesOn hm h.serial) rfl

theorem Represents.statementReader (h : Represents e l) (hs : Sane e) : ∃ r m,
    PipelineExecutor.statementReader.run e = (.ok r, e.setTxnMgr m) ∧
      Represents (e.setTxnMgr m) l ∧ Sane (e.setTxnMgr m) ∧ OwnReader (e.setTxnMgr m) r ∧
      m.context.blockState = e.txnMgr.context.blockState := by
  have ha := h.serial.alone
  have hactive : ∀ x ∈ e.txnMgr.activeXids.toList, x = e.txnMgr.context.xid :=
    fun x hx => ha.active x (Std.ExtTreeSet.mem_toList.mp hx)
  rw [PipelineExecutor.statementReader, Prog.bind_ok (Prog.run_get e)]
  split
  · exact ⟨e.reader, e.txnMgr, rfl, h, hs, ⟨rfl, rfl, hactive⟩, rfl⟩
  · have hnext := h.setTxnMgr (goesOn_snapshot hs.accounted ha)
    have hsane : Sane (e.setTxnMgr (getTransactionSnapshot.run e.txnMgr).2) := by
      have hsane := hs.manager (c := .getTransactionSnapshot) rfl rfl
      change Sane ((inTxn (ManagerCall.discard getTransactionSnapshot)).run e).2 at hsane
      rw [inTxn_discard, snd_run_discard] at hsane
      exact hsane
    rcases hheld : e.txnMgr.context.hasSnapshot with _ | _
    · have hrun : getTransactionSnapshot.run e.txnMgr = (.ok e.txnMgr.getSnapshot,
          e.txnMgr.setContext { e.txnMgr.context with
            snapshot := e.txnMgr.getSnapshot, hasSnapshot := true }) := by
        rw [getTransactionSnapshot, Prog.bind_ok (Prog.run_get _), hheld]
        rfl
      rw [hrun] at hnext hsane
      refine ⟨{ e.reader with snap := e.txnMgr.getSnapshot }, _, ?_, hnext, hsane, ⟨rfl, rfl, hactive⟩, rfl⟩
      rw [Prog.run_bind, inTxn]
      simp only [Prog.zoom, hrun, Prog.run_pure]
    · have hrun : getTransactionSnapshot.run e.txnMgr = (.ok e.txnMgr.context.snapshot, e.txnMgr) := by
        rw [getTransactionSnapshot, Prog.bind_ok (Prog.run_get _), hheld]
        rfl
      refine ⟨{ e.reader with snap := e.txnMgr.context.snapshot }, e.txnMgr, ?_, h, hs,
        ⟨rfl, rfl, fun x hx => (ha.held hheld x hx).1⟩, rfl⟩
      rw [Prog.run_bind, inTxn]
      simp only [Prog.zoom, hrun, Prog.run_pure]

/-! ### The end of the statement -/

theorem goesOn_setBlockState {m : TransactionManager} (ha : Alone m) (state : TBlockState) :
    GoesOn m (m.setBlockState state) :=
  .setContext ha rfl rfl rfl (Int32.le_refl _) fun h => ⟨h, rfl⟩

/-- Outside a block the statement commits. -/
theorem Represents.commitTransactionCommand (h : Represents e l) (hs : Sane e)
    (hgoing : e.txnMgr.context.blockState ≠ .abortPending)
    (hrun : (inTxn TransactionManager.commitTransactionCommand).run e = (.ok (), e')) :
    ∃ l', Represents e' l' ∧ l'.current = l.current := by
  obtain ⟨m, hmanager, rfl⟩ := run_inTxn_ok hrun
  have hcommit (hrun : (do
      TransactionManager.commitTransaction
      Prog.modify (·.setBlockState .default)).run e.txnMgr = (.ok (), m)) :
      ∃ l', Represents (e.setTxnMgr m) l' ∧ l'.current = l.current := by
    obtain ⟨⟨⟩, m₁, hdone, hset⟩ := Prog.exists_of_bind_ok hrun
    cases hset
    have h₁ := h.commit hs.accounted hdone
    have h₂ := h₁.setTxnMgr (goesOn_setBlockState h₁.serial.alone .default)
    exact ⟨_, h₂, rfl⟩
  rw [TransactionManager.commitTransactionCommand, Prog.bind_ok (Prog.run_get _)] at hmanager
  cases hstate : e.txnMgr.context.blockState with
  | started =>
    rw [hstate] at hmanager
    exact hcommit hmanager
  | end_ =>
    rw [hstate] at hmanager
    exact hcommit hmanager
  | begin =>
    rw [hstate] at hmanager
    cases hmanager
    exact ⟨l, h.setTxnMgr (goesOn_setBlockState h.serial.alone .inProgress), rfl⟩
  | inProgress =>
    rw [hstate] at hmanager
    have hgoes := goesOn_increment h.serial.alone
    rw [hmanager] at hgoes
    exact ⟨l, h.setTxnMgr hgoes, rfl⟩
  | default =>
    rw [hstate] at hmanager
    cases hmanager
    exact ⟨l, h, rfl⟩
  | abortPending => exact absurd hstate hgoing

/-! ### SELECT -/

/-- Outside a block no transaction is under way, and no block is to be aborted. -/
structure Ready (m : TransactionManager) : Prop where
  idle : m.context.blockState = .default → m.context.xid = InvalidTransactionId
  going : m.context.blockState ≠ .abortPending

/-- A source that gives rows is filtered and projected, and the statement does not fail. -/
theorem run_execute_select {e₁ : StorageEngine} {r : Reader} {s : SelectStmt} {strategy : Str} {all : RowSet}
    (hreader : PipelineExecutor.statementReader.run e = (.ok r, e₁))
    (hstep : stepOp e₁ r [] (selectSource s strategy) = .ok all) :
    (PipelineExecutor.execute (.select s) strategy).run e =
      (.ok ⟨resultColumns (answer s all), answer s all, 0, []⟩, e₁) := by
  have hpipeline := run_executePipeline s strategy hreader
  rw [hstep] at hpipeline
  rw [PipelineExecutor.execute, Prog.bind_ok (Prog.run_get _), Prog.tryCatch]
  dsimp only
  rw [hpipeline]
  rfl

theorem going_startTransactionCommand {m : TransactionManager} (h : Ready m) :
    (startTransactionCommand m).context.blockState ≠ .abortPending := by
  rw [startTransactionCommand]
  split
  · exact fun hstate => by cases hstate
  · exact h.going

/-- The command starts, runs its statement and commits. -/
theorem exists_of_query {ast : Statement} {strategy : Str} {result : ResultSet}
    (hrun : (JiamiaoDBServer.query ast strategy).run e = (.ok result, e')) :
    ∃ e₁, (PipelineExecutor.execute ast strategy).run (e.setTxnMgr (startTransactionCommand e.txnMgr)) =
        (.ok result, e₁) ∧
      (inTxn TransactionManager.commitTransactionCommand).run e₁ = (.ok (), e') := by
  have hfirst : (inTxn (Prog.modify TransactionManager.startTransactionCommand)).run e =
      (.ok (), e.setTxnMgr (startTransactionCommand e.txnMgr)) := rfl
  rw [JiamiaoDBServer.query, Prog.bind_ok hfirst] at hrun
  obtain ⟨result', e₁, hexecute, hrest⟩ := Prog.exists_of_bind_ok hrun
  obtain ⟨⟨⟩, e₂, hcommit, hpure⟩ := Prog.exists_of_bind_ok hrest
  cases hpure
  exact ⟨e₁, hexecute, hcommit⟩

variable {d : Disk} {interval : Int32} {clock : Int64}

/-- The start of a command leaves the rows as they are. -/
theorem History.started (h : History d interval clock e l) (hready : Ready e.txnMgr) :
    Sane (e.setTxnMgr (startTransactionCommand e.txnMgr)) ∧
      Represents (e.setTxnMgr (startTransactionCommand e.txnMgr)) l :=
  (h.manager (c := .startTransactionCommand) hready.idle).represents

/-- A SELECT of a client that scans its table answers with the rows of the ledger that pass its clause,
each once, and the tables keep the rows. -/
theorem History.select_reads (h : History d interval clock e l) (hready : Ready e.txnMgr)
    {s : SelectStmt} {strategy : Str} (hsource : FallsBack s strategy) (hclause : UserClause s.filter)
    {mem : MemTable} (htable : e.tableOf s.fromTable = .ok mem) {result : ResultSet}
    (hrun : (JiamiaoDBServer.query (.select s) strategy).run e = (.ok result, e')) :
    (∃ rows : RowSet, result.rows = rows.map (projection s) ∧ (rows.map rowIdOf).Nodup ∧
      ∀ id row, (l.current ⟨e.resolveTableName s.fromTable, id⟩ = some row ∧
          passes s.filter row = true) ↔ ∃ full ∈ rows, rowIdOf full = id ∧ business full = row) ∧
      ∃ l', Represents e' l' ∧ l'.current = l.current := by
  obtain ⟨hs, hr⟩ := h.started hready
  obtain ⟨e₁, hexecute, hcommit⟩ := exists_of_query hrun
  obtain ⟨r, m, hreader, hr₂, hs₂, hreads, hstate⟩ := hr.statementReader hs
  have htable₂ : ((e.setTxnMgr (startTransactionCommand e.txnMgr)).setTxnMgr m).tableOf s.fromTable =
      .ok mem := htable
  obtain ⟨all, hscan, hnodup, hrows⟩ := hr₂.scan hs₂.accounted htable₂ hreads.xip
  have hstep : stepOp ((e.setTxnMgr (startTransactionCommand e.txnMgr)).setTxnMgr m) r []
      (selectSource s strategy) = .ok all := by
    rw [hsource, stepOp, hreads.xid, hreads.cid]
    exact hscan
  rw [run_execute_select hreader hstep] at hexecute
  cases hexecute
  refine ⟨⟨all.filter (passes s.filter), rfl, ?_, fun id row => ?_⟩, ?_⟩
  · exact hnodup.sublist (List.filter_sublist.map rowIdOf)
  · constructor
    · intro hlive
      obtain ⟨full, hfull, hid, hbusiness⟩ := (hrows id row).mp hlive.1
      refine ⟨full, List.mem_filter.mpr ⟨hfull, ?_⟩, hid, hbusiness⟩
      rw [← passes_business hclause, hbusiness]
      exact hlive.2
    · intro hfull
      obtain ⟨full, hfull, hid, hbusiness⟩ := hfull
      obtain ⟨hfull, hpass⟩ := List.mem_filter.mp hfull
      refine ⟨(hrows id row).mpr ⟨full, hfull, hid, hbusiness⟩, ?_⟩
      rw [← hbusiness, passes_business hclause]
      exact hpass
  · refine hr₂.commitTransactionCommand hs₂ ?_ hcommit
    change m.context.blockState ≠ .abortPending
    rw [hstate]
    exact going_startTransactionCommand hready

/-- A block has begun. -/
def begunEngine : StorageEngine :=
  emptyTable.setTxnMgr (beginTransactionBlock.run emptyTable.txnMgr).2

/-- It has inserted a row. -/
def blockEngine : StorageEngine := ((insertWithTxn (str "t") oneRow).run begunEngine).2

def oneRowQuery : SelectStmt :=
  ⟨[], str "t", some (.binary .eq (.columnRef (str "a")) (.literal (.int 1)))⟩

theorem history_blockEngine (hidle : emptyTable.txnMgr.context.xid = InvalidTransactionId) {returned : Row}
    (hreturned : ((insertWithTxn (str "t") oneRow).run begunEngine).1.toOption = some returned) :
    History Disk.empty 0 0 blockEngine (Ledger.empty.insert
      ⟨begunEngine.resolveTableName (str "t"), rowIdOf returned⟩ (business returned)) := by
  have hcreated : History Disk.empty 0 0 emptyTable .empty := History.create.neutral trivial
  have hbegun : History Disk.empty 0 0 begunEngine .empty :=
    hcreated.manager (c := .beginTransactionBlock) fun _ => hidle
  have hpermits : Permits begunEngine (.insertWithTxn (str "t") oneRow) := permits_emptyTable
  exact hbegun.insert hpermits (Prog.run_of_toOption hreturned)

theorem ready_blockEngine (h : blockEngine.txnMgr.context.blockState = .begin) :
    Ready blockEngine.txnMgr := by
  constructor
  · intro hstate
    rw [h] at hstate
    cases hstate
  · intro hstate
    rw [h] at hstate
    cases hstate

theorem userClause_oneRowQuery : UserClause oneRowQuery.filter := by
  intro column hcolumn
  obtain rfl := List.mem_singleton.mp hcolumn
  rfl

/-- The block reads the row, which it has not committed. -/
theorem select_reads_blockEngine : ∃ result e', (JiamiaoDBServer.query (.select oneRowQuery)
    (str "full_scan")).run blockEngine = (.ok result, e') ∧
      ∃ full ∈ result.rows, rowIdOf full = 1 ∧ business full = oneRow := by
  have hruns : ((insertWithTxn (str "t") oneRow).run begunEngine).1.toOption.any
        (fun row => decide (rowIdOf row = 1 ∧ business row = oneRow)) = true ∧
      blockEngine.txnMgr.context.blockState = .begin ∧ (blockEngine.tableOf (str "t")).isOk = true ∧
      emptyTable.txnMgr.context.xid = InvalidTransactionId ∧
      ((JiamiaoDBServer.query (.select oneRowQuery) (str "full_scan")).run
        blockEngine).1.toOption.isSome = true ∧
      passes oneRowQuery.filter oneRow = true ∧
      begunEngine.resolveTableName (str "t") = blockEngine.resolveTableName (str "t") := by
    decide +kernel
  obtain ⟨hinsert, hblock, htable, hidle, hselect, hpasses, hname⟩ := hruns
  obtain ⟨returned, hreturned, hrow⟩ := (Option.any_eq_true _ _).mp hinsert
  obtain ⟨hid, hbusiness⟩ := of_decide_eq_true hrow
  obtain ⟨result, hresult⟩ := Option.isSome_iff_exists.mp hselect
  rcases hmem : blockEngine.tableOf (str "t") with f | mem
  · rw [hmem] at htable
    cases htable
  have hinserted := history_blockEngine hidle hreturned
  have hsource : FallsBack oneRowQuery (str "full_scan") := rfl
  obtain ⟨⟨rows, hrows, -, hanswer⟩, -⟩ :=
    hinserted.select_reads (ready_blockEngine hblock) hsource userClause_oneRowQuery
      hmem (Prog.run_of_toOption hresult)
  have hprojection : projection oneRowQuery = id := funext fun _ => rfl
  rw [hprojection, List.map_id] at hrows
  refine ⟨result, _, Prog.run_of_toOption hresult, ?_⟩
  rw [hrows, ← hbusiness]
  refine (hanswer 1 (business returned)).mp ⟨?_, ?_⟩
  · change Function.update _ _ _ (⟨blockEngine.resolveTableName (str "t"), 1⟩ : RowKey) = _
    rw [← hname, ← hid]
    exact Function.update_self _ _ _
  · rw [hbusiness]
    exact hpasses

/-! ### UPDATE and DELETE -/

/-- No statement of the engine starts to abort a block. -/
theorem managerInvariant_going : ManagerInvariant fun m => m.context.blockState ≠ .abortPending where
  assignXid m h := by
    by_cases hidle : m.context.xid = InvalidTransactionId
    · obtain ⟨c, -, ⟨-, f, hrun⟩ | ⟨-, hrun⟩⟩ := run_assignXid_cases hidle
      · exact Prog.wp_of_error hrun h
      · exact Prog.wp_of_ok hrun h
    · exact Prog.wp_of_ok (run_assignXid_of_ne hidle) h
  registerSiread m key h := by
    obtain ⟨-, -, -, hcontext, -⟩ := m.frame_registerSiread key
    rw [hcontext]
    exact h
  registerWrite m key h := by
    obtain ⟨-, -, -, hcontext, -⟩ := m.frame_registerWrite key
    rw [hcontext]
    exact h
  addUndoRecord _ _ h := h
  maybeAntiWraparound m h := by
    obtain ⟨c, hm, -⟩ := m.exists_maybeAntiWraparound
    rw [hm]
    exact h

/-- The table, the clause and what becomes of a row that passes it. -/
def rewriting : Statement → Option (Str × Option Expression × (Row → Option Row))
  | .update s =>
    some (s.table, s.filter, fun row => some (business (applyUpdates row (literalUpdates s.sets))))
  | .delete s => some (s.table, s.filter, fun _ => none)
  | _ => none

/-- A statement without an error message has run its one call of the engine to the end. -/
theorem run_execute_write {ast : Statement} {strategy : Str} {p : EngineM Nat} {verb : String}
    (hpipeline : executePipeline (buildPipeline e ast strategy) = (do
      let count ← p
      pure ⟨[], [], Int64.ofNat count, countMessage verb count⟩)) {result : ResultSet}
    (hrun : (PipelineExecutor.execute ast strategy).run e = (.ok result, e'))
    (hdone : ∀ f, result ≠ errorResult f) : ∃ n, p.run e = (.ok n, e') := by
  rw [PipelineExecutor.execute, Prog.bind_ok (Prog.run_get _), Prog.tryCatch, hpipeline] at hrun
  dsimp only at hrun
  rcases hp : p.run e with ⟨f | n, e₁⟩
  · rw [Prog.bind_error hp] at hrun
    dsimp only [catchFailure] at hrun
    split at hrun
    · cases hrun
    · cases hrun
      exact absurd rfl (hdone f)
  · rw [Prog.bind_ok hp] at hrun
    cases hrun
    exact ⟨n, rfl⟩

/-- The call has brought the rows to `rows`, and the command ends. -/
theorem Represents.written (h : Represents e l) (hs : Sane e)
    (hgoing : e.txnMgr.context.blockState ≠ .abortPending) {c : Call} {p : EngineM Nat}
    (hexec : c.exec = Call.discard p) (ht : c.Transacts) (hc : ∀ p, c ≠ .txn p) {rows : Rows}
    (hwp : p.wp (fun _ e' => CarriesOn e e' ∧ e'.live = rows) (fun _ => CarriesOn e) e) {n : Nat}
    {e₁ : StorageEngine} (hrun : p.run e = (.ok n, e₁))
    (hcommit : (inTxn TransactionManager.commitTransactionCommand).run e₁ = (.ok (), e')) :
    ∃ l', Represents e' l' ∧ l'.current = rows := by
  obtain ⟨hcarries, hlive⟩ := Prog.wp_ok hwp hrun
  have hgoing₁ := (managerInvariant_going.keeps_exec c fun p hp => absurd hp (hc p)).final hgoing
  rw [hexec, snd_run_discard, hrun] at hgoing₁
  exact (h.write hcarries hlive).commitTransactionCommand (hs.discard hexec ht hc hrun) hgoing₁ hcommit

/-- An UPDATE or a DELETE of a client that reports no error has changed exactly the rows of the ledger that
pass its clause, and those as it says. -/
theorem History.rewrites_ledger (h : History d interval clock e l) (hready : Ready e.txnMgr)
    {ast : Statement} {strategy table : Str} {filter : Option Expression} {f : Row → Option Row}
    (hast : rewriting ast = some (table, filter, f)) (hclause : UserClause filter)
    (hfits : ∀ id row row', l.current ⟨e.resolveTableName table, id⟩ = some row →
      passes filter row = true → f row = some row' → row'.size < 65536) {result : ResultSet}
    (hrun : (JiamiaoDBServer.query ast strategy).run e = (.ok result, e'))
    (hdone : ∀ f, result ≠ errorResult f) : ∃ l', Represents e' l' ∧ l'.current =
      changed (e.resolveTableName table) (fun _ row => passes filter row) f l.current := by
  obtain ⟨hs, hr⟩ := h.started hready
  obtain ⟨e₁, hexecute, hcommit⟩ := exists_of_query hrun
  have hgoing := going_startTransactionCommand hready
  have hlooks : LooksAt (passes filter) fun _ row => passes filter row :=
    fun _ row _ => (passes_business hclause row).symm
  rw [← hr.current] at hfits ⊢
  cases ast with
  | update s =>
    cases hast
    obtain ⟨n, hn⟩ := run_execute_write (p := updateWithTxn s.table (passes s.filter)
      (literalUpdates s.sets)) rfl hexecute hdone
    refine hr.written hs hgoing (c := .updateWithTxn s.table (passes s.filter) (literalUpdates s.sets)) rfl
      trivial (fun p hp => by cases hp) ?_ hn hcommit
    exact wp_updateWithTxn_ledger hs.accounted hr.serial hlooks fun id row hrow hp =>
      hfits id row _ hrow hp rfl
  | delete s =>
    cases hast
    obtain ⟨n, hn⟩ := run_execute_write (p := removeWithTxn s.table (passes s.filter)) rfl hexecute hdone
    refine hr.written hs hgoing (c := .removeWithTxn s.table (passes s.filter)) rfl trivial
      (fun p hp => by cases hp) ?_ hn hcommit
    exact wp_removeWithTxn_ledger hs.accounted hr.serial hlooks
  | select s => cases hast
  | insert s => cases hast

def oneRowUpdate : UpdateStmt :=
  ⟨str "t", (∅ : StrMap Expression).insert (str "a") (.literal (.int 2)), oneRowQuery.filter⟩

/-- The block changes its row. -/
theorem rewrites_ledger_blockEngine : ∃ l', Represents
    ((JiamiaoDBServer.query (.update oneRowUpdate) (str "update_with_where")).run blockEngine).2 l' ∧
      ∃ id, l'.current ⟨blockEngine.resolveTableName (str "t"), id⟩ =
        some ((∅ : Row).insert (str "a") (.int 2)) := by
  have hruns : ((insertWithTxn (str "t") oneRow).run begunEngine).1.toOption.any
        (fun row => decide (business row = oneRow)) = true ∧
      blockEngine.txnMgr.context.blockState = .begin ∧
      emptyTable.txnMgr.context.xid = InvalidTransactionId ∧
      ((JiamiaoDBServer.query (.update oneRowUpdate) (str "update_with_where")).run
        blockEngine).1.toOption.any (fun result => decide (result.affectedRows = 1)) = true ∧
      passes oneRowQuery.filter oneRow = true ∧
      business (applyUpdates oneRow (literalUpdates oneRowUpdate.sets)) =
        (∅ : Row).insert (str "a") (.int 2) ∧
      begunEngine.resolveTableName (str "t") = blockEngine.resolveTableName (str "t") := by
    decide +kernel
  obtain ⟨hinsert, hblock, hidle, hupdate, hpasses, hupdated, hname⟩ := hruns
  obtain ⟨returned, hreturned, hrow⟩ := (Option.any_eq_true _ _).mp hinsert
  have hbusiness := of_decide_eq_true hrow
  obtain ⟨result, hresult, haffected⟩ := (Option.any_eq_true _ _).mp hupdate
  have hinserted := history_blockEngine hidle hreturned
  rw [hbusiness, hname] at hinserted
  have hrows {id : Int64} {row : Row} (h : (Ledger.empty.insert
      ⟨blockEngine.resolveTableName (str "t"), rowIdOf returned⟩ oneRow).current
        ⟨blockEngine.resolveTableName (str "t"), id⟩ = some row) : row = oneRow := by
    change Function.update Ledger.empty.current _ _ _ = some row at h
    rw [Function.update_apply] at h
    split at h
    · exact (Option.some.inj h).symm
    · cases h
  have hdone : ∀ f, result ≠ errorResult f := by
    intro f hf
    rw [hf] at haffected
    cases haffected
  obtain ⟨l', hl', hcurrent⟩ := hinserted.rewrites_ledger (ready_blockEngine hblock) rfl
    userClause_oneRowQuery (fun id row row' hheld _ hnew => by
      rw [hrows hheld] at hnew
      rw [← Option.some.inj hnew, hupdated]
      decide +kernel) (Prog.run_of_toOption hresult) hdone
  refine ⟨l', hl', rowIdOf returned, ?_⟩
  rw [hcurrent, changed]
  change (Function.update Ledger.empty.current _ _ _).bind _ = _
  rw [Function.update_self, Option.bind_some]
  refine (if_pos rfl).trans ?_
  rw [changeRow, if_pos hpasses, hupdated]

/-! ### INSERT -/

/-- The row, as the table's schema completes it in a later state of the table. -/
def Completes (e : StorageEngine) (q : Str) (given full : Row) : Prop :=
  ∃ (e₁ : StorageEngine) (schema : TableSchema) (validated : Row), KeepsVersions q e e₁ ∧
    e₁.tables[q]? = some schema ∧ e₁.validate schema given = .ok validated ∧ business validated = full

/-- Ids at which the table has no row, each once. -/
structure FreshIds (l : Ledger) (q : Str) (ids : List Int64) : Prop where
  nodup : ids.Nodup
  free : ∀ id ∈ ids, l.current ⟨q, id⟩ = none

theorem FreshIds.cons {q : Str} {id : Int64} {row : Row} {ids : List Int64}
    (h : FreshIds (l.insert ⟨q, id⟩ row) q ids) (hid : l.current ⟨q, id⟩ = none) :
    FreshIds l q (id :: ids) := by
  have hne {id' : Int64} (hid' : id' ∈ ids) : id' ≠ id := by
    intro heq
    have hfree := h.free id' hid'
    change Function.update l.current ⟨q, id⟩ (some row) ⟨q, id'⟩ = none at hfree
    rw [heq, Function.update_self] at hfree
    cases hfree
  refine ⟨List.nodup_cons.mpr ⟨fun hmem => hne hmem rfl, h.nodup⟩, fun id' hid' => ?_⟩
  rcases List.mem_cons.mp hid' with rfl | hid'
  · exact hid
  · have hfree := h.free id' hid'
    change Function.update l.current ⟨q, id⟩ (some row) ⟨q, id'⟩ = none at hfree
    rwa [Function.update_of_ne fun hkey => hne hid' (RowKey.mk.inj hkey).2] at hfree

/-- The new id is beyond all that the table has handed out. -/
theorem cell_of_inserts {table : Str} {row returned : Row} (hsound : Sound e)
    (h : Inserts e table row returned e') :
    e.cell ⟨e.resolveTableName table, rowIdOf returned⟩ = none := by
  obtain ⟨schema, validated, xid, cid, -, -, hreturned⟩ := h.row
  obtain ⟨mem, t, seq, hmem, -⟩ := h.stored
  rw [hreturned, rowIdOf_of_getRowId (getRowId_stamp _ _ _ _ _)]
  refine cell_of_cleared (fun mem' hmem' t ht hid => ?_) hmem (hsound.tables.single _ mem hmem)
  obtain ⟨last, hlast, hle⟩ := hsound.tables.stored _ mem' hmem' t ht
  have hcounter : e.rowIds.getD (e.resolveTableName table) 0 = last := by
    rw [Std.ExtTreeMap.getD_eq_getD_getElem?, hlast]
    rfl
  have hlt := FixedWidth.lt_succ h.counter.1
  rw [hid, ← hcounter] at hle
  exact absurd hle (Int64.not_le.mpr hlt)

theorem completes_of_inserts {table : Str} {row returned : Row} (h : Inserts e table row returned e') :
    Completes e (e.resolveTableName table) row (business returned) := by
  obtain ⟨schema, validated, xid, cid, hschema, hvalidated, hreturned⟩ := h.row
  refine ⟨e, schema, validated, .refl _ e, hschema, hvalidated, ?_⟩
  rw [hreturned, business_stamp, business_insert_system rfl]

theorem Completes.back {q : Str} {given full : Row} (h : Completes e' q given full)
    (hkeeps : KeepsVersions q e e') : Completes e q given full := by
  obtain ⟨e₁, schema, validated, hkeeps₁, hrest⟩ := h
  exact ⟨e₁, schema, validated, hkeeps.trans hkeeps₁, hrest⟩

/-- The rows of a statement go in one after the other. -/
theorem History.insertEach (h : History d interval clock e l) {table : Str} {rows : List Row}
    (hok : ∀ row, Permits e (.insertWithTxn table row))
    (hrun : (StorageEngine.insertEach table rows).run e = (.ok (), e')) : ∃ added,
      History d interval clock e' (l.insertAll (e.resolveTableName table) added) ∧
      List.Forall₂ (fun row p => Completes e (e.resolveTableName table) row p.2) rows added ∧
      FreshIds l (e.resolveTableName table) (added.map Prod.fst) := by
  induction rows generalizing e l with
  | nil =>
    cases hrun
    exact ⟨[], h, .nil, .nil, fun id hid => absurd hid List.not_mem_nil⟩
  | cons row rows ih =>
    obtain ⟨returned, e₁, hfirst, hrest⟩ := run_insertEach_cons hrun
    have hinserts := inserts_of_run hfirst
    have hresolve : e₁.resolveTableName table = e.resolveTableName table :=
      hinserts.keepsVersions.resolve table
    have hcolumns := hinserts.columns (e.resolveTableName table)
    have hok₁ (row' : Row) : Permits e₁ (.insertWithTxn table row') := by
      intro schema hschema
      rw [hresolve] at hschema
      rw [hschema] at hcolumns
      obtain ⟨schema₀, hschema₀, hsame⟩ := Option.map_eq_some_iff.mp hcolumns.symm
      rw [← hsame]
      exact hok row' schema₀ hschema₀
    obtain ⟨hs, hr⟩ := h.represents
    obtain ⟨added, hadded, hcomplete, hfresh⟩ := ih (h.insert (hok row) hfirst) hok₁ hrest
    rw [hresolve] at hadded hcomplete hfresh
    refine ⟨(rowIdOf returned, business returned) :: added, hadded,
      .cons (completes_of_inserts hinserts) (hcomplete.imp fun _ _ hp => hp.back hinserts.keepsVersions),
      hfresh.cons ?_⟩
    rw [← hr.current, live, cell_of_inserts hs.sound hinserts]
    rfl

theorem going_insertEach (table : Str) (rows : List Row)
    (hgoing : e.txnMgr.context.blockState ≠ .abortPending) :
    ((StorageEngine.insertEach table rows).run e).2.txnMgr.context.blockState ≠ .abortPending := by
  have hkeeps : Prog.Keeps (fun e => e.txnMgr.context.blockState ≠ .abortPending)
      (StorageEngine.insertEach table rows) :=
    Prog.Keeps.forEach fun row _ =>
      managerInvariant_going.keeps_exec (.insertWithTxn table row) fun p hp => by cases hp
  exact hkeeps.final hgoing

/-- An INSERT of a client that reports no error has put each of its rows, completed, into the ledger under
an id of its own at which no row was, and has left all others. -/
theorem History.inserts_ledger (h : History d interval clock e l) (hready : Ready e.txnMgr)
    {s : InsertStmt} {strategy : Str}
    (hcols : ∀ schema, e.tables[e.resolveTableName s.table]? = some schema → Tabular schema.columns)
    {result : ResultSet}
    (hrun : (JiamiaoDBServer.query (.insert s) strategy).run e = (.ok result, e'))
    (hdone : ∀ f, result ≠ errorResult f) : ∃ added,
      List.Forall₂ (fun values p => Completes e (e.resolveTableName s.table)
        (AIPlanner.insertRow (valueColumns e s.table s.columns) values) p.2) s.values added ∧
      FreshIds l (e.resolveTableName s.table) (added.map Prod.fst) ∧
      ∃ l', Represents e' l' ∧ l'.current = (l.insertAll (e.resolveTableName s.table) added).current := by
  obtain ⟨e₁, hexecute, hcommit⟩ := exists_of_query hrun
  have hstart := h.manager (c := .startTransactionCommand) hready.idle
  change History d interval clock (e.setTxnMgr (startTransactionCommand e.txnMgr)) l at hstart
  have hgoing : (e.setTxnMgr (startTransactionCommand e.txnMgr)).txnMgr.context.blockState ≠ .abortPending :=
    going_startTransactionCommand hready
  have hpipeline : executePipeline (buildPipeline (e.setTxnMgr (startTransactionCommand e.txnMgr))
      (.insert s) strategy) = (do
        let count ← (do
          StorageEngine.insertEach s.table
            (s.values.map (AIPlanner.insertRow (valueColumns e s.table s.columns)))
          pure s.values.length)
        pure ⟨[], [], Int64.ofNat count, countMessage "插入 " count⟩) := by
    rw [bind_assoc]
    simp only [pure_bind]
    rw [← List.length_map (AIPlanner.insertRow (valueColumns e s.table s.columns))]
    rfl
  obtain ⟨n, hn⟩ := run_execute_write hpipeline hexecute hdone
  obtain ⟨⟨⟩, e₂, hinserts, hpure⟩ := Prog.exists_of_bind_ok hn
  cases hpure
  obtain ⟨added, hadded, hcomplete, hfresh⟩ := hstart.insertEach (fun _ => hcols) hinserts
  have hkeeps : KeepsVersions (e.resolveTableName s.table) e
      (e.setTxnMgr (startTransactionCommand e.txnMgr)) :=
    ⟨rfl, fun _ => rfl, Int64.le_refl _, fun mem hmem => ⟨mem, hmem, rfl, fun _ _ _ ht => ht⟩⟩
  have hgoing₁ := going_insertEach s.table
    (s.values.map (AIPlanner.insertRow (valueColumns e s.table s.columns))) hgoing
  rw [hinserts] at hgoing₁
  obtain ⟨hs, hr⟩ := hadded.represents
  exact ⟨added, (List.forall₂_map_left_iff.mp hcomplete).imp fun _ _ hp => hp.back hkeeps, hfresh,
    hr.commitTransactionCommand hs hgoing₁ hcommit⟩

def secondRow : InsertStmt := ⟨str "t", [], [[.int 2]]⟩

/-- The block adds a second row. -/
theorem inserts_ledger_blockEngine : ∃ l l' added, History Disk.empty 0 0 blockEngine l ∧
    Represents ((JiamiaoDBServer.query (.insert secondRow) (str "insert")).run blockEngine).2 l' ∧
      added.length = 1 ∧ FreshIds l (blockEngine.resolveTableName (str "t")) (added.map Prod.fst) ∧
      l'.current = (l.insertAll (blockEngine.resolveTableName (str "t")) added).current := by
  have hruns : ((insertWithTxn (str "t") oneRow).run begunEngine).1.toOption.isSome = true ∧
      blockEngine.txnMgr.context.blockState = .begin ∧
      emptyTable.txnMgr.context.xid = InvalidTransactionId ∧
      (blockEngine.tables[blockEngine.resolveTableName (str "t")]?).map TableSchema.columns =
        some [⟨str "a", .integer, true, false, none⟩] ∧
      ((JiamiaoDBServer.query (.insert secondRow) (str "insert")).run
        blockEngine).1.toOption.any (fun result => decide (result.affectedRows = 1)) = true := by
    decide +kernel
  obtain ⟨hinsert, hblock, hidle, htable, hsecond⟩ := hruns
  obtain ⟨returned, hreturned⟩ := Option.isSome_iff_exists.mp hinsert
  obtain ⟨result, hresult, haffected⟩ := (Option.any_eq_true _ _).mp hsecond
  have hdone : ∀ f, result ≠ errorResult f := by
    intro f hf
    rw [hf] at haffected
    cases haffected
  have hinserted := history_blockEngine hidle hreturned
  have hcols : Permits blockEngine (.insertWithTxn (str "t") oneRow) :=
    permits_insert ⟨by decide, _, List.mem_singleton_self _, by decide⟩ htable
  obtain ⟨added, hcomplete, hfresh, l', hl', hcurrent⟩ := hinserted.inserts_ledger
    (s := secondRow) (ready_blockEngine hblock) hcols (Prog.run_of_toOption hresult) hdone
  exact ⟨_, l', added, hinserted, hl', hcomplete.length_eq.symm, hfresh, hcurrent⟩

/-! ### COMMIT and ROLLBACK -/

theorem ready_resetContext (m : TransactionManager) : Ready m.resetContext :=
  ⟨fun _ => rfl, fun hstate => by cases hstate⟩

theorem xid_of_commitTransaction {m m' : TransactionManager}
    (hrun : TransactionManager.commitTransaction.run m = (.ok (), m')) :
    m'.context.xid = InvalidTransactionId := by
  rw [TransactionManager.commitTransaction, Prog.bind_ok (Prog.run_get m)] at hrun
  dsimp only at hrun
  split at hrun
  · next hidle =>
    cases hrun
    exact hidle
  · split at hrun
    · cases hrun
    · cases hrun
      rfl

/-- A record of the outcome in the log touches no rows. -/
theorem History.recorded (h : History d interval clock e l) {c : Call} (hc : NeutralCall c)
    {p : EngineM Unit} {b : Prop} [Decidable b]
    (hrun : (if b then c.exec >>= fun _ => p else p).run e = (.ok (), e')) :
    ∃ e₁, History d interval clock e₁ l ∧ p.run e₁ = (.ok (), e') := by
  split at hrun
  · obtain ⟨⟨⟩, e₁, hrecord, hrest⟩ := Prog.exists_of_bind_ok hrun
    have hnext := h.neutral hc
    rw [hrecord] at hnext
    exact ⟨e₁, hnext, hrest⟩
  · exact ⟨e, h, hrun⟩

/-- After the end of a block the context starts anew. -/
theorem History.reset (h : History d interval clock e l)
    (hidle : e.txnMgr.context.xid = InvalidTransactionId)
    (hrun : (inTxn (Prog.modify TransactionManager.resetContext)).run e = (.ok (), e')) :
    History d interval clock e' l.rollback ∧ Ready e'.txnMgr := by
  cases hrun
  exact ⟨h.resetContext hidle, ready_resetContext e.txnMgr⟩

/-- COMMIT makes the rows of the block the committed ones, and ROLLBACK brings the committed rows back.
After both the server is ready for a statement outside a block. -/
theorem History.block_ends (h : History d interval clock e l) :
    (JiamiaoDBServer.commitTransaction.run e = (.ok (), e') →
      History d interval clock e' ⟨l.current, l.current, []⟩ ∧ Ready e'.txnMgr) ∧
    (JiamiaoDBServer.rollbackTransaction.run e = (.ok (), e') →
      History d interval clock e' ⟨l.committed, l.committed, []⟩ ∧ Ready e'.txnMgr) := by
  constructor
  · intro hrun
    rw [JiamiaoDBServer.commitTransaction, Prog.bind_ok (Prog.run_get e)] at hrun
    obtain ⟨e₁, h₁, hrun⟩ := h.recorded (c := .writeXactCommit e.txnMgr.context.xid) trivial hrun
    obtain ⟨⟨⟩, e₂, hcommit, hreset⟩ := Prog.exists_of_bind_ok hrun
    have h₂ := h₁.commit hcommit
    obtain ⟨m, hdone, rfl⟩ := run_inTxn_ok hcommit
    exact h₂.reset (xid_of_commitTransaction hdone) hreset
  · intro hrun
    rw [JiamiaoDBServer.rollbackTransaction, Prog.bind_ok (Prog.run_get e)] at hrun
    obtain ⟨e₁, h₁, hrun⟩ := h.recorded (c := .writeXactAbort e.txnMgr.context.xid) trivial hrun
    obtain ⟨⟨⟩, e₂, hundo, hrun⟩ := Prog.exists_of_bind_ok hrun
    obtain ⟨⟨⟩, e₃, habort, hreset⟩ := Prog.exists_of_bind_ok hrun
    have hback : StorageEngine.rollback.run e₁ = (.ok (), e₃) := (Prog.bind_ok hundo).trans habort
    refine (h₁.rollback hback).reset ?_ hreset
    cases habort
    change e₂.txnMgr.abortTransaction.context.xid = _
    unfold TransactionManager.abortTransaction
    dsimp only
    split <;> rfl

/-- The block ends in either way. -/
theorem block_ends_blockEngine : ∃ l : Ledger, l.current ≠ l.committed ∧
    History Disk.empty 0 0 (JiamiaoDBServer.commitTransaction.run blockEngine).2
      ⟨l.current, l.current, []⟩ ∧
    History Disk.empty 0 0 (JiamiaoDBServer.rollbackTransaction.run blockEngine).2
      ⟨l.committed, l.committed, []⟩ := by
  have hruns : ((insertWithTxn (str "t") oneRow).run begunEngine).1.toOption.isSome = true ∧
      (JiamiaoDBServer.commitTransaction.run blockEngine).1.toOption = some () ∧
      (JiamiaoDBServer.rollbackTransaction.run blockEngine).1.toOption = some () ∧
      emptyTable.txnMgr.context.xid = InvalidTransactionId := by
    decide +kernel
  obtain ⟨hinsert, hcommit, hrollback, hidle⟩ := hruns
  obtain ⟨returned, hreturned⟩ := Option.isSome_iff_exists.mp hinsert
  have hblock := history_blockEngine hidle hreturned
  refine ⟨_, ?_, (hblock.block_ends.1 (Prog.run_of_toOption hcommit)).1,
    (hblock.block_ends.2 (Prog.run_of_toOption hrollback)).1⟩
  intro hsame
  have hrow := congrFun hsame ⟨begunEngine.resolveTableName (str "t"), rowIdOf returned⟩
  change Function.update Ledger.empty.current _ _ _ = none at hrow
  rw [Function.update_self] at hrow
  cases hrow

end StorageEngine
end JiaMiaoDB
