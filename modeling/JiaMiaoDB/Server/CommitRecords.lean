import JiaMiaoDB.Server.Statements
import JiaMiaoDB.Storage.WalSequence

/-!
# The records of commits

COMMIT writes its record before the manager checks for a conflict. The check never fails: the
transaction that commits has the newest id of all, and an edge leads from an older transaction to a
newer one, so that no two transactions have edges both ways.
-/

set_option autoImplicit false

namespace JiaMiaoDB
open StorageEngine

namespace TransactionManager

/-- `n` is the next id at the start of the run and `commits` lists the transactions with a record. -/
structure CommitOrder (n : TransactionId) (commits : List TransactionId) (m : TransactionManager) :
    Prop where
  next : n ≤ m.nextXid
  current : m.context.xid ≠ InvalidTransactionId →
    n ≤ m.context.xid ∧ m.context.xid.toNat + 1 = m.nextXid.toNat
  readers : ∀ x key, m.HasRead x key → x < m.nextXid
  edges : ∀ x y, m.HasEdge x y → x < m.nextXid ∧ y < m.nextXid ∧ (n ≤ x ∨ n ≤ y → x < y)
  committed : ∀ x ∈ commits, x < m.nextXid ∧ m.clog.getStatus x = .committed ∧
    (m.context.xid ≠ InvalidTransactionId → x < m.context.xid)

namespace CommitOrder
variable {n : TransactionId} {commits : List TransactionId} {m : TransactionManager}

/-- No transaction has edges to and from the current one. -/
theorem not_pivot (h : CommitOrder n commits m) (hxid : m.context.xid ≠ InvalidTransactionId) :
    m.ssiIsPivot m.context.xid = false := by
  rw [← Bool.not_eq_true, ssiIsPivot_iff]
  rintro ⟨y, -, hout, hin⟩
  have hn := (h.current hxid).1
  have hlt := (h.edges _ _ hout).2.2 (.inl hn)
  have hgt := (h.edges _ _ hin).2.2 (.inr hn)
  exact absurd (UInt32.lt_trans hlt hgt) (UInt32.lt_irrefl _)

theorem run_commitTransaction (h : CommitOrder n commits m)
    (hxid : m.context.xid ≠ InvalidTransactionId) :
    TransactionManager.commitTransaction.run m = (.ok (), m.finish m.context.xid .committed) := by
  rw [TransactionManager.commitTransaction, Prog.bind_ok (Prog.run_get m)]
  dsimp only
  rw [if_neg hxid, h.not_pivot hxid, if_neg fun hpivot => absurd hpivot.2 (by decide)]
  rfl

/-- The manager refuses no commit. -/
theorem commitTransaction_ok (h : CommitOrder n commits m) :
    (TransactionManager.commitTransaction.run m).1 = .ok () := by
  by_cases hxid : m.context.xid = InvalidTransactionId
  · rw [TransactionManager.commitTransaction, Prog.bind_ok (Prog.run_get m)]
    dsimp only
    rw [if_pos hxid]
    rfl
  · rw [h.run_commitTransaction hxid]

theorem setContext (h : CommitOrder n commits m) (c : TransactionContext)
    (hc : c.xid = m.context.xid ∨ c.xid = InvalidTransactionId) :
    CommitOrder n commits (m.setContext c) where
  next := h.next
  current hxid := by
    rcases hc with hc | hc
    · change n ≤ c.xid ∧ c.xid.toNat + 1 = m.nextXid.toNat
      rw [hc]
      apply h.current
      rw [← hc]
      exact hxid
    · exact absurd hc hxid
  readers := h.readers
  edges := h.edges
  committed x hx := by
    obtain ⟨hnext, hstatus, hcur⟩ := h.committed x hx
    refine ⟨hnext, hstatus, fun hxid => ?_⟩
    change x < c.xid
    rcases hc with hc | hc
    · rw [hc]
      apply hcur
      rw [← hc]
      exact hxid
    · exact absurd hc hxid

theorem setClog (h : CommitOrder n commits m) (c : CLog)
    (hc : ∀ x ∈ commits, c.getStatus x = .committed) : CommitOrder n commits { m with clog := c } where
  next := h.next
  current := h.current
  readers := h.readers
  edges := h.edges
  committed x hx := ⟨(h.committed x hx).1, hc x hx, (h.committed x hx).2.2⟩

theorem giveUp (h : CommitOrder n commits m) (c : CLog) (hc : m.GivesUp c) :
    CommitOrder n commits { m with clog := c } := by
  refine h.setClog c fun x hx => ?_
  have hstatus := (h.committed x hx).2.1
  rw [hc.getStatus (.inr (by rw [hstatus]; decide))]
  exact hstatus

theorem assign (h : CommitOrder n commits m) (c : CLog) (hc : m.GivesUp c)
    (hstop : m.nextXid.toNat < XIDEmergencyStop) : CommitOrder n commits (m.assign c) := by
  have hlt := lt_nextXid_succ hstop
  have hup {x : TransactionId} (hx : x < m.nextXid) : x < m.nextXid + 1 := UInt32.lt_trans hx hlt
  constructor
  · exact UInt32.le_trans h.next (UInt32.le_of_lt hlt)
  · intro _
    refine ⟨h.next, ?_⟩
    change m.nextXid.toNat + 1 = (m.nextXid + 1).toNat
    rw [UInt32.toNat_add]
    have hone : (1 : UInt32).toNat = 1 := rfl
    have hmax : XIDEmergencyStop = 2146483648 := rfl
    omega
  · exact fun x key hx => hup (h.readers x key hx)
  · intro x y hxy
    obtain ⟨hx, hy, horder⟩ := h.edges x y hxy
    exact ⟨hup hx, hup hy, horder⟩
  · intro x hx
    obtain ⟨hnext, hstatus, -⟩ := (h.giveUp c hc).committed x hx
    refine ⟨hup hnext, ?_, fun _ => hnext⟩
    exact (CLog.getStatus_setStatus_of_ne c _ (UInt32.ne_of_lt hnext).symm).trans hstatus

theorem cleanup (h : CommitOrder n commits m) (z : TransactionId) :
    CommitOrder n commits (m.cleanupTransactionState z) where
  next := h.next
  current := h.current
  readers x key hx := h.readers x key (hasRead_cleanup.mp hx).1
  edges x y hxy := h.edges x y (hasEdge_cleanup.mp hxy).1
  committed := h.committed

theorem finish (h : CommitOrder n commits m) (status : TransactionStatus)
    (hxid : m.context.xid ≠ InvalidTransactionId) :
    CommitOrder n commits (m.finish m.context.xid status) := by
  have hclog : CommitOrder n commits
      { m with clog := m.clog.setStatus m.context.xid status } := by
    refine h.setClog _ fun x hx => ?_
    obtain ⟨-, hstatus, hcur⟩ := h.committed x hx
    rw [CLog.getStatus_setStatus_of_ne _ _ (UInt32.ne_of_lt (hcur hxid)).symm]
    exact hstatus
  have hclean := (hclog.cleanup m.context.xid).setContext (finishContext m.context) (.inr rfl)
  exact ⟨hclean.next, hclean.current, hclean.readers, hclean.edges, hclean.committed⟩

/-- Of two ids below the next one, the current one is not the smaller. -/
theorem lt_current (h : CommitOrder n commits m) (hxid : m.context.xid ≠ InvalidTransactionId)
    {x : TransactionId} (hx : x < m.nextXid) (hne : x ≠ m.context.xid) : x < m.context.xid := by
  have hnext := (h.current hxid).2
  rw [UInt32.lt_iff_toNat_lt] at hx ⊢
  have hne : x.toNat ≠ m.context.xid.toNat := fun heq => hne (UInt32.toNat_inj.mp heq)
  omega

theorem current_lt (h : CommitOrder n commits m) (hxid : m.context.xid ≠ InvalidTransactionId) :
    m.context.xid < m.nextXid := by
  have hnext := (h.current hxid).2
  rw [UInt32.lt_iff_toNat_lt]
  omega

theorem finish_committed (h : CommitOrder n commits m)
    (hxid : m.context.xid ≠ InvalidTransactionId) :
    CommitOrder n (commits ++ [m.context.xid]) (m.finish m.context.xid .committed) := by
  have hfinish := h.finish .committed hxid
  refine ⟨hfinish.next, hfinish.current, hfinish.readers, hfinish.edges, ?_⟩
  intro x hx
  rcases List.mem_append.mp hx with hx | hx
  · exact hfinish.committed x hx
  · rw [List.mem_singleton.mp hx]
    exact ⟨h.current_lt hxid, CLog.getStatus_setStatus_self _ _ _, fun hne => absurd rfl hne⟩

theorem registerSiread (h : CommitOrder n commits m) (key : RowKey) :
    CommitOrder n commits (m.registerSiread key) := by
  obtain ⟨hnext, -, hclog, hcontext, -⟩ := m.frame_registerSiread key
  constructor
  · rw [hnext]
    exact h.next
  · rw [hnext, hcontext]
    exact h.current
  · intro x other hx
    rw [hnext]
    rcases hasRead_registerSiread.mp hx with hx | ⟨ht, -, rfl⟩
    · exact h.readers x other hx
    · exact h.current_lt (xid_of_tracksConflicts ht)
  · intro x y hxy
    rw [hnext]
    exact h.edges x y (hasEdge_registerSiread.mp hxy)
  · rw [hnext, hclog, hcontext]
    exact h.committed

theorem registerWrite (h : CommitOrder n commits m) (key : RowKey) :
    CommitOrder n commits (m.registerWrite key) := by
  obtain ⟨hnext, -, hclog, hcontext, -⟩ := m.frame_registerWrite key
  constructor
  · rw [hnext]
    exact h.next
  · rw [hnext, hcontext]
    exact h.current
  · intro x other hx
    rw [hnext]
    exact h.readers x other (hasRead_registerWrite.mp hx)
  · intro x y hxy
    rw [hnext]
    rcases hasEdge_registerWrite.mp hxy with hxy | ⟨ht, hread, hne, rfl⟩
    · exact h.edges x y hxy
    · have hxid := xid_of_tracksConflicts ht
      have hx := h.readers x key hread
      exact ⟨hx, h.current_lt hxid, fun _ => h.lt_current hxid hx hne⟩
  · rw [hnext, hclog, hcontext]
    exact h.committed

theorem closed : Closed (CommitOrder n commits) where
  context h c hc := h.setContext c hc
  giveUp h c hc := h.giveUp c hc
  assign h c hc hstop _ := h.assign c hc hstop
  finish h status _ hxid := h.finish status hxid
  finishEmpty h := ⟨h.next, h.current, h.readers, h.edges, h.committed⟩
  read h key := h.registerSiread key
  write h key := h.registerWrite key
  cleanup h xid := h.cleanup xid

end CommitOrder
end TransactionManager

/-! ### The log -/

/-- The transaction whose commit the event records. -/
def DiskEvent.committed : DiskEvent → Option TransactionId
  | .append r => if WalOp.ofTag r.op = .xactCommit then some r.xid else none
  | _ => none

/-- The transactions whose commit has been recorded since the engine was opened. -/
def Dir.commits (dir : Dir) : List TransactionId := dir.journal.filterMap DiskEvent.committed

theorem Dir.commits_push (dir : Dir) (e : DiskEvent) :
    (dir.push e).commits = dir.commits ++ e.committed.toList := by
  unfold Dir.commits
  rw [Dir.push_journal, List.filterMap_append]
  cases h : e.committed <;> simp [h]

theorem dataInvariant_commits (commits : List TransactionId) :
    DataInvariant fun dir _ => dir.commits = commits where
  bump _ _ _ h := h
  write dir n clock op table xid data hop _ h := by
    rw [Dir.commits_push, DiskEvent.committed, WalOp.ofTag_toTag, if_neg hop, h]
    exact List.append_nil _

theorem commits_checkpoint (e : StorageEngine) :
    (checkpoint.run e).2.dir.commits = e.dir.commits := by
  rcases journal_checkpoint e [] with ⟨-, he⟩ | ⟨ckp, kept, -, hj, -⟩
  · rw [he]
  · simp only [List.nil_append] at hj
    rw [Dir.commits, hj, List.filterMap_append, List.filterMap_append]
    simp [DiskEvent.committed, Dir.commits]

theorem keeps_commits {c : Call} (hc : c.data = true) (commits : List TransactionId) :
    Prog.Keeps (fun e => e.dir.commits = commits) c.exec := by
  have hbody : Prog.Keeps (fun e => e.dir.commits = commits) c.body := by
    refine LogInvariant.keeps_body_of_ne (dataInvariant_commits commits) fun xid heq => ?_
    rw [heq] at hc
    cases hc
  have hcheck : Prog.Keeps (fun e => e.dir.commits = commits) checkpoint :=
    Prog.Keeps.of_final fun e h => (commits_checkpoint e).trans h
  have hmaybe : Prog.Keeps (fun e => e.dir.commits = commits) maybeCheckpoint :=
    Prog.Keeps.get.bind fun _ => Prog.Keeps.ite (fun _ => hcheck) fun _ => Prog.Keeps.pure ()
  rw [Call.exec_eq]
  exact Prog.Keeps.ite (fun _ => hbody.bind fun _ => hmaybe.bind fun _ => Prog.Keeps.pure _)
    fun _ => hbody

/-! ### Runs of the server -/

/-- The transactions with a record are committed and the order of the ids is kept. -/
def RecordsSound (n : TransactionId) (e : StorageEngine) : Prop :=
  TransactionManager.CommitOrder n e.dir.commits e.txnMgr

variable {n : TransactionId}

theorem statementInvariant_recordsSound (n : TransactionId) : StatementInvariant (RecordsSound n) where
  manager c hc := by
    intro e h
    rw [inTxn, Prog.wp_zoom]
    exact TransactionManager.CommitOrder.closed.keeps_run hc e.txnMgr h
  data c hc := by
    refine Prog.Keeps.of_final fun e h => ?_
    have hmanager : TransactionManager.Closed (TransactionManager.CommitOrder n e.dir.commits) :=
      TransactionManager.CommitOrder.closed
    have htxn : (c.exec.run e).2.txnMgr.CommitOrder n e.dir.commits :=
      (hmanager.managerInvariant.keeps_exec c fun p hp => by rw [hp] at hc; cases hc).final h
    unfold RecordsSound
    rw [(keeps_commits hc e.dir.commits).final rfl]
    exact htxn

theorem keeps_commitTransaction : Prog.Keeps (RecordsSound n) JiamiaoDBServer.commitTransaction := by
  have hreset : Prog.Keeps (RecordsSound n) (inTxn (Prog.modify TransactionManager.resetContext)) :=
    (statementInvariant_recordsSound n).manager .resetContext rfl
  have hidle : Prog.Keeps (RecordsSound n) (inTxn TransactionManager.commitTransaction) :=
    (statementInvariant_recordsSound n).manager .commitTransaction rfl
  refine Prog.Keeps.get_bind fun e h => ?_
  dsimp only
  by_cases hxid : e.txnMgr.context.xid = InvalidTransactionId
  · rw [if_neg fun hne => hne hxid]
    exact hidle.bind (fun _ => hreset) e h
  · rw [if_pos hxid, Prog.wp_bind, writeXactCommit, writeWal, Prog.wp_bind, nextSeq, Prog.wp_bind,
      Prog.wp_get]
    by_cases hmax : e.walSeq = Int64.maxValue
    · rw [if_pos hmax]
      exact h
    · rw [if_neg hmax, Prog.wp_bind, Prog.wp_set, Prog.wp_pure, Prog.wp_modify, Prog.wp_bind, inTxn,
        Prog.wp_zoom]
      refine Prog.wp_of_ok (h.run_commitTransaction hxid) (hreset _ ?_)
      have hcommits := e.dir.commits_push (.append ⟨e.walSeq + 1, e.clock,
        WalOp.xactCommit.toTag, [], e.txnMgr.context.xid, walEncodeEmpty⟩)
      unfold RecordsSound
      change TransactionManager.CommitOrder n (e.dir.push _).commits _
      rw [hcommits, DiskEvent.committed, WalOp.ofTag_toTag, if_pos rfl]
      exact h.finish_committed hxid

/-- What can happen between two looks at the engine: a statement of any request, a change of the
isolation level, and a read or a write that is put on record. -/
inductive ServerStep where
  | statement (s : ServerStatement)
  | setIsolationLevel (level : IsolationLevel)
  | registerSiread (key : RowKey)
  | registerWrite (key : RowKey)

def ServerStep.run : ServerStep → EngineM Unit
  | statement s => s.run
  | setIsolationLevel level => inTxn (ManagerCall.setIsolationLevel level).run
  | registerSiread key => inTxn (ManagerCall.registerSiread key).run
  | registerWrite key => inTxn (ManagerCall.registerWrite key).run

theorem keeps_step (step : ServerStep) : Prog.Keeps (RecordsSound n) step.run := by
  have hsound := statementInvariant_recordsSound n
  cases step with
  | statement s =>
    by_cases hs : s = .commitTransaction
    · rw [hs]
      exact keeps_commitTransaction
    · exact hsound.keeps_run hs
  | setIsolationLevel level => exact hsound.manager (.setIsolationLevel level) rfl
  | registerSiread key => exact hsound.manager (.registerSiread key) rfl
  | registerWrite key => exact hsound.manager (.registerWrite key) rfl

/-- A run; a step that throws counts with what it has done. -/
def serve (steps : List ServerStep) (e : StorageEngine) : StorageEngine :=
  steps.foldl (fun e step => (step.run.run e).2) e

/-- An engine before its first statement. The reads and conflicts on record are any that name ids
handed out before. -/
structure Opened (e : StorageEngine) : Prop where
  journal : e.dir.journal = []
  idle : e.txnMgr.context.xid = InvalidTransactionId
  readers : ∀ x key, e.txnMgr.HasRead x key → x < e.txnMgr.nextXid
  edges : ∀ x y, e.txnMgr.HasEdge x y → x < e.txnMgr.nextXid ∧ y < e.txnMgr.nextXid

theorem Opened.recordsSound {e : StorageEngine} (h : Opened e) :
    RecordsSound e.txnMgr.nextXid e where
  next := UInt32.le_refl _
  current hxid := absurd h.idle hxid
  readers := h.readers
  edges x y hxy := by
    obtain ⟨hx, hy⟩ := h.edges x y hxy
    refine ⟨hx, hy, ?_⟩
    rintro (hn | hn)
    · exact absurd hx (UInt32.not_lt.mpr hn)
    · exact absurd hy (UInt32.not_lt.mpr hn)
  committed x hx := by
    rw [Dir.commits, h.journal] at hx
    cases hx

theorem opened_of_empty {e : StorageEngine} (hjournal : e.dir.journal = [])
    (hidle : e.txnMgr.context.xid = InvalidTransactionId) (hreads : e.txnMgr.sireadMap = ∅)
    (hedges : e.txnMgr.inConflict = ∅) : Opened e := by
  refine ⟨hjournal, hidle, fun x key h => ?_, fun x y h => ?_⟩
  · unfold TransactionManager.HasRead at h
    rw [hreads, Std.ExtTreeMap.getD_empty] at h
    exact absurd h Std.ExtTreeSet.not_mem_empty
  · unfold TransactionManager.HasEdge at h
    rw [hedges, Std.ExtTreeMap.getD_empty] at h
    exact absurd h Std.ExtTreeSet.not_mem_empty

theorem opened_create (d : Disk) (checkpointInterval : Int32) (clock : Int64) :
    Opened (create d checkpointInterval clock) := opened_of_empty rfl rfl rfl rfl

/-- A load records neither reads nor conflicts. -/
theorem opened_load {d : Disk} {checkpointInterval : Int32} {clock : Int64} {e : StorageEngine}
    (h : load.run (create d checkpointInterval clock) = (.ok (), e)) : Opened e := by
  let J : TransactionManager → Prop := fun m =>
    m.context.xid = InvalidTransactionId ∧ m.sireadMap = ∅ ∧ m.inConflict = ∅
  have hentry (j : Json) : Prog.Keeps J (clogEntryFromJson j) :=
    (Prog.Keeps.ofExcept _).bind fun _ => (Prog.Keeps.ofExcept _).bind fun _ =>
      Prog.Keeps.modify fun _ hm => hm
  have hclog (ckp : Checkpoint) : Prog.Keeps J (restoreClog ckp) :=
    Prog.Keeps.ite (fun _ => Prog.Keeps.modify fun _ hm => hm) fun _ =>
      Prog.Keeps.forEach fun j _ => hentry j
  have hnext (ckp : Checkpoint) (m : TransactionManager) (hm : J m) : J (restoreNextXid ckp m) := by
    unfold restoreNextXid
    split <;> exact hm
  have hrebuild (m : TransactionManager) (hm : J m) : J m.rebuildActiveFromClog := hm
  have hreset (m : TransactionManager) (hm : J m) : J m.resetContext := ⟨rfl, hm.2⟩
  have hrestore (ckp : Checkpoint) : Prog.Keeps J (restoreTransactions ckp) :=
    (Prog.Keeps.modify (hnext ckp)).bind fun _ => (hclog ckp).bind fun _ =>
      (Prog.Keeps.modify hrebuild).bind fun _ => Prog.Keeps.modify hreset
  have hmanager := (ManagerInvariant.keeps_load (J := J) (fun _ _ hm => hm) hrestore).final
    (s := create d checkpointInterval clock) ⟨rfl, rfl, rfl⟩
  rw [h] at hmanager
  obtain ⟨hidle, hreads, hedges⟩ := hmanager
  refine opened_of_empty ?_ hidle hreads hedges
  rw [dir_of_load h]
  rfl

theorem recordsSound_serve {e : StorageEngine} (h : RecordsSound n e) (steps : List ServerStep) :
    RecordsSound n (serve steps e) := by
  induction steps generalizing e with
  | nil => exact h
  | cons step rest ih => exact ih ((keeps_step step).final h)

/-- Wherever a run of the server has come to, a transaction whose commit is in the log is committed,
and the manager does not refuse the next COMMIT. -/
theorem commit_records_sound {e : StorageEngine} (h : Opened e) (steps : List ServerStep) :
    (∀ r, DiskEvent.append r ∈ (serve steps e).dir.journal → r.op = WalOp.xactCommit.toTag →
      (serve steps e).txnMgr.clog.getStatus r.xid = .committed) ∧
    (TransactionManager.commitTransaction.run (serve steps e).txnMgr).1 = .ok () := by
  have hsound := recordsSound_serve h.recordsSound steps
  refine ⟨fun r hr hop => (hsound.committed r.xid ?_).2.1, hsound.commitTransaction_ok⟩
  refine List.mem_filterMap.mpr ⟨_, hr, ?_⟩
  rw [DiskEvent.committed, hop, WalOp.ofTag_toTag, if_pos rfl]

/-- A serializable transaction that inserts a row and commits. -/
def insertBlock : List ServerStep :=
  [.statement (.createTable (str "t") [⟨str "a", .integer, true, false, none⟩]),
    .setIsolationLevel .serializable, .statement .beginTransaction,
    .statement (.query (.insert ⟨str "t", [], [[.int 1]]⟩) (str "insert")),
    .statement .commitTransaction]

theorem insertBlock_sound : (serve insertBlock (create Disk.empty 0 0)).dir.commits = [3] ∧
    (∀ r, DiskEvent.append r ∈ (serve insertBlock (create Disk.empty 0 0)).dir.journal →
      r.op = WalOp.xactCommit.toTag →
      (serve insertBlock (create Disk.empty 0 0)).txnMgr.clog.getStatus r.xid = .committed) :=
  ⟨by decide +kernel, (commit_records_sound (opened_create Disk.empty 0 0) insertBlock).1⟩

end JiaMiaoDB
