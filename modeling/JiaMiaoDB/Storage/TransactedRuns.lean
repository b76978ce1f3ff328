import JiaMiaoDB.Storage.Effects
import JiaMiaoDB.Storage.ManagerEffects
import JiaMiaoDB.Storage.ManagerFrame
import JiaMiaoDB.Storage.WalSequence

/-!
# Runs in which transactions change the rows

A run starts on an empty directory and drops no table, and every row comes and goes with a
transaction. Then no row has two versions, row ids are never handed out twice, and what the active
transactions, the commit log and the snapshot say of an id fits together.
-/

set_option autoImplicit false

namespace JiaMiaoDB
open StorageEngine

/-- The calls of such a run. -/
def Call.Transacts : Call → Prop
  | .txn p => ∃ c : ManagerCall, c.online = true ∧ p = c.run
  | .dropDatabase _ | .dropTable _ | .insert .. | .update .. | .remove .. => False
  | _ => True

def Session.Transactional (_ : Session) : Action → Prop
  | .call c => c.Transacts
  | .save => True
  | .close | .restart .. => False

/-! ### Row ids -/

/-- The row id has been handed out. -/
def HandedOut (rowIds : StrMap Int64) (q : Str) (id : Int64) : Prop :=
  ∃ last, rowIds[q]? = some last ∧ id ≤ last

/-- Every counter is still there and has not gone down. -/
def Grows (rowIds rowIds' : StrMap Int64) : Prop :=
  ∀ (q : Str) (last : Int64), rowIds[q]? = some last →
    ∃ last', rowIds'[q]? = some last' ∧ last ≤ last'

theorem Grows.refl (rowIds : StrMap Int64) : Grows rowIds rowIds :=
  fun _ last h => ⟨last, h, Int64.le_refl last⟩

theorem Grows.trans {a b c : StrMap Int64} (h : Grows a b) (h' : Grows b c) : Grows a c := by
  intro q last hq
  obtain ⟨last', hq', hle⟩ := h q last hq
  obtain ⟨last'', hq'', hle'⟩ := h' q last' hq'
  exact ⟨last'', hq'', Int64.le_trans hle hle'⟩

theorem HandedOut.grow {rowIds rowIds' : StrMap Int64} {q : Str} {id : Int64}
    (h : HandedOut rowIds q id) (hg : Grows rowIds rowIds') : HandedOut rowIds' q id := by
  obtain ⟨last, hq, hle⟩ := h
  obtain ⟨last', hq', hle'⟩ := hg q last hq
  exact ⟨last', hq', Int64.le_trans hle hle'⟩

namespace TransactionManager

/-! ### The manager -/

theorem oldest_le {m : TransactionManager} {x : TransactionId} (h : x ∈ m.activeXids) :
    m.getOldestActiveXid ≤ x := by
  have hmem := Std.ExtTreeSet.mem_toList.mpr h
  have hsorted := Std.ExtTreeSet.ordered_toList (t := m.activeXids)
  unfold getOldestActiveXid
  cases hlist : m.activeXids.toList with
  | nil =>
    rw [hlist] at hmem
    cases hmem
  | cons y rest =>
    rw [hlist] at hmem hsorted
    rcases List.mem_cons.mp hmem with rfl | hx
    · exact UInt32.le_refl _
    · have hlt := List.rel_of_pairwise_cons hsorted hx
      exact UInt32.le_of_lt (Std.compare_eq_lt.mp hlt)

/-- The active transactions are open, the current one is active, no special id has an outcome, and
what a snapshot that is held lists as active has not committed. -/
structure Settled (m : TransactionManager) : Prop where
  next : FirstNormalTransactionId ≤ m.nextXid
  active : ∀ x ∈ m.activeXids, FirstNormalTransactionId ≤ x ∧ m.clog.getStatus x = .inProgress
  context : m.context.xid = InvalidTransactionId ∨ m.context.xid ∈ m.activeXids
  special : ∀ x, x < FirstNormalTransactionId → m.clog.getStatus x = .inProgress
  held : m.context.hasSnapshot = true →
    ∀ x ∈ m.context.snapshot.xip, m.clog.getStatus x ≠ .committed

section Settled
variable {m m' : TransactionManager}

theorem settled_initial : Settled initial where
  next := UInt32.le_refl _
  active x hx := by simp [initial] at hx
  context := .inl rfl
  special x hx := by simp [initial, CLog.getStatus, CLog.empty]
  held h := by simp [initial, TransactionContext.initial] at h

/-- The invariant looks at the view only. -/
theorem Settled.congr (h : Settled m) (hv : m'.view = m.view) : Settled m' := by
  have hnext : m'.nextXid = m.nextXid := congrArg XidView.nextXid hv
  have hactive : m'.activeXids = m.activeXids := congrArg XidView.activeXids hv
  have hclog : m'.clog = m.clog := congrArg XidView.clog hv
  have hxid : m'.context.xid = m.context.xid := congrArg XidView.xid hv
  have hhas : m'.context.hasSnapshot = m.context.hasSnapshot := congrArg XidView.hasSnapshot hv
  have hsnap : m'.context.snapshot = m.context.snapshot := congrArg XidView.snapshot hv
  constructor
  · rw [hnext]
    exact h.next
  · rw [hactive, hclog]
    exact h.active
  · rw [hxid, hactive]
    exact h.context
  · rw [hclog]
    exact h.special
  · rw [hhas, hsnap, hclog]
    exact h.held

theorem Settled.finish (h : Settled m) (status : TransactionStatus)
    (hxid : m.context.xid ≠ InvalidTransactionId) : Settled (m.finish m.context.xid status) := by
  have hmem := h.context.resolve_left hxid
  refine ⟨h.next, fun x hx => ?_, .inl rfl, fun x hx => ?_, fun hheld => by cases hheld⟩
  · obtain ⟨hne, hx⟩ := Std.ExtTreeSet.mem_erase.mp hx
    have hne : m.context.xid ≠ x := by simpa using hne
    refine ⟨(h.active x hx).1, ?_⟩
    exact (CLog.getStatus_setStatus_of_ne _ _ hne).trans (h.active x hx).2
  · have hne : m.context.xid ≠ x := fun he =>
      absurd (he ▸ (h.active _ hmem).1) (UInt32.not_le.mpr hx)
    exact (CLog.getStatus_setStatus_of_ne _ _ hne).trans (h.special x hx)

theorem Settled.giveUp (h : Settled m) {c : CLog} (hc : m.GivesUp c) :
    Settled { m with clog := c } where
  next := h.next
  active x hx := by
    refine ⟨(h.active x hx).1, ?_⟩
    rcases hc x with hx' | ⟨-, hold, -, -⟩
    · exact hx'.trans (h.active x hx).2
    · exact absurd (oldest_le hx) (UInt32.not_le.mpr hold)
  context := h.context
  special x hx := by
    rcases hc x with hx' | ⟨hnormal, -⟩
    · exact hx'.trans (h.special x hx)
    · exact absurd hnormal (UInt32.not_le.mpr hx)
  held hheld x hx := by
    rcases hc x with hx' | ⟨-, -, -, hx'⟩
    · exact hx' ▸ h.held hheld x hx
    · rw [hx']
      exact TransactionStatus.noConfusion

theorem Settled.assign (h : Settled m) {c : CLog} (hc : m.GivesUp c)
    (hstop : m.nextXid.toNat < XIDEmergencyStop) : Settled (m.assign c) := by
  have h' := h.giveUp hc
  refine ⟨UInt32.le_trans h.next (UInt32.le_of_lt (lt_nextXid_succ hstop)), fun x hx => ?_,
    .inr ?_, fun x hx => ?_, fun hheld x hx => ?_⟩
  · change x ∈ m.activeXids.insert m.nextXid at hx
    change _ ∧ (c.setStatus m.nextXid .inProgress).getStatus x = _
    rw [CLog.getStatus_setStatus]
    rw [Std.ExtTreeSet.mem_insert, Std.LawfulEqCmp.compare_eq_iff_eq] at hx
    rcases hx with rfl | hx
    · exact ⟨h.next, if_pos rfl⟩
    · refine ⟨(h.active x hx).1, ?_⟩
      split
      · rfl
      · exact (h'.active x hx).2
  · exact Std.ExtTreeSet.mem_insert_self
  · change (c.setStatus m.nextXid .inProgress).getStatus x = _
    rw [CLog.getStatus_setStatus]
    split
    · rfl
    · exact h'.special x hx
  · change (c.setStatus m.nextXid .inProgress).getStatus x ≠ _
    rw [CLog.getStatus_setStatus]
    split
    · exact TransactionStatus.noConfusion
    · exact h'.held hheld x hx

theorem Settled.effect (h : Settled m) (he : Effect m m') : Settled m' := by
  cases he with
  | same hv => exact h.congr hv
  | clear hv =>
    have hclear : Settled (m.setContext (finishContext m.context)) :=
      ⟨h.next, h.active, .inl rfl, h.special, fun hheld => by cases hheld⟩
    exact hclear.congr hv
  | finish status _ hxid hv => exact (h.finish status hxid).congr hv
  | finishEmpty hxid hv =>
    have hempty : Settled ({ m with
        activeXids := m.activeXids.erase InvalidTransactionId }.setContext
          (finishContext m.context)) := by
      refine ⟨h.next, fun x hx => ?_, .inl rfl, h.special, fun hheld => by cases hheld⟩
      exact h.active x (Std.ExtTreeSet.mem_erase.mp hx).2
    exact hempty.congr hv
  | giveUp c hc hv => exact (h.giveUp hc).congr hv
  | assign c hc hstop _ hv => exact (h.assign hc hstop).congr hv
  | snapshot _ hv =>
    have hsnapshot : Settled (m.setContext { m.context with
        snapshot := m.getSnapshot, hasSnapshot := true }) := by
      refine ⟨h.next, h.active, h.context, h.special, fun _ x hx => ?_⟩
      change m.clog.getStatus x ≠ .committed
      rw [(h.active x (Std.ExtTreeSet.mem_toList.mp hx)).2]
      exact TransactionStatus.noConfusion
    exact hsnapshot.congr hv

theorem settled_of_affects {α : Type} {p : TxnM α} (hp : Affects p) : Prog.Keeps Settled p := by
  intro m h
  have hm := h.effect (hp m)
  unfold Prog.wp
  rcases hrun : p.run m with ⟨f | a, m'⟩ <;> rw [hrun] at hm <;> exact hm

theorem managerInvariant_settled : ManagerInvariant Settled where
  assignXid := settled_of_affects affects_assignXid
  registerSiread m key h := h.congr (m.view_registerSiread key)
  registerWrite m key h := h.congr (m.view_registerWrite key)
  addUndoRecord _ _ h := ⟨h.next, h.active, h.context, h.special, h.held⟩
  maybeAntiWraparound m h := by
    obtain ⟨c, hm, hc⟩ := m.exists_maybeAntiWraparound
    rw [hm]
    exact h.giveUp hc

end Settled

/-! ### Undo records -/

/-- The rows of the undo records have ids that were handed out. -/
def Undoable (rowIds : StrMap Int64) (m : TransactionManager) : Prop :=
  ∀ r ∈ m.context.undoRecords, HandedOut rowIds r.tableName r.rowId

section Undo
variable {rowIds : StrMap Int64} {m m' : TransactionManager}

theorem Undoable.congr (h : Undoable rowIds m)
    (hv : m'.context.undoRecords = m.context.undoRecords) : Undoable rowIds m' := by
  unfold Undoable
  rw [hv]
  exact h

theorem undoable_nil (h : m.context.undoRecords = []) : Undoable rowIds m := by
  intro r hr
  rw [h] at hr
  cases hr

theorem Undoable.effect (h : Undoable rowIds m) (he : Effect m m') : Undoable rowIds m' := by
  cases he with
  | same hv => exact h.congr (congrArg XidView.undoRecords hv)
  | clear hv => exact undoable_nil (congrArg XidView.undoRecords hv)
  | finish _ _ _ hv => exact undoable_nil (congrArg XidView.undoRecords hv)
  | finishEmpty _ hv => exact undoable_nil (congrArg XidView.undoRecords hv)
  | giveUp _ _ hv => exact h.congr (congrArg XidView.undoRecords hv)
  | assign _ _ _ _ hv => exact h.congr (congrArg XidView.undoRecords hv)
  | snapshot _ hv => exact h.congr (congrArg XidView.undoRecords hv)

theorem undoable_of_affects {α : Type} {p : TxnM α} (hp : Affects p) :
    Prog.Keeps (Undoable rowIds) p := by
  intro m h
  have hm := h.effect (hp m)
  unfold Prog.wp
  rcases hrun : p.run m with ⟨f | a, m'⟩ <;> rw [hrun] at hm <;> exact hm

theorem Undoable.addUndoRecord (h : Undoable rowIds m) {r : UndoRecord}
    (hr : HandedOut rowIds r.tableName r.rowId) : Undoable rowIds (m.addUndoRecord r) := by
  intro r' hr'
  rcases List.mem_append.mp hr' with hr' | hr'
  · exact h r' hr'
  · rw [List.mem_singleton.mp hr']
    exact hr

end Undo
end TransactionManager

open TransactionManager

namespace StorageEngine

/-! ### The engine -/

/-- The tables are under qualified names, the counters go on from `rowIds`, every row has one version,
and all row ids in use have been handed out. `P` is what the tables satisfy in the middle of a statement. -/
structure Orderly (P : StrMap MemTable → Prop) (rowIds : StrMap Int64) (e : StorageEngine) :
    Prop where
  phase : P e.data
  qualified : ∀ q, q ∈ e.data → (46 : UInt8) ∈ q
  grown : Grows rowIds e.rowIds
  known : ∀ q, q ∈ e.rowIds → q ∈ e.tables
  single : ∀ (q : Str) (m : MemTable), e.data[q]? = some m → m.SingleVersion
  stored : ∀ (q : Str) (m : MemTable), e.data[q]? = some m →
    ∀ t ∈ m.scanAll, HandedOut e.rowIds q t.hdr.rowId.toInt64
  undo : Undoable e.rowIds e.txnMgr

/-- Between statements. -/
def Rest : StrMap MemTable → Prop := fun _ => True

/-- No version of the row is stored. -/
def Cleared (q : Str) (id : Int64) (data : StrMap MemTable) : Prop :=
  ∀ m, data[q]? = some m → MemTable.SingleVersion.Fresh m id

section Orderly
variable {P : StrMap MemTable → Prop} {rowIds rowIds' : StrMap Int64} {e e' : StorageEngine}
  {q : Str} {id : Int64}

theorem Orderly.rest (h : Orderly P rowIds e) : Orderly Rest rowIds e :=
  ⟨trivial, h.qualified, h.grown, h.known, h.single, h.stored, h.undo⟩

theorem Orderly.self (h : Orderly P rowIds e) : Orderly P e.rowIds e :=
  ⟨h.phase, h.qualified, Grows.refl _, h.known, h.single, h.stored, h.undo⟩

theorem Orderly.weaken (h : Orderly P rowIds' e) (hg : Grows rowIds rowIds') :
    Orderly P rowIds e :=
  ⟨h.phase, h.qualified, hg.trans h.grown, h.known, h.single, h.stored, h.undo⟩

/-- What is left to do may use the row ids that are there now. -/
theorem Orderly.raise {α : Type} {p : EngineM α} (h : Orderly Rest rowIds e)
    (hp : Prog.Keeps (Orderly Rest e.rowIds) p) :
    p.wp (fun _ => Orderly Rest rowIds) (fun _ => Orderly Rest rowIds) e :=
  Prog.wp_mono (hp e h.self) (fun _ _ h' => h'.weaken h.grown) fun _ _ h' => h'.weaken h.grown

theorem Orderly.congr (h : Orderly P rowIds e) (hdata : e'.data = e.data)
    (hids : e'.rowIds = e.rowIds) (hm : e'.txnMgr = e.txnMgr)
    (htables : ∀ q, q ∈ e.tables → q ∈ e'.tables) : Orderly P rowIds e' := by
  constructor
  · rw [hdata]
    exact h.phase
  · rw [hdata]
    exact h.qualified
  · rw [hids]
    exact h.grown
  · rw [hids]
    exact fun q hq => htables q (h.known q hq)
  · rw [hdata]
    exact h.single
  · rw [hdata, hids]
    exact h.stored
  · rw [hids, hm]
    exact h.undo

theorem orderly_frame {f : StorageEngine → StorageEngine}
    (hf : ∀ e : StorageEngine, (f e).data = e.data ∧ (f e).rowIds = e.rowIds ∧
      (f e).txnMgr = e.txnMgr ∧ ∀ q, q ∈ e.tables → q ∈ (f e).tables) :
    Prog.Keeps (ε := Failure) (Orderly P rowIds) (Prog.modify f) :=
  Prog.Keeps.modify fun e h => h.congr (hf e).1 (hf e).2.1 (hf e).2.2.1 (hf e).2.2.2

theorem orderly_inTxn {α : Type} {p : TxnM α} (hp : ∀ rowIds, Prog.Keeps (Undoable rowIds) p) :
    Prog.Keeps (Orderly P rowIds) (inTxn p) := by
  intro e h
  rw [inTxn, Prog.wp_zoom]
  exact Prog.wp_mono (hp _ e.txnMgr h.undo)
    (fun _ _ hm => ⟨h.phase, h.qualified, h.grown, h.known, h.single, h.stored, hm⟩)
    fun _ _ hm => ⟨h.phase, h.qualified, h.grown, h.known, h.single, h.stored, hm⟩

theorem orderly_inCatalog {α : Type} (p : CatalogM α) :
    Prog.Keeps (Orderly P rowIds) (inCatalog p) := by
  intro e h
  rw [inCatalog, Prog.wp_zoom]
  exact Prog.wp_mono (Prog.wp_true p) (fun _ _ _ => h.congr rfl rfl rfl fun _ hq => hq)
    fun _ _ _ => h.congr rfl rfl rfl fun _ hq => hq

theorem orderly_nextSeq : Prog.Keeps (Orderly P rowIds) nextSeq := by
  refine Prog.Keeps.get_bind fun e h => ?_
  split
  · exact h
  · exact h.congr rfl rfl rfl fun _ hq => hq

theorem orderly_writeWal (op : WalOp) (table : Str) (payload : Bytes) (xid : TransactionId) :
    Prog.Keeps (Orderly P rowIds) (writeWal op table payload xid) :=
  orderly_nextSeq.bind fun _ => orderly_frame fun _ => ⟨rfl, rfl, rfl, fun _ hq => hq⟩

theorem orderly_setRowCount (q : Str) :
    Prog.Keeps (ε := Failure) (Orderly P rowIds) (Prog.modify (setRowCount q)) := by
  refine orderly_frame fun e => ?_
  rw [setRowCount]
  split
  · exact ⟨rfl, rfl, rfl, fun q' hq' => Std.ExtTreeMap.mem_insert.mpr (.inr hq')⟩
  · exact ⟨rfl, rfl, rfl, fun _ hq => hq⟩

theorem orderly_updateIndexes (q : Str) (id : Int64) (row : Row) :
    Prog.Keeps (ε := Failure) (Orderly P rowIds) (Prog.modify (updateIndexes q id row)) := by
  refine orderly_frame fun e => ?_
  rw [updateIndexes]
  split <;> exact ⟨rfl, rfl, rfl, fun _ hq => hq⟩

theorem orderly_rebuildIndexes (q : Str) : Prog.Keeps (Orderly P rowIds) (rebuildIndexes q) := by
  refine Prog.Keeps.get_bind fun e h => ?_
  split
  · rw [Prog.wp_bind, Prog.wp_set]
    exact Prog.Keeps.ofExcept _ _ (h.congr rfl rfl rfl fun _ hq => hq)
  · exact h

theorem orderly_rebuildIf (affected : Bool) (q : Str) :
    Prog.Keeps (Orderly P rowIds) (rebuildIf affected q) :=
  Prog.Keeps.ite (fun _ => orderly_rebuildIndexes q) fun _ => Prog.Keeps.pure ()

theorem orderly_createIndex (table column : Str) :
    Prog.Keeps (Orderly P rowIds) (createIndex table column) := by
  refine Prog.Keeps.get_bind fun e h => ?_
  dsimp only
  split
  · exact h
  · split
    · exact h
    · split
      · exact h.congr rfl rfl rfl fun _ hq => hq
      · split
        · exact h.congr rfl rfl rfl fun _ hq => hq
        · exact h

theorem orderly_checkpoint : Prog.Keeps (Orderly P rowIds) checkpoint := by
  refine Prog.Keeps.get_bind fun e h => ?_
  rw [Prog.wp_bind, Prog.wp_ofExcept]
  exact ⟨fun _ _ => h.congr rfl rfl rfl fun _ hq => hq, fun _ _ => h⟩

theorem orderly_thenCheckpoint {α : Type} {p : EngineM α} (hp : Prog.Keeps (Orderly P rowIds) p) :
    Prog.Keeps (Orderly P rowIds) (thenCheckpoint p) :=
  hp.bind fun _ => (Prog.Keeps.get.bind fun _ =>
    Prog.Keeps.ite (fun _ => orderly_checkpoint) fun _ => Prog.Keeps.pure _).bind fun _ =>
      Prog.Keeps.pure _

/-! ### Versions -/

/-- The table under one name changes. -/
theorem Orderly.setData {P' : StrMap MemTable → Prop} (h : Orderly P rowIds e) {m₀ m : MemTable}
    (hm₀ : e.data[q]? = some m₀) (hphase : P' (e.data.insert q m)) (hsingle : m.SingleVersion)
    (hstored : ∀ t ∈ m.scanAll, HandedOut e.rowIds q t.hdr.rowId.toInt64) {n : Int64} :
    Orderly P' rowIds { e with walSeq := n, data := e.data.insert q m } := by
  refine ⟨hphase, fun q' hq' => ?_, h.grown, h.known, fun q' m' hq' => ?_, fun q' m' hq' => ?_,
    h.undo⟩
  · rcases Std.ExtTreeMap.mem_insert.mp hq' with hq' | hq'
    · obtain rfl := Std.LawfulEqOrd.eq_of_compare hq'
      refine h.qualified q (Std.ExtTreeMap.mem_iff_isSome_getElem?.mpr ?_)
      rw [hm₀]
      rfl
    · exact h.qualified q' hq'
  · rw [Std.ExtTreeMap.getElem?_insert] at hq'
    split at hq'
    · cases hq'
      exact hsingle
    · exact h.single q' m' hq'
  · rw [Std.ExtTreeMap.getElem?_insert] at hq'
    split at hq'
    · rename_i hqq
      obtain rfl := Std.LawfulEqOrd.eq_of_compare hqq
      cases hq'
      exact hstored
    · exact h.stored q' m' hq'

theorem wp_eraseVersions_orderly (h : Orderly P rowIds e) (q : Str) (id : Int64) :
    (eraseVersions q id).wp (fun _ => Orderly (Cleared q id) rowIds)
      (fun _ => Orderly Rest rowIds) e := by
  cases hm : e.data[q]? with
  | none =>
    have hrun : (eraseVersions q id).run e = (.ok (), e) := by
      rw [eraseVersions, Prog.run_modify, modifyTable, hm]
    refine Prog.wp_of_ok hrun ⟨fun m hm' => ?_, h.qualified, h.grown, h.known, h.single,
      h.stored, h.undo⟩
    rw [hm] at hm'
    cases hm'
  | some m =>
    have hsingle := h.single q m hm
    refine wp_eraseVersions hm (h.setData hm (fun m' hm' => ?_) (hsingle.eraseAllFor id) fun t ht => ?_)
    · rw [Std.ExtTreeMap.getElem?_insert_self] at hm'
      cases hm'
      exact hsingle.fresh_eraseAllFor id
    · exact h.stored q m hm t (hsingle.mem_eraseAllFor.mp ht).1

theorem wp_putVersion_orderly (h : Orderly (Cleared q id) rowIds e) (hid : HandedOut rowIds q id)
    (row : Row) :
    (putVersion q id row).wp (fun _ => Orderly Rest rowIds) (fun _ => Orderly Rest rowIds) e := by
  cases hm : e.data[q]? with
  | none =>
    rw [putVersion, Prog.wp_bind, Prog.wp_ofExcept]
    refine ⟨fun t _ => ?_, fun _ _ => h.rest⟩
    rw [Prog.wp_bind, nextSeq, Prog.wp_bind, Prog.wp_get]
    split
    · exact h.rest
    · have hframe : modifyTable q (·.put id t (e.walSeq + 1).toUInt64)
          { e with walSeq := e.walSeq + 1 } = { e with walSeq := e.walSeq + 1 } := by
        rw [modifyTable, hm]
      rw [Prog.wp_bind, Prog.wp_set, Prog.wp_pure, Prog.wp_modify, hframe]
      exact h.rest.congr rfl rfl rfl fun _ hq => hq
  | some m =>
    have hsingle := h.single q m hm
    have hfresh := h.phase m hm
    refine wp_putVersion hm (fun _ => h.rest) fun t ht _ => ?_
    have hrow : t.hdr.rowId.toInt64 = id := by
      obtain ⟨bs, -, ht⟩ := ExceptList.bind_ok_iff.mp ht
      cases ht
      exact Int64.toInt64_toUInt64 id
    refine h.setData hm trivial (hsingle.put _ hfresh hrow) fun t' ht' => ?_
    rcases (hsingle.mem_put hfresh).mp ht' with rfl | ht'
    · exact (congrArg (HandedOut e.rowIds q) hrow).mpr (hid.grow h.grown)
    · exact h.stored q m hm t' ht'

/-- The versions of the row are replaced by a new one. -/
theorem orderly_replace (hid : HandedOut rowIds q id) (row : Row) {p : EngineM Unit}
    (hp : Prog.Keeps (Orderly Rest rowIds) p) : Prog.Keeps (Orderly Rest rowIds) (do
      eraseVersions q id
      putVersion q id row
      p) := by
  intro e h
  rw [Prog.wp_bind]
  refine Prog.wp_mono (wp_eraseVersions_orderly h q id) (fun _ e' h' => ?_) fun _ _ h' => h'
  rw [Prog.wp_bind]
  exact Prog.wp_mono (wp_putVersion_orderly h' hid row) (fun _ e'' h'' => hp e'' h'')
    fun _ _ h'' => h''

/-! ### Statements -/

/-- A new row id is greater than all before it. -/
theorem wp_nextRowId_orderly (h : Orderly Rest rowIds e) (hq : q ∈ e.tables) :
    (nextRowId q).wp (fun id e' => Orderly (Cleared q id) rowIds e' ∧ HandedOut e'.rowIds q id)
      (fun _ => Orderly Rest rowIds) e := by
  rw [nextRowId, Prog.wp_bind, Prog.wp_get]
  dsimp only
  split
  · exact h
  rename_i hmax
  rw [Prog.wp_bind, Prog.wp_set, Prog.wp_pure]
  have hlt := FixedWidth.lt_succ hmax
  have hlast {last : Int64} (h : e.rowIds[q]? = some last) : e.rowIds.getD q 0 = last := by
    rw [Std.ExtTreeMap.getD_eq_getD_getElem?, h]
    rfl
  have hgrows : Grows e.rowIds (e.rowIds.insert q (e.rowIds.getD q 0 + 1)) := by
    intro q' last hq'
    by_cases hqq : q = q'
    · subst hqq
      refine ⟨_, Std.ExtTreeMap.getElem?_insert_self, ?_⟩
      rw [← hlast hq']
      exact Int64.le_of_lt hlt
    · refine ⟨last, ?_, Int64.le_refl last⟩
      rw [Std.ExtTreeMap.getElem?_insert, if_neg (by simpa using hqq)]
      exact hq'
  refine ⟨⟨fun m hm t ht hid => ?_, h.qualified, h.grown.trans hgrows, fun q' hq' => ?_, h.single,
    fun q' m hm t ht => (h.stored q' m hm t ht).grow hgrows, fun r hr => (h.undo r hr).grow hgrows⟩,
    _, Std.ExtTreeMap.getElem?_insert_self, Int64.le_refl _⟩
  · obtain ⟨last, hq', hle⟩ := h.stored q m hm t ht
    rw [hid, ← hlast hq'] at hle
    exact absurd hlt (Int64.not_lt.mpr hle)
  · rcases Std.ExtTreeMap.mem_insert.mp hq' with hq' | hq'
    · rw [← Std.LawfulEqOrd.eq_of_compare hq']
      exact hq
    · exact h.known q' hq'

theorem orderly_registerWrite (key : RowKey) :
    Prog.Keeps (Orderly P rowIds) (inTxn (Prog.modify (·.registerWrite key))) :=
  orderly_inTxn fun _ => Prog.Keeps.modify fun m h =>
    h.congr (congrArg XidView.undoRecords (m.view_registerWrite key))

theorem orderly_checkUnique (q : Str) (columns : List ColumnDef) (row : Row) (r : Reader)
    (all : List Tuple) : Prog.Keeps (Orderly P rowIds) (inTxn (checkUnique q columns row r all)) :=
  orderly_inTxn fun _ => ManagerInvariant.keeps_checkUnique _ _ _ _ _ fun m key h =>
    h.congr (congrArg XidView.undoRecords (m.view_registerSiread key))

theorem orderly_checkUniqueUpdate (columns : List ColumnDef) (updates : Updates) (rowid : Int64)
    (r : Reader) (all : List Tuple) :
    Prog.Keeps (Orderly P rowIds) (inTxn (checkUniqueUpdate columns updates rowid r all)) :=
  orderly_inTxn fun _ => ManagerInvariant.keeps_checkUniqueUpdate _ _ _ _ _

theorem orderly_addUndoRecord {r : UndoRecord} (hr : HandedOut rowIds r.tableName r.rowId) :
    Prog.Keeps (Orderly P rowIds) (inTxn (Prog.modify (·.addUndoRecord r))) := by
  intro e h
  rw [inTxn, Prog.wp_zoom]
  exact ⟨h.phase, h.qualified, h.grown, h.known, h.single, h.stored,
    h.undo.addUndoRecord (hr.grow h.grown)⟩

theorem wp_storeInserted_orderly (h : Orderly (Cleared q id) rowIds e) (hid : HandedOut rowIds q id)
    (row : Row) (xid : TransactionId) : (storeInserted q id row xid).wp
      (fun _ => Orderly Rest rowIds) (fun _ => Orderly Rest rowIds) e := by
  rw [storeInserted, Prog.wp_bind]
  refine Prog.wp_mono (orderly_writeWal _ _ _ _ e h) (fun _ e' h' => ?_) fun _ _ h' => h'.rest
  rw [Prog.wp_bind]
  refine Prog.wp_mono (wp_putVersion_orderly h' hid row) (fun _ e'' h'' => ?_) fun _ _ h'' => h''
  exact ((orderly_updateIndexes _ _ _).bind fun _ => orderly_setRowCount _) e'' h''

/-- What `insert_with_txn` does with a row that has its id: up to the undo record no version of the
row is stored. -/
theorem wp_storeNew (h : Orderly (Cleared q id) rowIds e) (hid : HandedOut rowIds q id)
    (columns : List ColumnDef) (row : Row) : Prog.wp (do
      let xid ← inTxn TransactionManager.assignXid
      let e ← Prog.get
      let validated := stamp (row.insert (str "_rowid") (.int id)) xid 0 e.reader.cid
      let m ← Prog.ofExcept (e.dataAt q)
      inTxn (checkUnique q columns validated e.reader m.scanAll)
      inTxn (Prog.modify (·.addUndoRecord ⟨.insert, q, id, ∅, validated⟩))
      storeInserted q id validated xid
      pure validated) (fun _ => Orderly Rest rowIds) (fun _ => Orderly Rest rowIds) e := by
  have hassign : Prog.Keeps (Orderly (Cleared q id) rowIds) (inTxn assignXid) :=
    orderly_inTxn fun _ => undoable_of_affects affects_assignXid
  rw [Prog.wp_bind]
  refine Prog.wp_mono (hassign e h) (fun xid e₁ h₁ => ?_) fun _ _ h₁ => h₁.rest
  rw [Prog.wp_bind, Prog.wp_get, Prog.wp_bind, Prog.wp_ofExcept]
  refine ⟨fun m _ => ?_, fun _ _ => h₁.rest⟩
  rw [Prog.wp_bind]
  refine Prog.wp_mono (orderly_checkUnique _ _ _ _ _ e₁ h₁) (fun _ e₂ h₂ => ?_) fun _ _ h₂ => h₂.rest
  rw [Prog.wp_bind]
  refine Prog.wp_mono (orderly_addUndoRecord hid e₂ h₂) (fun _ e₃ h₃ => ?_) fun _ _ h₃ => h₃.rest
  rw [Prog.wp_bind]
  exact wp_storeInserted_orderly h₃ hid _ xid

theorem orderly_insertWithTxnBody (table : Str) (row : Row) :
    Prog.Keeps (Orderly Rest rowIds) (insertWithTxnBody table row) := by
  refine Prog.Keeps.get_bind fun e h => ?_
  dsimp only
  split
  · exact h
  rename_i schema hschema
  rw [Prog.wp_bind, Prog.wp_ofExcept]
  refine ⟨fun validated _ => ?_, fun _ _ => h⟩
  have hq : e.resolveTableName table ∈ e.tables := by
    rw [Std.ExtTreeMap.mem_iff_isSome_getElem?, hschema]
    rfl
  rw [Prog.wp_bind]
  refine Prog.wp_mono (wp_nextRowId_orderly h hq) (fun id e' h' => ?_) fun _ _ h' => h'
  obtain ⟨h', hid⟩ := h'
  have hrest := wp_storeNew h'.self hid schema.columns validated
  exact Prog.wp_mono hrest (fun _ _ h'' => h''.weaken h'.grown) fun _ _ h'' => h''.weaken h'.grown

theorem orderly_updateRowWithTxn (updates : Updates) (r : Reader) (all : List Tuple) {row : Row}
    (hid : ∀ id, getRowId row = .ok id → HandedOut rowIds q id) :
    Prog.Keeps (Orderly Rest rowIds) (updateRowWithTxn q updates r all row) := by
  intro e h
  rw [updateRowWithTxn, Prog.wp_bind, Prog.wp_ofExcept]
  refine ⟨fun id hrow => ?_, fun _ _ => h⟩
  refine ((orderly_registerWrite _).bind fun _ => Prog.Keeps.get.bind fun _ =>
    (orderly_checkUniqueUpdate _ _ _ _ _).bind fun _ =>
      (orderly_addUndoRecord (hid id hrow)).bind fun _ => (orderly_writeWal _ _ _ _).bind fun _ => ?_)
    e h
  have hreplace := orderly_replace (hid id hrow)
    (stamp (applyUpdates row updates) r.xid 0 r.cid) (Prog.Keeps.pure ())
  rwa [bind_pure] at hreplace

theorem orderly_removeRowWithTxn (r : Reader) {row : Row}
    (hid : ∀ id, getRowId row = .ok id → HandedOut rowIds q id) :
    Prog.Keeps (Orderly Rest rowIds) (removeRowWithTxn q r row) := by
  intro e h
  rw [removeRowWithTxn, Prog.wp_bind, Prog.wp_ofExcept]
  refine ⟨fun id hrow => ?_, fun _ _ => h⟩
  exact ((orderly_registerWrite _).bind fun _ => (orderly_addUndoRecord (hid id hrow)).bind fun _ =>
    orderly_replace (hid id hrow) _ (orderly_writeWal _ _ _ _)) e h

/-- A statement works on versions that were there when it began. -/
theorem orderly_onVisible {body : Row → EngineM Unit} {m : MemTable}
    (hm : ∀ t ∈ m.scanAll, HandedOut rowIds q t.hdr.rowId.toInt64)
    (hbody : ∀ row, (∀ id, getRowId row = .ok id → HandedOut rowIds q id) →
      Prog.Keeps (Orderly Rest rowIds) (body row))
    (r : Reader) (matches_ : Row → Bool) {t : Tuple} (ht : t ∈ m.scanAll) :
    Prog.Keeps (Orderly Rest rowIds) (onVisible r matches_ body t) := by
  intro e h
  rw [onVisible, Prog.wp_bind, Prog.wp_ofExcept]
  refine ⟨fun row hrow => ?_, fun _ _ => h⟩
  have hkeeps : Prog.Keeps (Orderly Rest rowIds) (body row) := by
    refine hbody row fun id hid => ?_
    rw [getRowId_of_toRow hrow] at hid
    cases hid
    exact hm t ht
  exact (Prog.Keeps.get.bind fun _ => Prog.Keeps.ite (fun _ => hkeeps.bind fun _ =>
    Prog.Keeps.pure _) fun _ => Prog.Keeps.pure _) e h

theorem orderly_scan {table : Str} {β : Type}
    {f : StorageEngine → MemTable → StorageEngine → EngineM β}
    (hf : ∀ e₀ m e₁ rowIds, (∀ t ∈ m.scanAll,
      HandedOut rowIds (e₀.resolveTableName table) t.hdr.rowId.toInt64) →
        Prog.Keeps (Orderly Rest rowIds) (f e₀ m e₁)) :
    Prog.Keeps (Orderly Rest rowIds) (do
      let e₀ ← Prog.get
      let m ← Prog.ofExcept (e₀.tableOf table)
      let _ ← inTxn TransactionManager.assignXid
      let e₁ ← Prog.get
      f e₀ m e₁) := by
  refine Prog.Keeps.get_bind fun e₀ h => ?_
  rw [Prog.wp_bind, Prog.wp_ofExcept]
  refine ⟨fun m hm => ?_, fun _ _ => h⟩
  have hstored := h.stored _ m (tableOf_eq_ok.mp hm)
  exact h.raise ((orderly_inTxn fun _ => undoable_of_affects affects_assignXid).bind fun _ =>
    Prog.Keeps.get.bind fun e₁ => hf e₀ m e₁ _ hstored)

theorem orderly_updateWithTxnBody (table : Str) (matches_ : Row → Bool) (updates : Updates) :
    Prog.Keeps (Orderly Rest rowIds) (updateWithTxnBody table matches_ updates) :=
  orderly_scan fun _ _ _ _ hm => (Prog.Keeps.sumEach fun _ ht => orderly_onVisible hm
    (fun _ hid => orderly_updateRowWithTxn _ _ _ hid) _ _ ht).bind fun _ =>
      (orderly_rebuildIf _ _).bind fun _ => Prog.Keeps.pure _

theorem orderly_removeWithTxnBody (table : Str) (matches_ : Row → Bool) :
    Prog.Keeps (Orderly Rest rowIds) (removeWithTxnBody table matches_) :=
  orderly_scan fun _ _ _ _ hm => Prog.Keeps.sumEach fun _ ht => orderly_onVisible hm
    (fun _ hid => orderly_removeRowWithTxn _ hid) _ _ ht

theorem orderly_applyUndoTo (count : Nat) :
    Prog.Keeps (Orderly Rest rowIds) (StorageEngine.applyUndoTo count) := by
  refine Prog.Keeps.get_bind fun e h => h.raise ?_
  refine (Prog.Keeps.forEach fun r hr => ?_).bind fun _ =>
    Prog.Keeps.forEach fun _ _ => orderly_rebuildIndexes _
  have hid : HandedOut e.rowIds r.tableName r.rowId :=
    h.undo r (List.mem_of_mem_drop (List.mem_reverse.mp hr))
  refine Prog.Keeps.get.bind fun e₁ => ?_
  split
  · exact Prog.Keeps.pure _
  · intro e₂ h₂
    rw [Prog.wp_bind]
    refine Prog.wp_mono (wp_eraseVersions_orderly h₂ _ _) (fun _ e₃ h₃ => ?_) fun _ _ h₃ => h₃
    rw [Prog.wp_ite]
    split
    · exact h₃.rest
    · exact wp_putVersion_orderly h₃ hid _

theorem orderly_vacuumTable (oldest : TransactionId) (q : Str) :
    Prog.Keeps (Orderly Rest rowIds) (vacuumTable oldest q) := by
  have herase (id : Int64) : Prog.Keeps (Orderly Rest rowIds) (eraseVersions q id) :=
    fun e h => Prog.wp_mono (wp_eraseVersions_orderly h q id) (fun _ _ h' => h'.rest)
      fun _ _ h' => h'
  have hfreeze (id : Int64) : Prog.Keeps (Orderly Rest rowIds) (freezeRow q id) := by
    refine Prog.Keeps.get_bind fun e h => ?_
    split
    · exact h
    · rename_i t ht
      obtain ⟨m, hm, ht⟩ := Option.bind_eq_some_iff.mp ht
      obtain ⟨hmem, rfl⟩ := (h.single q m hm).getLatest_eq_some.mp ht
      refine h.raise ((Prog.Keeps.ofExcept _).bind fun row => ?_)
      have hreplace := orderly_replace (h.stored q m hm t hmem)
        (row.insert (str "_xmin") (.int FrozenTransactionId.toUInt64.toInt64)) (Prog.Keeps.pure ())
      rwa [bind_pure] at hreplace
  refine Prog.Keeps.get.bind fun e => ?_
  split
  · exact Prog.Keeps.pure _
  · exact (Prog.Keeps.ofExcept _).bind fun _ =>
      (Prog.Keeps.forEach fun _ _ => herase _).bind fun _ =>
        (Prog.Keeps.forEach fun id _ => hfreeze id).bind fun _ =>
          (orderly_setRowCount _).bind fun _ => Prog.Keeps.get.bind fun _ =>
            (orderly_rebuildIf _ _).bind fun _ => Prog.Keeps.pure _

theorem orderly_catalogBody (call : CatalogM Unit) (op : WalOp) (name : Str) (payload : Bytes) :
    Prog.Keeps (Orderly Rest rowIds) (catalogBody call op name payload) :=
  (orderly_inCatalog _).bind fun _ => orderly_writeWal _ _ _ _

/-- The new table has a counter of its own. -/
theorem Orderly.resetTable (h : Orderly Rest rowIds e) (hdot : (46 : UInt8) ∈ q)
    (hq : q ∉ e.tables) (columns : List ColumnDef) : Orderly Rest rowIds (resetTable q columns e) := by
  have hids : e.rowIds[q]? = none :=
    Std.ExtTreeMap.getElem?_eq_none fun hmem => hq (h.known q hmem)
  have hgrows : Grows e.rowIds (e.rowIds.insert q 0) := by
    intro q' last hq'
    refine ⟨last, ?_, Int64.le_refl last⟩
    rw [Std.ExtTreeMap.getElem?_insert, if_neg]
    · exact hq'
    · intro he
      rw [← Std.LawfulEqOrd.eq_of_compare he, hids] at hq'
      cases hq'
  refine ⟨trivial, fun q' hq' => ?_, h.grown.trans hgrows, fun q' hq' => ?_, fun q' m hm => ?_,
    fun q' m hm t ht => ?_, fun r hr => (h.undo r hr).grow hgrows⟩
  · rcases Std.ExtTreeMap.mem_insert.mp hq' with hq' | hq'
    · exact Std.LawfulEqOrd.eq_of_compare hq' ▸ hdot
    · exact h.qualified q' hq'
  · rcases Std.ExtTreeMap.mem_insert.mp hq' with hq' | hq'
    · exact Std.ExtTreeMap.mem_insert.mpr (.inl hq')
    · exact Std.ExtTreeMap.mem_insert.mpr (.inr (h.known q' hq'))
  · change (e.data.insert q (MemTable.create q))[q']? = some m at hm
    rw [Std.ExtTreeMap.getElem?_insert] at hm
    split at hm
    · cases hm
      exact MemTable.SingleVersion.create q
    · exact h.single q' m hm
  · change (e.data.insert q (MemTable.create q))[q']? = some m at hm
    rw [Std.ExtTreeMap.getElem?_insert] at hm
    split at hm
    · cases hm
      simp at ht
    · exact (h.stored q' m hm t ht).grow hgrows

theorem orderly_createTableBody (name : Str) (columns : List ColumnDef) :
    Prog.Keeps (Orderly Rest rowIds) (createTableBody name columns) := by
  refine Prog.Keeps.get_bind fun e h => ?_
  dsimp only
  rw [Prog.wp_ite]
  split
  · exact h
  rename_i hq
  have hkeys : Prog.Keeps (Orderly Rest rowIds)
      (createKeyIndexes (e.resolveTableName name) columns) :=
    Prog.Keeps.forEach fun _ _ => Prog.Keeps.ite (fun _ => orderly_createIndex _ _) fun _ =>
      Prog.Keeps.pure _
  have hnew : e.resolveTableName name ∉ e.tables := by simpa using hq
  rw [Prog.wp_bind]
  refine wp_writeWal (fun _ => h) fun dir wal _ => ?_
  have hlogged : Orderly Rest rowIds { e with walSeq := e.walSeq + 1, dir := dir, wal := wal } :=
    h.congr rfl rfl rfl fun _ hq => hq
  exact hkeys _ (hlogged.resetTable (dot_mem_resolveTableName e name) hnew columns)

end Orderly

/-! ### Runs -/

/-- What holds after every action of such a run. -/
structure Sound (e : StorageEngine) : Prop where
  manager : Settled e.txnMgr
  tables : Orderly Rest ∅ e

theorem sound_create (d : Disk) (checkpointInterval : Int32) (clock : Int64) :
    Sound (create d checkpointInterval clock) where
  manager := settled_initial
  tables := by
    refine ⟨trivial, fun q hq => ?_, fun q last hq => ?_, fun q hq => ?_, fun q m hm => ?_,
      fun q m hm => ?_, undoable_nil rfl⟩
    · exact absurd hq Std.ExtTreeMap.not_mem_empty
    · rw [Std.ExtTreeMap.getElem?_empty] at hq
      cases hq
    · exact absurd hq Std.ExtTreeMap.not_mem_empty
    · rw [create, Std.ExtTreeMap.getElem?_empty] at hm
      cases hm
    · rw [create, Std.ExtTreeMap.getElem?_empty] at hm
      cases hm

theorem orderly_body {rowIds : StrMap Int64} {c : Call} (hc : c.Transacts) :
    Prog.Keeps (Orderly Rest rowIds) c.body := by
  have discard {α : Type} {p : EngineM α} (hp : Prog.Keeps (Orderly Rest rowIds) p) :
      Prog.Keeps (Orderly Rest rowIds) (Call.discard p) := hp.bind fun _ => Prog.Keeps.pure _
  cases c with
  | createDatabase name => exact orderly_catalogBody _ _ _ _
  | dropDatabase name => exact hc.elim
  | createSchema dbName schemaName => exact orderly_catalogBody _ _ _ _
  | createUser name password salt => exact orderly_catalogBody _ _ _ _
  | dropUser name => exact orderly_catalogBody _ _ _ _
  | setCurrentDb name => exact orderly_inCatalog (Catalog.setCurrentDatabase name)
  | createTable name columns => exact orderly_createTableBody name columns
  | dropTable name => exact hc.elim
  | createIndex table column => exact orderly_createIndex table column
  | insert table row => exact hc.elim
  | update table matches_ updates => exact hc.elim
  | remove table matches_ => exact hc.elim
  | insertWithTxn table row => exact discard (orderly_insertWithTxnBody _ _)
  | updateWithTxn table matches_ updates => exact discard (orderly_updateWithTxnBody _ _ _)
  | removeWithTxn table matches_ => exact discard (orderly_removeWithTxnBody _ _)
  | applyUndo => exact Prog.Keeps.get.bind fun _ => orderly_applyUndoTo _
  | applyUndoTo count => exact orderly_applyUndoTo count
  | writeXactCommit xid => exact orderly_writeWal _ _ _ _
  | writeXactAbort xid => exact orderly_writeWal _ _ _ _
  | vacuum =>
    have hguard : Prog.Keeps (Orderly Rest rowIds)
        (inTxn (Prog.modify TransactionManager.maybeAntiWraparound)) :=
      orderly_inTxn fun _ => undoable_of_affects
        (ManagerCall.affects_run (c := .maybeAntiWraparound) rfl)
    exact discard (Prog.Keeps.get.bind fun _ =>
      (Prog.Keeps.sumEach fun _ _ => orderly_vacuumTable _ _).bind fun _ =>
        hguard.bind fun _ => Prog.Keeps.pure _)
  | txn p =>
    obtain ⟨c, honline, rfl⟩ := hc
    exact orderly_inTxn fun _ => undoable_of_affects (ManagerCall.affects_run honline)
  | setClock clock => exact orderly_frame fun _ => ⟨rfl, rfl, rfl, fun _ hq => hq⟩

theorem sound_exec {e : StorageEngine} {c : Call} (hc : c.Transacts) (h : Sound e) :
    Sound (c.exec.run e).2 := by
  constructor
  · refine (managerInvariant_settled.keeps_exec c fun p hp => ?_).final h.manager
    subst hp
    obtain ⟨c, honline, rfl⟩ := hc
    exact settled_of_affects (ManagerCall.affects_run honline)
  · have hexec : Prog.Keeps (Orderly Rest ∅) c.exec := by
      rw [Call.exec_eq]
      exact Prog.Keeps.ite (fun _ => orderly_thenCheckpoint (orderly_body hc)) fun _ =>
        orderly_body hc
    exact hexec.final h.tables

theorem sound_of_reached {s : Session} (h : Session.Reached Session.Transactional s) :
    Sound s.engine := by
  refine h.engine (fun _ _ => sound_create _ _ _) fun s a e ha ih hs => ?_
  cases a with
  | call c =>
    subst hs
    exact sound_exec ha ih
  | save =>
    subst hs
    exact ⟨ManagerInvariant.keeps_checkpoint.final ih.manager, orderly_checkpoint.final ih.tables⟩
  | close => exact ha.elim
  | restart k n checkpointInterval clock => exact ha.elim

end StorageEngine
end JiaMiaoDB
