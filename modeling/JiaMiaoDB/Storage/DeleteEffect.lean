import JiaMiaoDB.Storage.ManagerEffects
import JiaMiaoDB.Storage.ManagerFrame
import JiaMiaoDB.Storage.SeenVersions
import JiaMiaoDB.Storage.XidReuse

/-!
# What a committed delete hides

`remove_with_txn` puts its own id into `_xmax` of the versions that it deletes. A version without
an inserter is visible before `_xmax` is read, so the mark does not hide it.
-/

set_option autoImplicit false

namespace JiaMiaoDB
open StorageEngine BinaryRowCodec

namespace TransactionManager

/-! ### Ids of the context -/

/-- The next id is at least `n`, and the context has no id, the id `xid`, or one handed out from `n`
on. -/
structure Issued (xid n : TransactionId) (m : TransactionManager) : Prop where
  next : n ≤ m.nextXid
  context : m.context.xid = InvalidTransactionId ∨ m.context.xid = xid ∨
    n ≤ m.context.xid ∧ m.context.xid < m.nextXid ∧ m.context.xid.toNat < XIDEmergencyStop

section Issued
variable {xid n : TransactionId} {m m' : TransactionManager}

theorem Issued.congr (h : Issued xid n m) (hnext : m'.nextXid = m.nextXid)
    (hxid : m'.context.xid = m.context.xid) : Issued xid n m' := by
  constructor
  · rw [hnext]
    exact h.next
  · rw [hnext, hxid]
    exact h.context

theorem Issued.clear (h : Issued xid n m) (hnext : m'.nextXid = m.nextXid)
    (hxid : m'.context.xid = InvalidTransactionId) : Issued xid n m' :=
  ⟨by rw [hnext]; exact h.next, .inl hxid⟩

theorem Issued.effect (h : Issued xid n m) (he : Effect m m') : Issued xid n m' := by
  cases he with
  | same hv => exact h.congr (congrArg XidView.nextXid hv) (congrArg XidView.xid hv)
  | clear hv => exact h.clear (congrArg XidView.nextXid hv) (congrArg XidView.xid hv)
  | finish status _ _ hv => exact h.clear (congrArg XidView.nextXid hv) (congrArg XidView.xid hv)
  | finishEmpty _ hv => exact h.clear (congrArg XidView.nextXid hv) (congrArg XidView.xid hv)
  | giveUp c _ hv => exact h.congr (congrArg XidView.nextXid hv) (congrArg XidView.xid hv)
  | assign c _ hstop _ hv =>
    have hnext : m'.nextXid = m.nextXid + 1 := congrArg XidView.nextXid hv
    have hxid : m'.context.xid = m.nextXid := congrArg XidView.xid hv
    have hlt := lt_nextXid_succ hstop
    constructor
    · rw [hnext]
      exact UInt32.le_trans h.next (UInt32.le_of_lt hlt)
    · rw [hnext, hxid]
      exact .inr (.inr ⟨h.next, hlt, hstop⟩)
  | snapshot _ hv => exact h.congr (congrArg XidView.nextXid hv) (congrArg XidView.xid hv)

theorem issued_of_affects {α : Type} {p : TxnM α} (hp : Affects p) :
    Prog.Keeps (Issued xid n) p := by
  intro m h
  have hm := h.effect (hp m)
  unfold Prog.wp
  rcases hrun : p.run m with ⟨f | a, m'⟩ <;> rw [hrun] at hm <;> exact hm

theorem issued_run {c : ManagerCall} (hc : c.client = true) : Prog.Keeps (Issued xid n) c.run := by
  rcases ManagerCall.online_or_rebuild hc with hc | rfl
  · exact issued_of_affects (ManagerCall.affects_run hc)
  · exact Prog.Keeps.modify fun m h => h.congr rfl rfl

theorem managerInvariant_issued : ManagerInvariant (Issued xid n) where
  assignXid := issued_of_affects affects_assignXid
  registerSiread m key h := h.effect (.same (m.view_registerSiread key))
  registerWrite m key h := h.effect (.same (m.view_registerWrite key))
  addUndoRecord _ _ h := h.congr rfl rfl
  maybeAntiWraparound m h := by
    obtain ⟨c, hm, hc⟩ := m.exists_maybeAntiWraparound
    rw [hm]
    exact h.effect (.giveUp c hc rfl)

/-- Between transactions, as a load leaves the manager. -/
structure Idle (m : TransactionManager) : Prop where
  next : FirstNormalTransactionId ≤ m.nextXid
  xid : m.context.xid = InvalidTransactionId

theorem idle_modify {f : TransactionManager → TransactionManager} (h : ∀ m, Idle m → Idle (f m)) :
    Prog.Keeps (ε := Failure) Idle (Prog.modify f) := Prog.Keeps.modify h

theorem idle_restoreTransactions (ckp : Checkpoint) : Prog.Keeps Idle (restoreTransactions ckp) := by
  have hentry (j : Json) : Prog.Keeps Idle (clogEntryFromJson j) :=
    (Prog.Keeps.ofExcept _).bind fun _ => (Prog.Keeps.ofExcept _).bind fun _ =>
      idle_modify fun _ h => ⟨h.next, h.xid⟩
  have hclog : Prog.Keeps Idle (restoreClog ckp) := by
    rw [restoreClog]
    split
    · exact idle_modify fun _ h => ⟨h.next, h.xid⟩
    · exact Prog.Keeps.forEach fun j _ => hentry j
  have hnext : Prog.Keeps (ε := Failure) Idle (Prog.modify (restoreNextXid ckp)) := by
    refine idle_modify fun m h => ?_
    unfold restoreNextXid
    split
    · exact ⟨‹_›, h.xid⟩
    · exact h
  exact hnext.bind fun _ => hclog.bind fun _ =>
    (idle_modify (f := rebuildActiveFromClog) fun _ h => ⟨h.next, h.xid⟩).bind fun _ =>
      idle_modify (f := resetContext) fun _ h => ⟨h.next, rfl⟩

end Issued
end TransactionManager

open TransactionManager

/-! ### Sessions of clients -/

/-- The calls of the manager are those of a client. -/
def Session.ClientOnly (_ : Session) : Action → Prop
  | .call (.txn p) => ∃ c : ManagerCall, c.client = true ∧ p = c.run
  | _ => True

theorem issued_of_reached {s : Session} (h : Session.Reached Session.ClientOnly s) :
    Issued InvalidTransactionId FirstNormalTransactionId s.engine.txnMgr := by
  refine h.engine (I := fun e => Issued InvalidTransactionId FirstNormalTransactionId e.txnMgr)
    (fun _ _ => ⟨UInt32.le_refl _, .inl rfl⟩) fun s a e ha ih hs => ?_
  cases a with
  | call c =>
    subst hs
    refine (managerInvariant_issued.keeps_exec c fun p hp => ?_).final ih
    subst hp
    obtain ⟨c, hc, rfl⟩ := ha
    exact issued_run hc
  | save =>
    subst hs
    exact ManagerInvariant.keeps_checkpoint.final ih
  | close =>
    subst hs
    exact ManagerInvariant.keeps_checkpoint.final ih
  | restart k n checkpointInterval clock =>
    have hload : load.run (create (s.engine.dir.crash k n) checkpointInterval clock) =
        (.ok (), e) := hs
    have hidle := (ManagerInvariant.keeps_load (fun _ _ h => ⟨h.next, h.xid⟩)
      idle_restoreTransactions).final
        (s := create (s.engine.dir.crash k n) checkpointInterval clock) ⟨UInt32.le_refl _, rfl⟩
    rw [hload] at hidle
    exact ⟨hidle.next, .inl hidle.xid⟩

namespace StorageEngine

/-! ### The statement -/

/-- The engine when the current transaction has its id. -/
def assigned (e : StorageEngine) : StorageEngine := ((inTxn TransactionManager.assignXid).run e).2

/-- The version is one that a statement of the reader works on. -/
def Reader.selects (r : Reader) (c : CLog) (matches_ : Row → Bool) (t : Tuple) : Bool :=
  match toRow t with
  | .ok row => r.sees c row && matches_ row
  | .error _ => false

/-- The visible versions that match, in scan order. -/
def selected (e : StorageEngine) (table : Str) (matches_ : Row → Bool) : List Tuple :=
  match e.tableOf table with
  | .ok m => m.scanAll.filter (e.assigned.reader.selects e.assigned.txnMgr.clog matches_)
  | .error _ => []

/-- The version of a deleted row: the stamps of the deleted version, but for the deleter. -/
structure Tombstone (xid : TransactionId) (t t' : Tuple) : Prop where
  xmin : t'.hdr.xmin = t.hdr.xmin
  xmax : t'.hdr.xmax = xid

/-- The last of the elements with this row id. -/
def lastWith {α : Type} (idOf : α → Int64) (xs : List α) (id : Int64) : Option α :=
  (xs.filter fun x => idOf x = id).getLast?

theorem lastWith_concat {α : Type} (idOf : α → Int64) (xs : List α) (x : α) (id : Int64) :
    lastWith idOf (xs ++ [x]) id = if idOf x = id then some x else lastWith idOf xs id := by
  by_cases h : idOf x = id
  · simp [lastWith, List.filter_append, h]
  · simp [lastWith, List.filter_append, h]

/-- The last of the versions with this row id. -/
def lastVersion (ts : List Tuple) (id : Int64) : Option Tuple := lastWith (·.hdr.rowId.toInt64) ts id

theorem lastVersion_concat (ts : List Tuple) (t : Tuple) (id : Int64) :
    lastVersion (ts ++ [t]) id =
      if t.hdr.rowId.toInt64 = id then some t else lastVersion ts id := lastWith_concat _ ts t id

/-- The deleted rows have their tombstones and nothing else. -/
def Replaced (xid : TransactionId) (ts : List Tuple) (m : MemTable) : Prop :=
  ∀ id t, lastVersion ts id = some t →
    ∃ t', Tombstone xid t t' ∧ ∀ t'', t'' ∈ m.getVersions id ↔ t'' = t'

section Remove
variable {e : StorageEngine} {q : Str} {r : Reader} {mem : MemTable} {t : Tuple} {row : Row}

theorem Replaced.concat {ts : List Tuple} (h : Replaced r.xid ts mem) {t' : Tuple} {seq : UInt64}
    (ht' : Tombstone r.xid t t') :
    Replaced r.xid (ts ++ [t]) ((mem.eraseAllFor t.hdr.rowId.toInt64).put t.hdr.rowId.toInt64 t' seq) := by
  intro id t₀ hlast
  rw [lastVersion_concat] at hlast
  by_cases hid : t.hdr.rowId.toInt64 = id
  · rw [if_pos hid] at hlast
    obtain rfl := Option.some.inj hlast
    refine ⟨MemTable.normalize t', ⟨ht'.xmin, ht'.xmax⟩, fun t'' => ?_⟩
    rw [MemTable.mem_getVersions_replaced]
    simp [hid]
  · rw [if_neg hid] at hlast
    obtain ⟨t₁, hstone, hmem⟩ := h id t₀ hlast
    refine ⟨t₁, hstone, fun t'' => ?_⟩
    rw [MemTable.mem_getVersions_replaced, ← hmem]
    simp [Ne.symm hid]

/-- The manager as far as the statement reads it, and the table with its tombstones. -/
structure Removing (q : Str) (m : TransactionManager) (ts : List Tuple) (e : StorageEngine) :
    Prop where
  clog : e.txnMgr.clog = m.clog
  xid : e.txnMgr.context.xid = m.context.xid
  next : e.txnMgr.nextXid = m.nextXid
  table : ∃ mem, e.data[q]? = some mem ∧ Replaced m.context.xid ts mem

theorem tombstone_of_row (hrow : toRow t = .ok row) {cid : Value} {id : Int64} {t' : Tuple}
    (ht' : rowToTuple ((row.insert (str "_xmax") (.int r.xid.toUInt64.toInt64)).insert (str "_cid") cid)
      (headerFromRow q id ((row.insert (str "_xmax") (.int r.xid.toUInt64.toInt64)).insert
        (str "_cid") cid)) = .ok t') : Tombstone r.xid t t' := by
  obtain ⟨bs, -, ht'⟩ := ExceptList.bind_ok_iff.mp ht'
  cases ht'
  obtain ⟨-, hxmin, -, -⟩ := header_of_toRow hrow
  constructor
  · change headerField _ _ = _
    rw [headerField_insert_of_ne (by decide), headerField_insert_of_ne (by decide), headerField,
      hxmin]
    exact toUInt32_widened _
  · change headerField _ _ = _
    rw [headerField_insert_of_ne (by decide), headerField_insert_self]

theorem wp_removeRowWithTxn {m : TransactionManager} {ts : List Tuple} (h : Removing q m ts e)
    (hr : r.xid = m.context.xid) (hrow : toRow t = .ok row) :
    (removeRowWithTxn q r row).wp (fun _ => Removing q m (ts ++ [t])) (fun _ _ => True) e := by
  obtain ⟨mem, hmem, hreplaced⟩ := h.table
  obtain ⟨hnext, hctx, hclog⟩ : (e.txnMgr.registerWrite ⟨q, t.hdr.rowId.toInt64⟩).nextXid =
      m.nextXid ∧ _ ∧ _ := by
    have hview := e.txnMgr.view_registerWrite ⟨q, t.hdr.rowId.toInt64⟩
    exact ⟨(congrArg XidView.nextXid hview).trans h.next,
      (congrArg XidView.xid hview).trans h.xid, (congrArg XidView.clog hview).trans h.clog⟩
  rw [removeRowWithTxn, getRowId_of_toRow hrow, Prog.wp_bind, Prog.wp_ofExcept_ok, Prog.wp_bind,
    inTxn, Prog.wp_zoom, Prog.wp_modify]
  dsimp only
  rw [Prog.wp_bind, inTxn, Prog.wp_zoom, Prog.wp_modify, Prog.wp_bind]
  refine wp_eraseVersions (m := mem) (by exact hmem) ?_
  rw [Prog.wp_bind]
  refine wp_putVersion (m := mem.eraseAllFor t.hdr.rowId.toInt64) (by simp) (fun _ => trivial)
    fun t' ht' _ => wp_writeWal (fun _ => trivial) fun dir wal _ => ?_
  have hstone : Tombstone r.xid t t' := tombstone_of_row hrow ht'
  refine ⟨hclog, hctx, hnext, _, Std.ExtTreeMap.getElem?_insert_self, ?_⟩
  rw [← hr] at hreplaced ⊢
  exact hreplaced.concat hstone

/-- The statement has gone through `done`. -/
theorem wp_onVisible_remove {m : TransactionManager} {matches_ : Row → Bool} {done : List Tuple}
    {n : Nat} (hr : r.xid = m.context.xid)
    (h : Removing q m (done.filter (r.selects m.clog matches_)) e)
    (hn : n = (done.filter (r.selects m.clog matches_)).length) :
    (onVisible r matches_ (removeRowWithTxn q r) t).wp
      (fun k e' => Removing q m ((done ++ [t]).filter (r.selects m.clog matches_)) e' ∧
        n + k = ((done ++ [t]).filter (r.selects m.clog matches_)).length) (fun _ _ => True) e := by
  rw [onVisible, Prog.wp_bind, Prog.wp_ofExcept]
  refine ⟨fun row hrow => ?_, fun _ _ => trivial⟩
  have hselects : r.selects m.clog matches_ t = (r.sees m.clog row && matches_ row) := by
    rw [Reader.selects, hrow]
  rw [Prog.wp_bind, Prog.wp_get, Prog.wp_ite, h.clog, ← hselects]
  by_cases hsel : r.selects m.clog matches_ t = true
  · rw [if_pos hsel, Prog.wp_bind]
    refine Prog.wp_mono (wp_removeRowWithTxn h hr hrow) (fun _ e' h' => ?_) fun _ _ _ => trivial
    have hone : (done ++ [t]).filter (r.selects m.clog matches_) =
        done.filter (r.selects m.clog matches_) ++ [t] := by
      rw [List.filter_append, List.filter_singleton, hsel]
      rfl
    rw [Prog.wp_pure, hone, List.length_append, ← hn]
    exact ⟨h', rfl⟩
  · have hnone : (done ++ [t]).filter (r.selects m.clog matches_) =
        done.filter (r.selects m.clog matches_) := by
      rw [List.filter_append, List.filter_singleton, (Bool.not_eq_true _).mp hsel]
      exact List.append_nil _
    rw [if_neg hsel, Prog.wp_pure, hnone]
    exact ⟨h, hn⟩

theorem removing_maybeCheckpoint {m : TransactionManager} {ts : List Tuple} :
    Prog.Keeps (Removing q m ts) maybeCheckpoint := by
  refine Prog.Keeps.get.bind fun _ => Prog.Keeps.ite (fun _ => ?_) fun _ => Prog.Keeps.pure _
  refine Prog.Keeps.get_bind fun e h => ?_
  rw [Prog.wp_bind, Prog.wp_ofExcept]
  exact ⟨fun _ _ => ⟨h.clog, h.xid, h.next, h.table⟩, fun _ _ => h⟩

/-- The transaction has an id that has been handed out. -/
theorem wp_assignXid_issued {m : TransactionManager}
    (h : Issued InvalidTransactionId FirstNormalTransactionId m) :
    assignXid.wp (fun _ m' => m'.context.xid ≠ InvalidTransactionId ∧
      m'.context.xid < m'.nextXid ∧ FirstNormalTransactionId ≤ m'.nextXid) (fun _ _ => True) m := by
  by_cases hxid : m.context.xid = InvalidTransactionId
  · obtain ⟨c, -, ⟨-, f, hrun⟩ | ⟨hstop, hrun⟩⟩ := run_assignXid_cases hxid
    · exact Prog.wp_of_error hrun trivial
    · have hlt := lt_nextXid_succ hstop
      refine Prog.wp_of_ok hrun ⟨fun h0 => ?_, hlt, UInt32.le_trans h.next (UInt32.le_of_lt hlt)⟩
      have hnext := h.next
      rw [show m.nextXid = 0 from h0] at hnext
      revert hnext
      decide
  · refine Prog.wp_of_ok (run_assignXid_of_ne hxid) ⟨hxid, ?_, h.next⟩
    rcases h.context with h0 | h0 | ⟨-, hlt, -⟩
    · exact absurd h0 hxid
    · exact absurd h0 hxid
    · exact hlt

theorem wp_removeWithTxn {table : Str} {matches_ : Row → Bool}
    (h : Issued InvalidTransactionId FirstNormalTransactionId e.txnMgr) :
    (removeWithTxn table matches_).wp
      (fun n e' => Removing (e.resolveTableName table) e.assigned.txnMgr (e.selected table matches_) e' ∧
        n = (e.selected table matches_).length ∧
        e.assigned.txnMgr.context.xid ≠ InvalidTransactionId ∧
        e.assigned.txnMgr.context.xid < e.assigned.txnMgr.nextXid ∧
        FirstNormalTransactionId ≤ e.assigned.txnMgr.nextXid) (fun _ _ => True) e := by
  rw [removeWithTxn, thenCheckpoint, Prog.wp_bind, removeWithTxnBody, Prog.wp_bind, Prog.wp_get]
  dsimp only
  rw [Prog.wp_bind, Prog.wp_ofExcept]
  refine ⟨fun mem hmem => ?_, fun _ _ => trivial⟩
  rw [Prog.wp_bind]
  have hassign := wp_assignXid_issued h
  rcases hrun : assignXid.run e.txnMgr with ⟨f | xid, m⟩
  · rw [inTxn, Prog.wp_zoom]
    exact Prog.wp_of_error hrun trivial
  have hid := Prog.wp_ok hassign hrun
  have hassigned : e.assigned = e.setTxnMgr m := by
    simp only [assigned, inTxn, Prog.zoom, hrun]
  have hselected : e.selected table matches_ =
      mem.scanAll.filter ((e.setTxnMgr m).reader.selects m.clog matches_) := by
    rw [selected, hmem, hassigned]
    rfl
  rw [inTxn, Prog.wp_zoom]
  refine Prog.wp_of_ok hrun ?_
  rw [hselected, hassigned, Prog.wp_bind, Prog.wp_get]
  refine Prog.wp_mono (Prog.wp_sumEach (E := fun _ _ => True) (fun done k e' =>
    Removing (e.resolveTableName table) m
      (done.filter ((e.setTxnMgr m).reader.selects m.clog matches_)) e' ∧
      k = (done.filter ((e.setTxnMgr m).reader.selects m.clog matches_)).length)
    (fun done t rest _ k e' h' => wp_onVisible_remove rfl h'.1 h'.2) ?_)
    (fun n e' h' => ?_) fun _ _ _ => trivial
  · refine ⟨⟨rfl, rfl, rfl, mem, tableOf_eq_ok.mp hmem, ?_⟩, rfl⟩
    intro id t hlast
    cases hlast
  · rw [Prog.wp_bind]
    refine Prog.wp_mono (removing_maybeCheckpoint e' h'.1) (fun _ e'' h'' => ?_)
      fun _ _ _ => trivial
    exact ⟨h'', h'.2, hid⟩

end Remove
end StorageEngine

namespace TransactionManager

/-! ### Later managers -/

/-- The managers that a client reaches from `m`. -/
inductive Later (m : TransactionManager) : TransactionManager → Prop
  | refl : Later m m
  | call {m' : TransactionManager} (h : Later m m') (c : ManagerCall) (hc : c.client = true) :
      Later m (c.run.run m').2

section Later
variable {m m' m'' : TransactionManager} {xid n : TransactionId}

theorem Later.trans (h : Later m m') (h' : Later m' m'') : Later m m'' := by
  induction h' with
  | refl => exact h
  | call _ c hc ih => exact .call ih c hc

theorem Later.issued (h : Later m m') (hm : Issued xid n m) : Issued xid n m' := by
  induction h with
  | refl => exact hm
  | call _ c hc ih => exact (issued_run hc).final ih

/-- Outside serializable isolation nothing keeps a transaction from committing. -/
theorem exists_later_committed (hxid : m.context.xid ≠ InvalidTransactionId) :
    ∃ m', Later m m' ∧ m'.clog.getStatus m.context.xid = .committed ∧
      m'.context.xid = InvalidTransactionId ∧ m'.nextXid = m.nextXid := by
  set m₁ := m.setContext { m.context with isolation := .readCommitted }
  have hrun : commitTransaction.run m₁ = (.ok (), m₁.finish m.context.xid .committed) := by
    have hxid₁ : m₁.context.xid ≠ InvalidTransactionId := hxid
    rw [commitTransaction, Prog.bind_ok (Prog.run_get m₁)]
    dsimp only
    rw [if_neg hxid₁, if_neg (by rintro ⟨h, -⟩; cases h)]
    rfl
  refine ⟨m₁.finish m.context.xid .committed, ?_, CLog.getStatus_setStatus_self _ _ _, rfl, rfl⟩
  have hlater : Later m (commitTransaction.run m₁).2 :=
    .call (.call .refl (.setIsolationLevel .readCommitted) rfl) .commitTransaction rfl
  rwa [hrun] at hlater

theorem exists_later_assigned (hidle : m.context.xid = InvalidTransactionId)
    (hcommitted : m.clog.getStatus xid = .committed) (hlt : xid < m.nextXid)
    (hstop : m.nextXid.toNat < XIDEmergencyStop) :
    ∃ m', Later m m' ∧ m'.clog.getStatus xid = .committed ∧ m'.nextXid = m.nextXid + 1 ∧
      m'.context.xid = m.nextXid := by
  obtain ⟨c, hc, ⟨hstop', -⟩ | ⟨-, hrun⟩⟩ := run_assignXid_cases hidle
  · exact absurd hstop (Nat.not_lt.mpr hstop')
  · refine ⟨m.assign c, ?_, ?_, rfl, rfl⟩
    · have hlater : Later m ((ManagerCall.discard assignXid).run m).2 := .call .refl .assignXid rfl
      rw [ManagerCall.discard, Prog.bind_ok hrun] at hlater
      exact hlater
    · change (c.setStatus m.nextXid .inProgress).getStatus xid = _
      rw [CLog.getStatus_setStatus_of_ne _ _ fun he => UInt32.lt_irrefl _ (he ▸ hlt)]
      rcases hc xid with hx | ⟨-, -, hopen, -⟩
      · exact hx.trans hcommitted
      · rw [hcommitted] at hopen
        cases hopen

/-- Every id up to the emergency stop is handed out at some time. -/
theorem exists_later_xid {x : TransactionId} (hidle : m.context.xid = InvalidTransactionId)
    (hcommitted : m.clog.getStatus xid = .committed) (hlt : xid < m.nextXid) (hx : m.nextXid ≤ x)
    (hstop : x.toNat < XIDEmergencyStop) :
    ∃ m', Later m m' ∧ m'.clog.getStatus xid = .committed ∧ m'.context.xid = x := by
  -- One more assigned and given up, until the next id is `x`.
  induction hd : x.toNat - m.nextXid.toNat generalizing m with
  | zero =>
    have hnext : m.nextXid = x := by
      rw [UInt32.le_iff_toNat_le] at hx
      exact UInt32.toNat_inj.mp (by omega)
    obtain ⟨m₁, hlater, hc, -, hxid⟩ := exists_later_assigned hidle hcommitted hlt (hnext ▸ hstop)
    exact ⟨m₁, hlater, hc, hxid.trans hnext⟩
  | succ d ih =>
    have hlt' : m.nextXid.toNat < x.toNat := by omega
    have hroom : m.nextXid.toNat < XIDEmergencyStop := Nat.lt_trans hlt' hstop
    obtain ⟨m₁, hlater, hc, hnext, hxid⟩ := exists_later_assigned hidle hcommitted hlt hroom
    have hsucc := lt_nextXid_succ hroom
    have hnext₂ : m₁.abortTransaction.nextXid = m.nextXid + 1 :=
      (nextXid_abortTransaction m₁).trans hnext
    have hc₂ : m₁.abortTransaction.clog.getStatus xid = .committed := by
      rw [TransactionManager.abortTransaction]
      split
      · refine (CLog.getStatus_setStatus_of_ne _ _ fun he => ?_).trans hc
        rw [hxid] at he
        exact UInt32.lt_irrefl _ (he ▸ hlt)
      · exact hc
    have hidle₂ : m₁.abortTransaction.context.xid = InvalidTransactionId := by
      rw [TransactionManager.abortTransaction]
      split <;> rfl
    have hnat : (m.nextXid + 1).toNat = m.nextXid.toNat + 1 := by
      have := UInt32.lt_iff_toNat_lt.mp hsucc
      have hone : (1 : UInt32).toNat = 1 := rfl
      rw [UInt32.toNat_add, hone] at this ⊢
      omega
    obtain ⟨m', hlater', hm'⟩ := ih hidle₂ hc₂ (hnext₂ ▸ UInt32.lt_trans hlt hsucc)
      (by rw [hnext₂, UInt32.le_iff_toNat_le]; omega) (by rw [hnext₂]; omega)
    exact ⟨m', (Later.call hlater .abortTransaction rfl).trans hlater', hm'⟩

end Later
end TransactionManager

/-! ### Hidden rows -/

namespace StorageEngine

/-- The delete counts the rows, and a snapshot taken when its transaction has committed sees none of
them. -/
structure DeleteEffective (e e' : StorageEngine) (table : Str) (matches_ : Row → Bool) (n : Nat) :
    Prop where
  count : n = (e.selected table matches_).length
  hidden : ∀ m, e'.txnMgr.Later m → m.clog.getStatus e'.txnMgr.context.xid = .committed →
    ∀ mem, e'.data[e.resolveTableName table]? = some mem → ∀ t ∈ e.selected table matches_,
      ∀ t' ∈ mem.getVersions t.hdr.rowId.toInt64, ∀ cid,
        t'.seen ⟨m.context.xid, m.getSnapshot, cid⟩ m.clog = false

/-- The rows to delete have inserters, and no id that will be handed out is one of them. -/
def InsertersKnown (e : StorageEngine) (table : Str) (matches_ : Row → Bool) : Prop :=
  ∀ id t, lastVersion (e.selected table matches_) id = some t →
    t.hdr.xmin ≠ InvalidTransactionId ∧
      (t.hdr.xmin < e.assigned.txnMgr.nextXid ∨ XIDEmergencyStop ≤ t.hdr.xmin.toNat)

theorem exists_lastVersion {ts : List Tuple} {t : Tuple} (h : t ∈ ts) :
    ∃ t₀, lastVersion ts t.hdr.rowId.toInt64 = some t₀ := by
  have hmem : t ∈ ts.filter fun t' => t'.hdr.rowId.toInt64 = t.hdr.rowId.toInt64 :=
    List.mem_filter.mpr ⟨h, by simp⟩
  exact ⟨_, List.getLast?_eq_some_getLast (List.ne_nil_of_mem hmem)⟩

theorem mem_of_lastVersion {ts : List Tuple} {t : Tuple} {id : Int64}
    (h : lastVersion ts id = some t) : t ∈ ts ∧ t.hdr.rowId.toInt64 = id := by
  have hmem := List.mem_filter.mp (List.mem_of_getLast? h)
  exact ⟨hmem.1, of_decide_eq_true hmem.2⟩

section Hidden
variable {e e' : StorageEngine} {table : Str} {matches_ : Row → Bool} {n : Nat}

theorem hidden_of_insertersKnown
    (h : Removing (e.resolveTableName table) e.assigned.txnMgr (e.selected table matches_) e')
    (hxid : e.assigned.txnMgr.context.xid ≠ InvalidTransactionId)
    (hknown : InsertersKnown e table matches_) {m : TransactionManager}
    (hm : e'.txnMgr.Later m) (hc : m.clog.getStatus e'.txnMgr.context.xid = .committed)
    {mem : MemTable} (hmem : e'.data[e.resolveTableName table]? = some mem) {t t' : Tuple}
    (ht : t ∈ e.selected table matches_) (ht' : t' ∈ mem.getVersions t.hdr.rowId.toInt64)
    (cid : Int32) : t'.seen ⟨m.context.xid, m.getSnapshot, cid⟩ m.clog = false := by
  have hissued : Issued e.assigned.txnMgr.context.xid e.assigned.txnMgr.nextXid m :=
    hm.issued ⟨h.next ▸ UInt32.le_refl _, .inr (.inl h.xid)⟩
  obtain ⟨mem₁, hmem₁, hreplaced⟩ := h.table
  obtain rfl := Option.some.inj (hmem.symm.trans hmem₁)
  obtain ⟨t₀, ht₀⟩ := exists_lastVersion ht
  obtain ⟨t₁, hstone, honly⟩ := hreplaced _ t₀ ht₀
  obtain rfl := (honly t').mp ht'
  obtain ⟨h0, hbelow⟩ := hknown _ t₀ ht₀
  rw [h.xid] at hc
  refine not_seen_of_deleted (hstone.xmin ▸ h0) (hstone.xmax ▸ hxid) (hstone.xmax ▸ hc) fun hown => ?_
  rw [hstone.xmin] at hown
  rw [hstone.xmax]
  -- A reader with the inserter's id is neither between transactions nor a new one.
  rcases hissued.context with hnone | hsame | ⟨hge, -, hstop⟩
  · exact absurd (hown.trans hnone) h0
  · exact hsame
  · change t₀.hdr.xmin = m.context.xid at hown
    rw [← hown] at hge hstop
    rcases hbelow with hlt | hlate
    · exact absurd hlt (UInt32.not_lt.mpr hge)
    · exact absurd hstop (Nat.not_lt.mpr hlate)

theorem insertersKnown_of_effective
    (h : Removing (e.resolveTableName table) e.assigned.txnMgr (e.selected table matches_) e')
    (hxid : e.assigned.txnMgr.context.xid ≠ InvalidTransactionId)
    (hlt : e.assigned.txnMgr.context.xid < e.assigned.txnMgr.nextXid)
    (hnormal : FirstNormalTransactionId ≤ e.assigned.txnMgr.nextXid)
    (heffective : DeleteEffective e e' table matches_ n) : InsertersKnown e table matches_ := by
  intro id t ht
  obtain ⟨mem, hmem, hreplaced⟩ := h.table
  obtain ⟨t', hstone, honly⟩ := hreplaced id t ht
  obtain ⟨hts, rfl⟩ := mem_of_lastVersion ht
  have hmem' : t' ∈ mem.getVersions t.hdr.rowId.toInt64 := (honly t').mpr rfl
  obtain ⟨m, hlater, hc, hidle, hnext⟩ := exists_later_committed (h.xid ▸ hxid)
  constructor
  · intro h0
    have hhidden := heffective.hidden m hlater hc mem hmem t hts t' hmem' 0
    rw [seen_of_no_xmin (hstone.xmin.trans h0)] at hhidden
    cases hhidden
  · by_contra hnew
    obtain ⟨hge, hstop⟩ := not_or.mp hnew
    have hge := UInt32.not_lt.mp hge
    have hnext : m.nextXid = e.assigned.txnMgr.nextXid := hnext.trans h.next
    rw [h.xid] at hc
    obtain ⟨m', hlater', hc', hx⟩ := exists_later_xid hidle hc (hnext ▸ hlt) (hnext ▸ hge)
      (Nat.lt_of_not_le hstop)
    have hne : e.assigned.txnMgr.context.xid ≠ t.hdr.xmin := fun he =>
      UInt32.lt_irrefl _ (UInt32.lt_of_lt_of_le (he ▸ hlt) hge)
    have hhidden := heffective.hidden m' (hlater.trans hlater') (h.xid ▸ hc') mem hmem t hts t' hmem'
      Int32.maxValue
    have hlow : FirstNormalTransactionId ≤ t'.hdr.xmin := hstone.xmin ▸ UInt32.le_trans hnormal hge
    have hseen : t'.seen ⟨m'.context.xid, m'.getSnapshot, Int32.maxValue⟩ m'.clog = true := by
      refine seen_of_own (fun h0 => ?_) (fun hf => ?_) (hstone.xmin.trans hx.symm) ?_ rfl
      · exact absurd (h0 ▸ hlow) (by decide)
      · exact absurd (hf ▸ hlow) (by decide)
      · rw [hstone.xmax, hx]
        exact hne
    rw [hseen] at hhidden
    cases hhidden

end Hidden
end StorageEngine

theorem delete_effective_iff {s : Session} (h : Session.Reached Session.ClientOnly s) {table : Str}
    {matches_ : Row → Bool} {n : Nat} {e' : StorageEngine}
    (hrun : (removeWithTxn table matches_).run s.engine = (.ok n, e')) :
    DeleteEffective s.engine e' table matches_ n ↔ InsertersKnown s.engine table matches_ := by
  obtain ⟨hrem, hn, hxid, hlt, hnormal⟩ := Prog.wp_ok (wp_removeWithTxn (issued_of_reached h)) hrun
  constructor
  · exact insertersKnown_of_effective hrem hxid hlt hnormal
  · intro hknown
    refine ⟨hn, fun m hm hc mem hmem t ht t' ht' cid => ?_⟩
    exact hidden_of_insertersKnown hrem hxid hknown hm hc hmem ht ht' cid

theorem insertersKnown_of_forall {e : StorageEngine} {table : Str} {matches_ : Row → Bool}
    (h : ∀ t ∈ e.selected table matches_, t.hdr.xmin ≠ InvalidTransactionId ∧
      t.hdr.xmin < e.assigned.txnMgr.nextXid) : InsertersKnown e table matches_ := by
  intro id t ht
  obtain ⟨h0, hlt⟩ := h t (mem_of_lastVersion ht).1
  exact ⟨h0, .inl hlt⟩

/-- A row that a transaction has inserted. -/
theorem delete_effective_transacted : ∃ s e', Session.Reached Session.ClientOnly s ∧
    (removeWithTxn (str "t") fun _ => true).run s.engine = (.ok 1, e') ∧
    DeleteEffective s.engine e' (str "t") (fun _ => true) 1 := by
  have hreached : Session.Reached Session.ClientOnly ⟨transactedEngine, [], false⟩ :=
    reached_transactedEngine (C := fun e c => Session.ClientOnly ⟨e, [], false⟩ (.call c))
      (fun _ _ hc _ => hc) trivial trivial
      (fun _ => ⟨.commitTransaction, rfl, rfl⟩) fun _ => trivial
  have hcount : ((removeWithTxn (str "t") fun _ => true).run transactedEngine).1 = .ok 1 := by
    decide +kernel
  refine ⟨_, _, hreached, Prod.ext hcount rfl,
    (delete_effective_iff hreached (Prod.ext hcount rfl)).mpr ?_⟩
  exact insertersKnown_of_forall (by decide +kernel)

/-- A row that was inserted without a transaction stays visible. -/
theorem not_delete_effective : ¬ ∀ s, Session.Reached Session.ClientOnly s →
    ∀ table matches_ n e', (removeWithTxn table matches_).run s.engine = (.ok n, e') →
      DeleteEffective s.engine e' table matches_ n := by
  intro hall
  have hreached : Session.Reached Session.ClientOnly ⟨loggedEngine, [], false⟩ :=
    .step (a := .call (.insert (str "t") oneRow)) (.step
      (a := .call (.createTable (str "t") [⟨str "a", .integer, true, false, none⟩])) (.start 0 0)
      trivial rfl) trivial rfl
  have hcount : ((removeWithTxn (str "t") fun _ => true).run loggedEngine).1 = .ok 1 := by
    decide +kernel
  have hrun : (removeWithTxn (str "t") fun _ => true).run loggedEngine = (.ok 1, _) :=
    Prod.ext hcount rfl
  obtain ⟨hrem, -, hxid, hlt, hnormal⟩ := Prog.wp_ok (wp_removeWithTxn (issued_of_reached hreached)) hrun
  have hknown := insertersKnown_of_effective hrem hxid hlt hnormal (hall _ hreached _ _ _ _ hrun)
  have hlast : (lastVersion (loggedEngine.selected (str "t") fun _ => true) 1).any
      (·.hdr.xmin = InvalidTransactionId) = true := by decide +kernel
  obtain ⟨t, ht, h0⟩ := (Option.any_eq_true _ _).mp hlast
  exact (hknown 1 t ht).1 (of_decide_eq_true h0)

end JiaMiaoDB
