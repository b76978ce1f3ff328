import JiaMiaoDB.Storage.SerialTransactions

/-!
# Statements of transactions that run one at a time

A statement that ends has done to the rows what it says, and one that stops has left nothing that the undo
log would not take back. The undo log brings back the versions of any earlier position.
-/

set_option autoImplicit false

namespace JiaMiaoDB
open TransactionManager StorageEngine BinaryRowCodec

/-! ### Calls of the manager -/

namespace TransactionManager
variable {m m' : TransactionManager}

/-- The transaction goes on, or another one starts where none is under way. -/
structure GoesOn (m m' : TransactionManager) : Prop where
  clog : ∀ x, m.clog.getStatus x = .committed → m'.clog.getStatus x = .committed
  xid : m.context.xid ≠ InvalidTransactionId →
    m'.context.xid = m.context.xid ∧ m.context.commandId ≤ m'.context.commandId
  undo : m'.context.undoRecords = m.context.undoRecords
  savepoints : m'.context.savepoints = m.context.savepoints
  alone : Alone m'

theorem GoesOn.refl (ha : Alone m) : GoesOn m m :=
  ⟨fun _ h => h, fun _ => ⟨rfl, Int32.le_refl _⟩, rfl, rfl, ha⟩

theorem Alone.congr (ha : Alone m) (hactive : m'.activeXids = m.activeXids)
    (hxid : m'.context.xid = m.context.xid) (hundo : m'.context.undoRecords = m.context.undoRecords)
    (hheld : m'.context.hasSnapshot = true → m.context.hasSnapshot = true ∧
      m'.context.snapshot = m.context.snapshot) : Alone m' where
  active x hx := by
    rw [hxid]
    rw [hactive] at hx
    exact ha.active x hx
  held h x hx := by
    obtain ⟨h, hsnap⟩ := hheld h
    rw [hsnap] at hx
    rw [hxid]
    exact ha.held h x hx
  undo h := by
    rw [hundo]
    rw [hxid] at h
    exact ha.undo h

/-- Only the context changes, and not in what matters. -/
theorem GoesOn.setContext (ha : Alone m) {c : TransactionContext} (hxid : c.xid = m.context.xid)
    (hundo : c.undoRecords = m.context.undoRecords) (hsave : c.savepoints = m.context.savepoints)
    (hcid : m.context.commandId ≤ c.commandId)
    (hheld : c.hasSnapshot = true → m.context.hasSnapshot = true ∧ c.snapshot = m.context.snapshot) :
    GoesOn m (m.setContext c) :=
  ⟨fun _ h => h, fun _ => ⟨hxid, hcid⟩, hundo, hsave, ha.congr rfl hxid hundo hheld⟩

/-- Only the conflict sets change. -/
theorem GoesOn.congr (ha : Alone m) (hactive : m'.activeXids = m.activeXids) (hclog : m'.clog = m.clog)
    (hcontext : m'.context = m.context) : GoesOn m m' := by
  have hrest := GoesOn.refl ha
  constructor
  · rw [hclog]
    exact hrest.clog
  · rw [hcontext]
    exact hrest.xid
  · rw [hcontext]
  · rw [hcontext]
  · refine ha.congr hactive ?_ ?_ ?_
    · rw [hcontext]
    · rw [hcontext]
    · rw [hcontext]
      exact fun h => ⟨h, rfl⟩

/-- A new block starts. -/
theorem GoesOn.start (ha : Alone m) (hxid : m.context.xid = InvalidTransactionId)
    (state : TBlockState) : GoesOn m (m.setContext (startContext m.context state)) := by
  refine ⟨fun _ h => h, fun h => absurd hxid h, (ha.undo hxid).symm, rfl, ?_⟩
  exact ha.congr rfl hxid.symm (ha.undo hxid).symm fun h => by cases h

theorem GoesOn.giveUp (hm : Accounted m) (ha : Alone m) {c : CLog} (hc : m.GivesUp c) :
    GoesOn m { m with clog := c } := by
  refine ⟨fun x hx => ?_, fun _ => ⟨rfl, Int32.le_refl _⟩, rfl, rfl, ?_⟩
  · exact (hm.giveUp_getStatus hc x).trans hx
  · exact ha.congr rfl rfl rfl fun h => ⟨h, rfl⟩

theorem GoesOn.assign (hm : Accounted m) (ha : Alone m) (hxid : m.context.xid = InvalidTransactionId)
    {c : CLog} (hc : m.GivesUp c) : GoesOn m (m.assign c) := by
  have hnone : ∀ x, x ∉ m.activeXids := by
    intro x hx
    have hx' := ha.active x hx
    exact hm.ne_of_active hx (hx'.trans hxid)
  refine ⟨fun x hx => ?_, fun h => absurd hxid h, rfl, rfl, fun x hx => ?_, fun h x hx => ?_, fun h => ?_⟩
  · have hne : m.nextXid ≠ x := by
      rintro rfl
      rw [hm.future _ (.inr (UInt32.le_refl _))] at hx
      cases hx
    change (c.setStatus m.nextXid .inProgress).getStatus x = _
    rw [CLog.getStatus_setStatus_of_ne c _ hne, hm.giveUp_getStatus hc]
    exact hx
  · rcases Std.ExtTreeSet.mem_insert.mp hx with heq | hx
    · exact (Std.LawfulEqCmp.eq_of_compare heq).symm
    · exact absurd hx (hnone x)
  · obtain ⟨heq, hne⟩ := ha.held h x hx
    exact absurd (heq.trans hxid) hne
  · have hnormal := hm.next
    rw [show m.nextXid = InvalidTransactionId from h] at hnormal
    exact absurd hnormal (by decide)

theorem goesOn_assignXid (hm : Accounted m) (ha : Alone m) :
    assignXid.wp (fun xid m' => GoesOn m m' ∧ m'.context.xid ≠ InvalidTransactionId ∧
      xid = m'.context.xid) (fun _ m' => GoesOn m m') m := by
  by_cases hxid : m.context.xid = InvalidTransactionId
  · obtain ⟨c, hc, ⟨-, f, hrun⟩ | ⟨-, hrun⟩⟩ := run_assignXid_cases hxid
    · exact Prog.wp_of_error hrun (.giveUp hm ha hc)
    · refine Prog.wp_of_ok hrun ⟨.assign hm ha hxid hc, fun h => ?_, rfl⟩
      have hnormal := hm.next
      rw [show m.nextXid = InvalidTransactionId from h] at hnormal
      exact absurd hnormal (by decide)
  · exact Prog.wp_of_ok (run_assignXid_of_ne hxid) ⟨.refl ha, hxid, rfl⟩

end TransactionManager

/-- The calls between a begin and an end, and those that begin where no transaction is under way. -/
def ManagerCall.Quiet (m : TransactionManager) : ManagerCall → Prop
  | .assignXid | .commandCounterIncrement | .getTransactionSnapshot | .setIsolationLevel _
  | .registerSiread _ | .registerWrite _ | .maybeAntiWraparound | .freezeOldXids
  | .cleanupTransactionState _ => True
  | .startTransactionCommand | .beginTransactionBlock =>
    m.context.blockState = .default → m.context.xid = InvalidTransactionId
  | .commitTransactionCommand =>
    m.context.blockState = .begin ∨ m.context.blockState = .inProgress ∨ m.context.blockState = .default
  | _ => False

theorem TransactionManager.goesOn_increment {m : TransactionManager} (ha : Alone m) :
    GoesOn m (commandCounterIncrement.run m).2 := by
  rw [commandCounterIncrement, Prog.bind_ok (Prog.run_get m)]
  split
  · exact .refl ha
  · next hmax =>
    refine .setContext ha rfl rfl rfl ?_ fun h => ⟨h, rfl⟩
    exact Int32.le_of_lt (lt_succ_commandId hmax)

theorem TransactionManager.goesOn_snapshot {m : TransactionManager} (hm : Accounted m) (ha : Alone m) :
    GoesOn m (getTransactionSnapshot.run m).2 := by
  rw [TransactionManager.getTransactionSnapshot, Prog.bind_ok (Prog.run_get m)]
  split
  · exact .refl ha
  · refine ⟨fun _ h => h, fun _ => ⟨rfl, Int32.le_refl _⟩, rfl, rfl, ha.active, fun _ x hx => ?_, ha.undo⟩
    have hx := Std.ExtTreeSet.mem_toList.mp hx
    exact ⟨ha.active x hx, hm.ne_of_active hx⟩

theorem ManagerCall.goesOn_run {m : TransactionManager} {c : ManagerCall} (hm : Accounted m)
    (ha : Alone m) (hc : c.Quiet m) : GoesOn m (c.run.run m).2 := by
  have discard {α : Type} {p : TxnM α} (hp : GoesOn m (p.run m).2) :
      GoesOn m ((ManagerCall.discard p).run m).2 := by
    unfold ManagerCall.discard
    rcases hrun : p.run m with ⟨f | a, m'⟩ <;> rw [hrun] at hp
    · rw [Prog.bind_error hrun]
      exact hp
    · rw [Prog.bind_ok hrun]
      exact hp
  cases c with
  | startTransactionCommand =>
    change GoesOn m (TransactionManager.startTransactionCommand m)
    unfold TransactionManager.startTransactionCommand
    split
    · exact .start ha (hc ‹_›) _
    · exact .refl ha
  | beginTransactionBlock =>
    rw [run, TransactionManager.beginTransactionBlock, Prog.bind_ok (Prog.run_get m)]
    split
    · exact .start ha (hc ‹_›) _
    · exact .setContext ha rfl rfl rfl (Int32.le_refl _) fun h => ⟨h, rfl⟩
    · exact .refl ha
  | commitTransactionCommand =>
    rw [run, TransactionManager.commitTransactionCommand, Prog.bind_ok (Prog.run_get m)]
    rcases hc with hstate | hstate | hstate
    · rw [hstate]
      exact .setContext ha rfl rfl rfl (Int32.le_refl _) fun h => ⟨h, rfl⟩
    · rw [hstate]
      exact goesOn_increment ha
    · rw [hstate]
      exact .refl ha
  | setIsolationLevel level =>
    exact .setContext ha rfl rfl rfl (Int32.le_refl _) fun h => ⟨h, rfl⟩
  | assignXid =>
    apply discard
    have hassign := goesOn_assignXid hm ha
    unfold Prog.wp at hassign
    rcases hrun : TransactionManager.assignXid.run m with ⟨f | a, m'⟩ <;> rw [hrun] at hassign
    · exact hassign
    · exact hassign.1
  | freezeOldXids => exact .giveUp hm ha m.givesUp_freezeOldXids
  | maybeAntiWraparound =>
    obtain ⟨c, hrun, hc⟩ := m.exists_maybeAntiWraparound
    change GoesOn m m.maybeAntiWraparound
    rw [hrun]
    exact .giveUp hm ha hc
  | commandCounterIncrement => exact goesOn_increment ha
  | getTransactionSnapshot => exact discard (goesOn_snapshot hm ha)
  | registerSiread key =>
    obtain ⟨-, hactive, hclog, hcontext, -⟩ := m.frame_registerSiread key
    exact .congr ha hactive hclog hcontext
  | registerWrite key =>
    obtain ⟨-, hactive, hclog, hcontext, -⟩ := m.frame_registerWrite key
    exact .congr ha hactive hclog hcontext
  | cleanupTransactionState x => exact .congr ha rfl rfl rfl
  | _ => exact hc.elim

theorem Good.mono {m m' : TransactionManager} {k : RowKey} {t : Tuple} (h : Good m k t)
    (hclog : ∀ x, m.clog.getStatus x = .committed → m'.clog.getStatus x = .committed)
    (hxid : m.context.xid ≠ InvalidTransactionId → m'.context.xid = m.context.xid ∧
      m.context.commandId ≤ m'.context.commandId) : Good m' k t :=
  ⟨h.readable, h.rowId, h.stamps.congr hclog hxid⟩

namespace StorageEngine

/-! ### Statements -/

/-- The transaction goes on, and the undo log still brings back what it did before. -/
structure CarriesOn (e e' : StorageEngine) : Prop where
  serial : Serial e'
  recalls : ∀ n s, Recalls e n s → Recalls e' n s
  settles : ∀ t, e.txnMgr.Settles t → e'.txnMgr.Settles t
  savepoints : e'.txnMgr.context.savepoints = e.txnMgr.context.savepoints

section CarriesOn
variable {e e₀ e₁ e' : StorageEngine} {added : List UndoRecord} {c : RowKey → Option Tuple} {q : Str}
  {id : Int64} {row : Row}

theorem CarriesOn.trans (h : CarriesOn e e₁) (h' : CarriesOn e₁ e') : CarriesOn e e' where
  serial := h'.serial
  recalls n s hs := h'.recalls n s (h.recalls n s hs)
  settles t ht := h'.settles t (h.settles t ht)
  savepoints := h'.savepoints.trans h.savepoints

theorem Recalls.congr {n : Nat} {s : RowKey → Option Tuple} (h : Recalls e n s)
    (hundo : e'.txnMgr.context.undoRecords = e.txnMgr.context.undoRecords) (hcell : e'.cell = e.cell) :
    Recalls e' n s := by
  have hlog : e'.undoLog = e.undoLog := by rw [undoLog, hundo, undoLog]
  constructor
  · rw [hlog]
    exact h.le
  · rw [hlog, hcell]
    exact h.undo

/-- The manager goes on and the tables stay. -/
theorem carriesOn_of_goesOn {m : TransactionManager}
    (h : GoesOn e.txnMgr m) (hs : Serial e) : CarriesOn e (e.setTxnMgr m) := by
  have hgood {k : RowKey} {t : Tuple} (ht : Good e.txnMgr k t) : Good m k t := ht.mono h.clog h.xid
  refine ⟨⟨h.alone, hs.kept.domain, hs.kept.single, fun k t ht => hgood (hs.kept.cells k t ht),
    fun r hr => ?_⟩, fun n s hr => hr.congr h.undo rfl, fun t ht => ht.congr h.clog, h.savepoints⟩
  have hr : r ∈ m.context.undoRecords := hr
  rw [h.undo] at hr
  exact ⟨(hs.kept.undo r hr).1, fun t ht => hgood ((hs.kept.undo r hr).2 t ht)⟩

/-- A statement that is done, or has stopped. -/
theorem Working.carriesOn (h : Working e₀ added c e) (h₀ : Serial e₀)
    (hadded : added ≠ [] → e₀.txnMgr.context.xid ≠ InvalidTransactionId) : CarriesOn e₀ e := by
  have hxid : e.txnMgr.context.xid = e₀.txnMgr.context.xid := by rw [h.context]
  have hgood {k : RowKey} {t : Tuple} (ht : Good e₀.txnMgr k t) : Good e.txnMgr k t := by
    refine ht.mono (fun x hx => ?_) fun _ => ⟨hxid, ?_⟩
    · rw [h.clog]
      exact hx
    · rw [h.context]
      exact Int32.le_refl _
  have hundo : e.txnMgr.context.undoRecords = e₀.txnMgr.context.undoRecords ++ added := by rw [h.context]
  have hlog : e.undoLog = e₀.undoLog ++ added.map UndoRecord.entry := by
    rw [undoLog, hundo, List.map_append]
    rfl
  refine ⟨⟨⟨fun x hx => ?_, fun hheld x hx => ?_, fun h0 => ?_⟩, h.kept.domain, h.kept.single,
    fun k t ht => hgood (h.kept.cells k t ht), fun r hr => ?_⟩, fun n s hr => ?_, fun t ht => ?_, ?_⟩
  · rw [hxid]
    rw [h.active] at hx
    exact h₀.alone.active x hx
  · rw [h.context] at hheld hx
    rw [hxid]
    exact h₀.alone.held hheld x hx
  · rw [hxid] at h0
    rw [hundo, h₀.alone.undo h0, List.nil_append]
    by_contra hne
    exact hadded hne h0
  · obtain ⟨hdata, hold⟩ := h.kept.undo r hr
    exact ⟨hdata, fun t ht => hgood (hold t ht)⟩
  · obtain ⟨hle, hs⟩ := hr
    refine ⟨?_, ?_⟩
    · rw [hlog, List.length_append]
      exact Nat.le_add_right_of_le hle
    · rw [hlog, List.drop_append_of_le_length hle, UndoLog.undo_append, h.cell, h.undone]
      exact hs
  · refine ht.congr fun x hx => ?_
    rw [h.clog]
    exact hx
  · rw [h.context]

theorem live_eq_shown (e : StorageEngine) : e.live = shown e.cell := rfl

/-- A statement of a transaction with an id has brought the rows to `rows`. -/
def Finished (e : StorageEngine) (rows : RowKey → Option Row) (e' : StorageEngine) : Prop :=
  ∃ e₀ added c, CarriesOn e e₀ ∧ e₀.txnMgr.context.xid ≠ InvalidTransactionId ∧
    Working e₀ added c e' ∧ shown c = rows

theorem Finished.carriesOn {rows : RowKey → Option Row} (h : Finished e rows e') : CarriesOn e e' := by
  obtain ⟨e₀, added, c, h₀, hxid, h, -⟩ := h
  exact h₀.trans (h.carriesOn h₀.serial fun _ => hxid)

theorem Finished.live_eq {rows : RowKey → Option Row} (h : Finished e rows e') : e'.live = rows := by
  obtain ⟨e₀, added, c, -, -, h, hshown⟩ := h
  rw [live_eq_shown, h.cell, hshown]

theorem Finished.wp {α : Type} {p : EngineM α} (hp : ∀ e₀ added c, Prog.Keeps (Holding e₀ added c) p)
    {rows : RowKey → Option Row} (h : Finished e rows e') :
    p.wp (fun _ => Finished e rows) (fun _ => CarriesOn e) e' := by
  obtain ⟨e₀, added, c, h₀, hxid, h, hshown⟩ := h
  have hfinished {e'' : StorageEngine} (h' : Working e₀ added c e'') : Finished e rows e'' :=
    ⟨e₀, added, c, h₀, hxid, h', hshown⟩
  exact Prog.wp_mono (working (hp e₀ added c) e' h) (fun _ _ h' => hfinished h')
    fun _ _ h' => (hfinished h').carriesOn

theorem wp_thenCheckpoint_finished {α : Type} {p : EngineM α} {rows : α → RowKey → Option Row}
    (h : p.wp (fun a => Finished e (rows a)) (fun _ => CarriesOn e) e₁) :
    (thenCheckpoint p).wp (fun a e' => CarriesOn e e' ∧ e'.live = rows a) (fun _ => CarriesOn e) e₁ := by
  rw [thenCheckpoint, Prog.wp_bind]
  refine Prog.wp_mono h (fun a e₂ h₂ => ?_) fun _ _ h' => h'
  rw [Prog.wp_bind]
  refine Prog.wp_mono (h₂.wp fun _ _ _ => holding_maybeCheckpoint) (fun _ e₃ h₃ => ?_) fun _ _ h' => h'
  exact ⟨h₃.carriesOn, h₃.live_eq⟩

/-- The transaction has an id when a statement starts. -/
theorem wp_inTxn_assignXid (hm : Accounted e.txnMgr) (hs : Serial e) :
    (inTxn TransactionManager.assignXid).wp
      (fun xid e₀ => ∃ m, e₀ = e.setTxnMgr m ∧ CarriesOn e e₀ ∧ Accounted e₀.txnMgr ∧
        e₀.txnMgr.context.xid ≠ InvalidTransactionId ∧ xid = e₀.txnMgr.context.xid)
      (fun _ e₀ => CarriesOn e e₀) e := by
  rw [inTxn, Prog.wp_zoom]
  refine Prog.wp_mono (Prog.wp_and (goesOn_assignXid hm hs.alone) (Accounted.closed.keeps_assignXid _ hm))
    (fun _ m h => ?_) fun _ m h => carriesOn_of_goesOn h.1 hs
  exact ⟨m, rfl, carriesOn_of_goesOn h.1.1 hs, h.2, h.1.2.1, h.1.2.2⟩

variable {matches_ : Row → Bool} {p : Int64 → Row → Bool} {f : Row → Option Row}

/-- A statement that goes through the table. -/
theorem wp_scanning {table : Str} {mem : MemTable} (hm : Accounted e.txnMgr) (hs : Serial e)
    (body : Reader → List Tuple → Row → EngineM Unit) (hlooks : LooksAt matches_ p)
    (hmem : e.tableOf table = .ok mem) (hbody : ∀ e₀, Serial e₀ → e₀.live = e.live →
      e₀.txnMgr.context.xid ≠ InvalidTransactionId →
      Rewrites e₀ (e.resolveTableName table) p f (body e₀.reader mem.scanAll))
    {finish : StorageEngine → Nat → EngineM Nat}
    (hfinish : ∀ e₁ n e₀ added c, Prog.Keeps (Holding e₀ added c) (finish e₁ n)) : Prog.wp (do
      let _ ← inTxn TransactionManager.assignXid
      let e₀ ← Prog.get
      let count ← Prog.sumEach (onVisible e₀.reader matches_ (body e₀.reader mem.scanAll)) mem.scanAll
      finish e₀ count) (fun _ => Finished e (changed (e.resolveTableName table) p f e.live))
      (fun _ => CarriesOn e) e := by
  rw [Prog.wp_bind]
  refine Prog.wp_mono (wp_inTxn_assignXid hm hs) (fun _ e₀ h => ?_) fun _ _ h => h
  obtain ⟨m, rfl, h₀, hm₀, hxid, -⟩ := h
  rw [Prog.wp_bind, Prog.wp_get, Prog.wp_bind]
  refine Prog.wp_mono (wp_sumEach_working h₀.serial hm₀ hlooks (hbody _ h₀.serial rfl hxid)
    (tableOf_eq_ok.mp hmem)) (fun n e₁ h₁ => ?_) fun _ e₁ h₁ => ?_
  · obtain ⟨added, c, h₁, hshown⟩ := h₁
    exact Finished.wp (hfinish _ n) ⟨_, added, c, h₀, hxid, h₁, hshown⟩
  · obtain ⟨added, c, h₁⟩ := h₁
    exact h₀.trans (h₁.carriesOn h₀.serial fun _ => hxid)

theorem Serial.carriesOn (hs : Serial e) : CarriesOn e e :=
  (Working.start hs.kept).carriesOn hs fun h => absurd rfl h

/-- The rows of the table that match stay below the limit of the row format. -/
def Fits (e : StorageEngine) (q : Str) (p : Int64 → Row → Bool) (updates : Updates) : Prop :=
  ∀ id row, e.live ⟨q, id⟩ = some row → p id row = true →
    (business (applyUpdates row updates)).size < 65536

theorem business_applyUpdates (row : Row) (updates : Updates) :
    business (applyUpdates (business row) updates) = business (applyUpdates row updates) := by
  refine Std.ExtTreeMap.ext_getElem? fun k => ?_
  simp only [getElem?_business, getElem?_applyUpdates]
  split <;> rfl

theorem size_applyUpdates_pos {updates : Updates} (h : 0 < (business row).size) :
    0 < (business (applyUpdates row updates)).size := by
  rw [← Std.ExtTreeMap.length_keys] at h ⊢
  obtain ⟨k, hk⟩ := List.exists_mem_of_length_pos h
  obtain ⟨hmem, hsystem⟩ := mem_business.mp (Std.ExtTreeMap.mem_keys.mp hk)
  refine List.length_pos_of_mem (a := k) (Std.ExtTreeMap.mem_keys.mpr (mem_business.mpr ⟨?_, hsystem⟩))
  rw [Std.ExtTreeMap.mem_iff_isSome_getElem?] at hmem ⊢
  rw [getElem?_applyUpdates]
  cases updates[k]? with
  | none => exact hmem
  | some v => rfl

theorem rewrites_update {updates : Updates} (h₀ : Serial e₀)
    (hxid : e₀.txnMgr.context.xid ≠ InvalidTransactionId) (hfits : Fits e₀ q p updates)
    (all : List Tuple) : Rewrites e₀ q p (fun row => some (business (applyUpdates row updates)))
      (updateRowWithTxn q updates e₀.reader all) := by
  intro added c e id t row h hc hc₀ hrow hlive hp
  have hsized : Sized row := by
    obtain ⟨row', hrow', hsized⟩ := (h₀.kept.cells _ t hc₀).readable.read
    cases hrow.symm.trans hrow'
    exact hsized
  have hlive₀ : e₀.live ⟨q, id⟩ = some (business row) := by
    rw [live, hc₀, Option.bind_some, live_of_toRow hrow, if_pos hlive]
  have hsize := hfits id (business row) hlive₀ hp
  dsimp only
  rw [business_applyUpdates] at hsize ⊢
  exact wp_updateRowWithTxn_working hxid h hc hrow ⟨size_applyUpdates_pos hsized.1, hsize⟩ all

theorem rewrites_remove (hxid : e₀.txnMgr.context.xid ≠ InvalidTransactionId) :
    Rewrites e₀ q p (fun _ => none) (removeRowWithTxn q e₀.reader) :=
  fun _ _ _ _ _ _ h hc _ hrow hlive _ => wp_removeRowWithTxn_working hxid h hc hrow hlive

theorem wp_updateWithTxn_ledger {table : Str} (hm : Accounted e.txnMgr) (hs : Serial e)
    (hlooks : LooksAt matches_ p) {updates : Updates}
    (hfits : Fits e (e.resolveTableName table) p updates) :
    (updateWithTxn table matches_ updates).wp (fun _ e' => CarriesOn e e' ∧ e'.live =
      changed (e.resolveTableName table) p (fun row => some (business (applyUpdates row updates))) e.live)
      (fun _ => CarriesOn e) e := by
  refine wp_thenCheckpoint_finished ?_
  rw [updateWithTxnBody, Prog.wp_bind, Prog.wp_get]
  dsimp only
  rw [Prog.wp_bind, Prog.wp_ofExcept]
  refine ⟨fun mem hmem => ?_, fun _ _ => hs.carriesOn⟩
  refine wp_scanning hm hs (fun r all => updateRowWithTxn _ updates r all) hlooks hmem
    (fun e₀ h₀ hlive hxid => ?_) fun e₁ n e₀ added c =>
    (holding_rebuildIf _ _).bind fun _ => Prog.Keeps.pure n
  refine rewrites_update h₀ hxid (fun id row hrow => ?_) _
  rw [hlive] at hrow
  exact hfits id row hrow

theorem wp_removeWithTxn_ledger {table : Str} (hm : Accounted e.txnMgr) (hs : Serial e)
    (hlooks : LooksAt matches_ p) : (removeWithTxn table matches_).wp
      (fun _ e' => CarriesOn e e' ∧
        e'.live = changed (e.resolveTableName table) p (fun _ => none) e.live)
      (fun _ => CarriesOn e) e := by
  refine wp_thenCheckpoint_finished ?_
  rw [removeWithTxnBody, Prog.wp_bind, Prog.wp_get]
  dsimp only
  rw [Prog.wp_bind, Prog.wp_ofExcept]
  refine ⟨fun mem hmem => ?_, fun _ _ => hs.carriesOn⟩
  have hscan := wp_scanning hm hs (fun r _ => removeRowWithTxn _ r) hlooks hmem
    (fun _ _ _ hxid => rewrites_remove hxid) fun _ n _ _ _ => Prog.Keeps.pure n
  simpa only [bind_pure] using hscan

/-! ### Inserts -/

/-- A column of the user's, and no more columns than the row format can count. -/
structure Tabular (columns : List ColumnDef) : Prop where
  counted : columns.length < 65536
  business : ∃ col ∈ columns, isSystemColumn col.name = false

theorem sized_of_validate {schema : TableSchema} {validated : Row} (hcols : Tabular schema.columns)
    (h : e.validate schema row = .ok validated) : Sized validated := by
  have hcolumn (k : Str) := mem_validate h k
  constructor
  · obtain ⟨col, hcol, hsystem⟩ := hcols.business
    have hmem : col.name ∈ validated := by
      rw [Std.ExtTreeMap.mem_iff_isSome_getElem?]
      rcases hcolumn col.name with ⟨-, -, -, v, -, hvalue⟩ | ⟨hnone, -⟩
      · rw [hvalue]
        rfl
      · exact absurd rfl (hnone col hcol)
    rw [← Std.ExtTreeMap.length_keys]
    exact List.length_pos_of_mem (Std.ExtTreeMap.mem_keys.mpr (mem_business.mpr ⟨hmem, hsystem⟩))
  · have hsubset : (business validated).keys ⊆ schema.columns.map ColumnDef.name := by
      intro k hk
      obtain ⟨hmem, -⟩ := mem_business.mp (Std.ExtTreeMap.mem_keys.mp hk)
      rcases hcolumn k with ⟨col, hcol, hname, -⟩ | ⟨-, hnone⟩
      · exact List.mem_map.mpr ⟨col, hcol, hname⟩
      · rw [Std.ExtTreeMap.mem_iff_isSome_getElem?, hnone, Std.ExtTreeMap.getElem?_empty] at hmem
        cases hmem
    have hle := (List.Nodup.subperm Std.ExtTreeMap.nodup_keys hsubset).length_le
    rw [Std.ExtTreeMap.length_keys, List.length_map] at hle
    exact Nat.lt_of_le_of_lt hle hcols.counted

theorem rowIdOf_of_getRowId (h : getRowId row = .ok id) : rowIdOf row = id := by
  rw [getRowId] at h
  rw [rowIdOf]
  split at h
  · next hid =>
    rw [hid]
    exact Except.ok.inj h
  · cases h
  · cases h

theorem cell_of_cleared {mem : MemTable} (h : Cleared q id e.data) (hmem : e.data[q]? = some mem)
    (hsingle : mem.SingleVersion) : e.cell ⟨q, id⟩ = none := by
  cases hcell : e.cell ⟨q, id⟩ with
  | none => rfl
  | some t =>
    obtain ⟨ht, hid⟩ := (mem_of_cell hsingle hmem).mp hcell
    exact absurd hid (h mem hmem t ht)

theorem holding_nextRowId (q : Str) : Prog.Keeps (Holding e₀ added c) (nextRowId q) := by
  refine Prog.Keeps.get_bind fun e h => ?_
  dsimp only
  split
  · exact h
  · exact h.congr rfl rfl fun _ hq => hq

theorem holding_storeInserted_tail (q : Str) (id : Int64) (row : Row) :
    Prog.Keeps (Holding e₀ added c) (do
      Prog.modify (ε := Failure) (updateIndexes q id row)
      Prog.modify (setRowCount q)) :=
  (holding_updateIndexes q id row).bind fun _ => holding_setRowCount q

theorem shown_update (s : RowKey → Option Tuple) (k : RowKey) (t : Tuple) :
    shown (Function.update s k (some t)) = Function.update (shown s) k t.live := by
  funext k'
  by_cases hk : k' = k
  · subst hk
    rw [shown, Function.update_self, Function.update_self]
    rfl
  · rw [shown, Function.update_of_ne hk, Function.update_of_ne hk]
    rfl

/-- The new row has got its id, and no version is stored under it. -/
theorem wp_storeInserted_ledger {mem : MemTable} {validated : Row} (h₀ : CarriesOn e e₀)
    (hxid : e₀.txnMgr.context.xid ≠ InvalidTransactionId) (hmem : e₀.data[q]? = some mem)
    (hcleared : Cleared q id e₀.data) (hsized : Sized validated) (h : Working e₀ [] e₀.cell e₁)
    (hdata : e₁.data = e₀.data) : Prog.wp (do
      inTxn (Prog.modify (·.addUndoRecord ⟨.insert, q, id, ∅,
        stamp validated e₀.txnMgr.context.xid 0 e₀.txnMgr.context.commandId⟩))
      storeInserted q id (stamp validated e₀.txnMgr.context.xid 0 e₀.txnMgr.context.commandId)
        e₀.txnMgr.context.xid)
      (fun _ => Finished e (Function.update e₀.live ⟨q, id⟩ (some (business validated))))
      (fun _ => CarriesOn e) e₁ := by
  have hstopped {e' : StorageEngine} {added : List UndoRecord} {c : RowKey → Option Tuple}
      (h : Working e₀ added c e') : CarriesOn e e' := h₀.trans (h.carriesOn h₀.serial fun _ => hxid)
  have hnone := cell_of_cleared hcleared hmem (h₀.serial.kept.single q mem hmem)
  generalize hrow : stamp validated e₀.txnMgr.context.xid 0 e₀.txnMgr.context.commandId = row
  have hq : q ∈ e₁.data := by
    rw [hdata, Std.ExtTreeMap.mem_iff_isSome_getElem?, hmem]
    rfl
  have hold : UndoRecord.old ⟨.insert, q, id, ∅, row⟩ = none :=
    old_of_not_restores fun hrestores => hrestores (.inl rfl)
  have hadded := h.addUndoRecord (r := ⟨.insert, q, id, ∅, row⟩) hq
    (fun t ht => by rw [hold] at ht; cases ht) (hnone.trans hold.symm)
  rw [Prog.wp_bind, inTxn, Prog.wp_zoom, Prog.wp_modify, storeInserted, Prog.wp_bind]
  refine Prog.wp_mono (Prog.wp_and (working (holding_writeWal _ _ _ _) _ hadded)
    (sameTables_writeWal _ _ _ _ (.refl _))) (fun _ e₂ h₂ => ?_) fun _ _ h' => hstopped h'.1
  obtain ⟨h₂, hsame⟩ := h₂
  have hq₂ : q ∈ e₂.data := by
    rw [hsame.data]
    exact hq
  have hgood (t : Tuple) (ht : rowToTuple row (headerFromRow q id row) = .ok t) :
      Good e₀.txnMgr ⟨q, id⟩ t ∧ t.live = some (business validated) := by
    subst hrow
    exact good_of_stamp hxid hsized ht
  rw [Prog.wp_bind]
  refine Prog.wp_mono (h₂.toHolding.wp_putVersion hq₂ row hnone fun t ht => (hgood t ht).1)
    (fun _ e₃ h₃ => ?_) fun _ e₃ h₃ => hstopped (h₂.congr_holding h₃)
  obtain ⟨t, ht, h₃⟩ := h₃
  have hstored := h₂.update (covers_concat [] _) h₃
  refine Finished.wp (fun _ _ _ => holding_storeInserted_tail q id row)
    ⟨e₀, _, _, h₀, hxid, hstored, ?_⟩
  rw [shown_update, (hgood t ht).2]
  rfl

theorem getElem?_of_dataAt {mem : MemTable} (h : e.dataAt q = .ok mem) : e.data[q]? = some mem := by
  unfold dataAt at h
  split at h
  · cases h
    assumption
  · cases h

theorem wp_insertWithTxn_ledger {table : Str} (hsound : Sound e) (hm : Accounted e.txnMgr)
    (hs : Serial e) (hcols : ∀ schema, e.tables[e.resolveTableName table]? = some schema →
      Tabular schema.columns) (row : Row) :
    (insertWithTxn table row).wp (fun returned e' => CarriesOn e e' ∧ e'.live = Function.update e.live
      ⟨e.resolveTableName table, rowIdOf returned⟩ (some (business returned)))
      (fun _ => CarriesOn e) e := by
  refine wp_thenCheckpoint_finished ?_
  rw [insertWithTxnBody, Prog.wp_bind, Prog.wp_get]
  dsimp only
  split
  · exact hs.carriesOn
  next schema hschema =>
  rw [Prog.wp_bind, Prog.wp_ofExcept]
  refine ⟨fun validated hvalidated => ?_, fun _ _ => hs.carriesOn⟩
  have hq : e.resolveTableName table ∈ e.tables := by
    rw [Std.ExtTreeMap.mem_iff_isSome_getElem?, hschema]
    rfl
  have hstart : Working e [] e.cell e := .start hs.kept
  rw [Prog.wp_bind]
  refine Prog.wp_mono (Prog.wp_and (wp_nextRowId_orderly hsound.tables hq)
    (Prog.wp_and (working (holding_nextRowId _) e hstart) (ManagerInvariant.keeps_nextRowId _ e hm)))
    (fun id e₁ h₁ => ?_) fun _ e₁ h₁ => h₁.2.1.carriesOn hs fun h => absurd rfl h
  obtain ⟨⟨horderly, -⟩, h₁, hm₁⟩ := h₁
  have hcarries := h₁.carriesOn hs fun h => absurd rfl h
  have hassign : Prog.Keeps (Orderly (Cleared (e.resolveTableName table) id) ∅) (inTxn assignXid) :=
    orderly_inTxn fun _ => undoable_of_affects affects_assignXid
  rw [Prog.wp_bind]
  refine Prog.wp_mono (Prog.wp_and (wp_inTxn_assignXid hm₁ hcarries.serial) (hassign e₁ horderly))
    (fun xid e₂ h₂ => ?_) fun _ _ h' => hcarries.trans h'.1
  obtain ⟨⟨m, rfl, h₂, hm₂, hxid, rfl⟩, horderly₂⟩ := h₂
  have h₂ := hcarries.trans h₂
  rw [Prog.wp_bind, Prog.wp_get, Prog.wp_bind, Prog.wp_ofExcept]
  refine ⟨fun mem hmem => ?_, fun _ _ => h₂⟩
  have hmem : (e₁.setTxnMgr m).data[e.resolveTableName table]? = some mem := getElem?_of_dataAt hmem
  rw [Prog.wp_bind]
  refine Prog.wp_mono (Prog.wp_and (working (holding_checkUnique _ _ _ _ _) _ (.start h₂.serial.kept))
    (sameTables_inTxn _ _ (.refl _))) (fun _ e₃ h₃ => ?_) fun _ e₃ h₃ =>
      h₂.trans (h₃.1.carriesOn h₂.serial fun h => absurd rfl h)
  obtain ⟨h₃, hsame⟩ := h₃
  have hsized : Sized (validated.insert (str "_rowid") (.int id)) :=
    (sized_congr (business_insert_system rfl _)).mpr (sized_of_validate (hcols schema hschema) hvalidated)
  rw [← bind_assoc, Prog.wp_bind]
  refine Prog.wp_mono (wp_storeInserted_ledger h₂ hxid hmem horderly₂.phase hsized h₃ hsame.data)
    (fun _ e₄ h₄ => ?_) fun _ _ h' => h'
  have hlive : (e₁.setTxnMgr m).live = e.live := live_congr h₁.cell
  rw [Prog.wp_pure, business_stamp, rowIdOf_of_getRowId (getRowId_stamp _ _ _ _ _), ← hlive]
  exact h₄

/-! ### Undo -/

theorem Holding.wp_applyUndoRecord (h : Holding e₀ added c e) {r : UndoRecord}
    (hr : r ∈ e.txnMgr.context.undoRecords) : (applyUndoRecord r).wp
      (fun _ => Holding e₀ added (Function.update c r.entry.key r.old)) (fun _ _ => True) e := by
  obtain ⟨hdata, hgood⟩ := h.kept.undo r hr
  obtain ⟨mem, hmem⟩ := Option.isSome_iff_exists.mp (Std.ExtTreeMap.mem_iff_isSome_getElem?.mp hdata)
  rw [applyUndoRecord, Prog.wp_bind, Prog.wp_get, hmem, Prog.wp_bind]
  refine Prog.wp_mono (h.wp_eraseVersions hdata fun _ _ => True) (fun _ e₁ h₁ => ?_) fun _ _ h' => h'
  obtain ⟨h₁, hdata₁⟩ := h₁
  rw [Prog.wp_ite]
  split
  · next hnone =>
    rw [old_of_not_restores fun hrestores => hrestores hnone]
    exact h₁
  · next hrestores =>
    have hold {t : Tuple} (ht : rowToTuple r.oldRow (headerFromRow r.tableName r.rowId r.oldRow) = .ok t) :
        r.old = some t := by
      have hrestores : r.Restores := hrestores
      rw [UndoRecord.old, if_pos hrestores, ht]
      rfl
    refine Prog.wp_mono (h₁.wp_putVersion hdata₁ r.oldRow (Function.update_self _ _ _)
      fun t ht => hgood t (hold ht)) (fun _ e₂ h₂ => ?_) fun _ _ _ => trivial
    obtain ⟨t, ht, h₂⟩ := h₂
    rw [Function.update_idem] at h₂
    rw [hold ht]
    exact h₂

/-- The newest records are undone first. -/
theorem wp_applyUndoTo_ledger (hs : Serial e) (count : Nat) : (StorageEngine.applyUndoTo count).wp
    (fun _ => Holding e [] (UndoLog.undo (e.undoLog.drop (e.undoLog.length - count)) e.cell))
    (fun _ _ => True) e := by
  rw [StorageEngine.applyUndoTo, Prog.wp_bind, Prog.wp_get]
  dsimp only
  generalize hlast : (e.txnMgr.context.undoRecords.drop
    (e.txnMgr.context.undoRecords.length - count)).reverse = last
  have hundo : UndoLog.undo (last.reverse.map UndoRecord.entry) e.cell =
      UndoLog.undo (e.undoLog.drop (e.undoLog.length - count)) e.cell := by
    rw [← hlast, List.reverse_reverse, List.map_drop, undoLog, List.length_map]
  have hmem : ∀ r ∈ last, r ∈ e.txnMgr.context.undoRecords := by
    intro r hr
    rw [← hlast] at hr
    exact List.mem_of_mem_drop (List.mem_reverse.mp hr)
  rw [Prog.wp_bind]
  refine Prog.wp_mono (Prog.wp_forEach (fun done e' => Holding e []
    (UndoLog.undo (done.reverse.map UndoRecord.entry) e.cell) e') (fun done r rest hall e' h => ?_)
    (Holding.start hs.kept)) (fun _ e' h => ?_) fun _ _ h => h
  · have hr : r ∈ e'.txnMgr.context.undoRecords := by
      rw [h.context]
      apply List.mem_append_left
      apply hmem
      rw [hall]
      simp
    rw [List.reverse_append, List.reverse_singleton, List.singleton_append, List.map_cons,
      UndoLog.undo_cons]
    exact h.wp_applyUndoRecord hr
  · rw [hundo] at h
    exact Prog.wp_mono (Prog.Keeps.forEach (fun r _ => holding_rebuildIndexes r.tableName) e' h)
      (fun _ _ h' => h') fun _ _ _ => trivial

/-! ### Other calls -/

/-- The calls that touch neither rows nor transactions. -/
def NeutralCall : Call → Prop
  | .createDatabase _ | .createSchema .. | .createUser .. | .dropUser _ | .setCurrentDb _
  | .createTable .. | .createIndex .. | .writeXactCommit _ | .writeXactAbort _ | .setClock _ => True
  | _ => False

theorem holding_inCatalog {α : Type} (p : CatalogM α) : Prog.Keeps (Holding e₀ added c) (inCatalog p) := by
  intro e h
  rw [inCatalog, Prog.wp_zoom]
  exact Prog.wp_mono (Prog.wp_true p) (fun _ _ _ => h.congr rfl rfl fun _ hq => hq)
    fun _ _ _ => h.congr rfl rfl fun _ hq => hq

theorem holding_catalogBody (call : CatalogM Unit) (op : WalOp) (name : Str) (payload : Bytes) :
    Prog.Keeps (Holding e₀ added c) (catalogBody call op name payload) :=
  (holding_inCatalog _).bind fun _ => holding_writeWal _ _ _ _

theorem holding_createIndex (table column : Str) :
    Prog.Keeps (Holding e₀ added c) (createIndex table column) := by
  refine Prog.Keeps.get_bind fun e h => ?_
  dsimp only
  split
  · exact h
  · split
    · exact h
    · split
      · exact h.congr rfl rfl fun _ hq => hq
      · split
        · exact h.congr rfl rfl fun _ hq => hq
        · exact h

/-- A new table has no rows. -/
theorem Holding.resetTable (h : Holding e₀ added c e) (hq : q ∉ e.tables) (columns : List ColumnDef) :
    Holding e₀ added c (resetTable q columns e) := by
  have hnone : e.data[q]? = none := Std.ExtTreeMap.getElem?_eq_none fun hmem => hq (h.kept.domain q hmem)
  have hcell : (StorageEngine.resetTable q columns e).cell = e.cell := by
    funext k
    change ((e.data.insert q (MemTable.create q))[k.table]?).bind (·.getLatest k.rowId) = _
    rw [Std.ExtTreeMap.getElem?_insert, StorageEngine.cell]
    split
    · next heq =>
      rw [← Std.LawfulEqCmp.eq_of_compare heq, hnone]
      rfl
    · rfl
  refine ⟨⟨fun q' hq' => ?_, fun q' mem hmem => ?_, ?_, fun r hr => ?_⟩, h.next, h.active, h.clog,
    h.context, hcell.trans h.cell⟩
  · rcases Std.ExtTreeMap.mem_insert.mp hq' with hq' | hq'
    · exact Std.ExtTreeMap.mem_insert.mpr (.inl hq')
    · exact Std.ExtTreeMap.mem_insert.mpr (.inr (h.kept.domain q' hq'))
  · change (e.data.insert q (MemTable.create q))[q']? = some mem at hmem
    rw [Std.ExtTreeMap.getElem?_insert] at hmem
    split at hmem
    · cases hmem
      exact MemTable.SingleVersion.create q
    · exact h.kept.single q' mem hmem
  · rw [hcell]
    exact h.kept.cells
  · exact ⟨Std.ExtTreeMap.mem_insert.mpr (.inr (h.kept.undo r hr).1), (h.kept.undo r hr).2⟩

theorem holding_createTableBody (name : Str) (columns : List ColumnDef) :
    Prog.Keeps (Holding e₀ added c) (createTableBody name columns) := by
  refine Prog.Keeps.get_bind fun e h => ?_
  dsimp only
  rw [Prog.wp_ite]
  split
  · exact h
  rename_i hq
  have hkeys : Prog.Keeps (Holding e₀ added c)
      (createKeyIndexes (e.resolveTableName name) columns) :=
    Prog.Keeps.forEach fun _ _ => Prog.Keeps.ite (fun _ => holding_createIndex _ _) fun _ =>
      Prog.Keeps.pure _
  have hnew : e.resolveTableName name ∉ e.tables := by simpa using hq
  rw [Prog.wp_bind]
  refine wp_writeWal (fun _ => h) fun dir wal _ => ?_
  have hlogged : Holding e₀ added c { e with walSeq := e.walSeq + 1, dir := dir, wal := wal } :=
    h.congr rfl rfl fun _ hq => hq
  exact hkeys _ (hlogged.resetTable hnew columns)

theorem holding_exec {call : Call} (hc : NeutralCall call) : Prog.Keeps (Holding e₀ added c) call.exec := by
  have hbody : Prog.Keeps (Holding e₀ added c) call.body := by
    cases call with
    | createDatabase name => exact holding_catalogBody _ _ _ _
    | createSchema dbName schemaName => exact holding_catalogBody _ _ _ _
    | createUser name password salt => exact holding_catalogBody _ _ _ _
    | dropUser name => exact holding_catalogBody _ _ _ _
    | setCurrentDb name => exact holding_inCatalog (Catalog.setCurrentDatabase name)
    | createTable name columns => exact holding_createTableBody name columns
    | createIndex table column => exact holding_createIndex table column
    | writeXactCommit xid => exact holding_writeWal _ _ _ _
    | writeXactAbort xid => exact holding_writeWal _ _ _ _
    | setClock clock => exact holding_frame fun _ => ⟨rfl, rfl, fun _ hq => hq⟩
    | _ => exact hc.elim
  rw [Call.exec_eq]
  exact Prog.Keeps.ite (fun _ => hbody.bind fun _ => holding_maybeCheckpoint.bind fun _ =>
    Prog.Keeps.pure _) fun _ => hbody

end CarriesOn
end StorageEngine

end JiaMiaoDB
