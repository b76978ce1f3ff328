import JiaMiaoDB.Storage.TransactionStatements

/-!
# The ledger of transactions that run one at a time

An abstract account of the rows: what has been committed, what the current transaction has made of it,
and what it was at each savepoint. The tables hold what the ledger says, so that a rollback brings back
exactly the rows that were committed, and a rollback to a savepoint those of the savepoint.
-/

set_option autoImplicit false

namespace JiaMiaoDB
open TransactionManager StorageEngine BinaryRowCodec

/-- The rows of all tables, by their columns. -/
abbrev Rows := RowKey → Option Row

/-- The newest savepoint comes first. -/
structure Ledger where
  committed : Rows
  current : Rows
  savepoints : List (Str × Rows)

namespace Ledger

def empty : Ledger := ⟨fun _ => none, fun _ => none, []⟩

def write (l : Ledger) (rows : Rows) : Ledger := { l with current := rows }

def insert (l : Ledger) (k : RowKey) (row : Row) : Ledger := l.write (Function.update l.current k (some row))

def update (l : Ledger) (q : Str) (p : Int64 → Row → Bool) (updates : Updates) : Ledger :=
  l.write (changed q p (fun row => some (business (applyUpdates row updates))) l.current)

def remove (l : Ledger) (q : Str) (p : Int64 → Row → Bool) : Ledger :=
  l.write (changed q p (fun _ => none) l.current)

def savepoint (l : Ledger) (name : Str) : Ledger :=
  { l with savepoints := (name, l.current) :: l.savepoints }

/-- The newest savepoint of that name and those set before it. -/
def find (l : Ledger) (name : Str) : Option (Rows × List (Str × Rows)) :=
  match l.savepoints.dropWhile (·.1 ≠ name) with
  | [] => none
  | mark :: before => some (mark.2, before)

/-- The savepoint goes, with all that have been set after it. -/
def release (l : Ledger) (name : Str) : Ledger :=
  (l.find name).elim l fun p => { l with savepoints := p.2 }

def rollbackTo (l : Ledger) (name : Str) : Ledger :=
  (l.find name).elim l fun p => { l with current := p.1, savepoints := p.2 }

/-- A transaction that has changed nothing keeps its savepoints. -/
def commit (l : Ledger) (unchanged : Bool) : Ledger :=
  ⟨l.current, l.current, if unchanged then l.savepoints else []⟩

def rollback (l : Ledger) : Ledger := ⟨l.committed, l.committed, []⟩

/-- The way back to a savepoint forgets what has been written since. -/
@[simp] theorem rollbackTo_savepoint (l : Ledger) (name : Str) (rows : Rows) :
    ((l.savepoint name).write rows).rollbackTo name = l := by
  simp [rollbackTo, find, savepoint, write]

end Ledger

namespace StorageEngine

/-- Back to a savepoint: the manager says how many records to undo. -/
def rollbackTo (name : Str) : EngineM Unit := do
  let count ← inTxn (TransactionManager.rollbackToSavepoint name)
  StorageEngine.applyUndoTo count

def rollback : EngineM Unit := do
  applyUndo
  inTxn (Prog.modify TransactionManager.abortTransaction)

/-- The savepoint is at a position of the undo log from which the log brings the rows of the mark back. -/
structure Marks (e : StorageEngine) (sp : Savepoint) (mark : Str × Rows) : Prop where
  name : sp.name = mark.1
  rows : ∃ s, Recalls e sp.undoPosition s ∧ shown s = mark.2

/-- The tables hold what the ledger says. -/
structure Represents (e : StorageEngine) (l : Ledger) : Prop where
  serial : Serial e
  current : e.live = l.current
  committed : ∃ base, Recalls e 0 base ∧ (∀ k t, base k = some t → e.txnMgr.Settles t) ∧
    shown base = l.committed
  marks : List.Forall₂ (Marks e) e.txnMgr.context.savepoints.reverse l.savepoints
  ordered : e.txnMgr.context.savepoints.reverse.Pairwise fun sp sp' => sp'.undoPosition ≤ sp.undoPosition

section Represents
variable {e e' : StorageEngine} {l : Ledger}

theorem represents_create (d : Disk) (interval : Int32) (clock : Int64) :
    Represents (create d interval clock) .empty := by
  have hcell : (create d interval clock).cell = fun _ => none := by
    funext k
    rw [cell, create, Std.ExtTreeMap.getElem?_empty]
    rfl
  have halone : Alone (create d interval clock).txnMgr := by
    refine ⟨fun x hx => ?_, fun h => ?_, fun _ => rfl⟩
    · exact absurd hx Std.ExtTreeSet.not_mem_empty
    · cases h
  have hkept : Kept (create d interval clock).txnMgr (create d interval clock) := by
    refine ⟨fun q hq => absurd hq Std.ExtTreeMap.not_mem_empty, fun q mem hmem => ?_, fun k t hk => ?_,
      fun r hr => absurd hr List.not_mem_nil⟩
    · rw [create, Std.ExtTreeMap.getElem?_empty] at hmem
      cases hmem
    · rw [hcell] at hk
      cases hk
  refine ⟨⟨halone, hkept⟩, ?_, ⟨_, ⟨Nat.zero_le _, hcell⟩, ?_, rfl⟩, .nil, .nil⟩
  · rw [live_eq_shown, hcell]
    rfl
  · intro k t hk
    cases hk

/-- The transaction goes on. -/
theorem Represents.write (h : Represents e l) (hc : CarriesOn e e') {rows : Rows} (hlive : e'.live = rows) :
    Represents e' (l.write rows) where
  serial := hc.serial
  current := hlive
  committed := by
    obtain ⟨base, hrecalls, hsettled, hshown⟩ := h.committed
    exact ⟨base, hc.recalls _ _ hrecalls, fun k t ht => hc.settles t (hsettled k t ht), hshown⟩
  marks := by
    rw [hc.savepoints]
    refine h.marks.imp fun sp mark hmark => ⟨hmark.name, ?_⟩
    obtain ⟨s, hs, hshown⟩ := hmark.rows
    exact ⟨s, hc.recalls _ _ hs, hshown⟩
  ordered := by
    rw [hc.savepoints]
    exact h.ordered

theorem Represents.same (h : Represents e l) (hc : CarriesOn e e') (hcell : e'.cell = e.cell) :
    Represents e' l := by
  have hrows := h.write hc (live_congr hcell)
  rw [h.current] at hrows
  exact hrows

/-! ### Savepoints -/

theorem Serial.setSavepoints (hs : Serial e) (savepoints : List Savepoint) :
    Serial (e.setTxnMgr (e.txnMgr.setContext { e.txnMgr.context with savepoints := savepoints })) := by
  refine ⟨⟨hs.alone.active, hs.alone.held, hs.alone.undo⟩, hs.kept.domain, hs.kept.single,
    fun k t ht => ?_, fun r hr => ⟨(hs.kept.undo r hr).1, fun t ht => ?_⟩⟩
  · exact (hs.kept.cells k t ht).mono (fun _ h => h) fun _ => ⟨rfl, Int32.le_refl _⟩
  · exact ((hs.kept.undo r hr).2 t ht).mono (fun _ h => h) fun _ => ⟨rfl, Int32.le_refl _⟩

/-- Only the savepoints change. -/
theorem Represents.setSavepoints (h : Represents e l) {savepoints : List Savepoint}
    {marks : List (Str × Rows)} (hmarks : List.Forall₂ (Marks e) savepoints.reverse marks)
    (hordered : savepoints.reverse.Pairwise fun sp sp' => sp'.undoPosition ≤ sp.undoPosition) :
    Represents (e.setTxnMgr (e.txnMgr.setContext { e.txnMgr.context with savepoints := savepoints }))
      { l with savepoints := marks } where
  serial := h.serial.setSavepoints savepoints
  current := h.current
  committed := by
    obtain ⟨base, hrecalls, hsettled, hshown⟩ := h.committed
    exact ⟨base, hrecalls.congr rfl rfl, fun k t ht => (hsettled k t ht).congr fun _ hx => hx, hshown⟩
  marks := by
    refine hmarks.imp fun sp mark hmark => ⟨hmark.name, ?_⟩
    obtain ⟨s, hs, hshown⟩ := hmark.rows
    exact ⟨s, hs.congr rfl rfl, hshown⟩
  ordered := hordered

theorem exists_of_forall₂ {α β : Type} {R : α → β → Prop} {as : List α} {bs : List β}
    (h : List.Forall₂ R as bs) {a : α} (ha : a ∈ as) : ∃ b, R a b := by
  induction h with
  | nil => cases ha
  | cons hab _ ih =>
    rcases List.mem_cons.mp ha with rfl | ha
    · exact ⟨_, hab⟩
    · exact ih ha

theorem forall₂_imp_mem {α β : Type} {R S : α → β → Prop} {as : List α} {bs : List β}
    (h : List.Forall₂ R as bs) (himp : ∀ a ∈ as, ∀ b, R a b → S a b) : List.Forall₂ S as bs := by
  induction h with
  | nil => exact .nil
  | cons hab _ ih =>
    obtain ⟨hhead, htail⟩ := List.forall_mem_cons.mp himp
    exact .cons (hhead _ hab) (ih htail)

theorem Represents.position_le (h : Represents e l) {sp : Savepoint}
    (hsp : sp ∈ e.txnMgr.context.savepoints.reverse) : sp.undoPosition ≤ e.undoLog.length := by
  obtain ⟨mark, hmark⟩ := exists_of_forall₂ h.marks hsp
  obtain ⟨s, hs, -⟩ := hmark.rows
  exact hs.le

theorem Represents.savepoint (h : Represents e l) (name : Str) :
    Represents (e.setTxnMgr (e.txnMgr.savepoint name)) (l.savepoint name) := by
  have hlength : e.txnMgr.context.undoRecords.length = e.undoLog.length := (List.length_map _).symm
  refine h.setSavepoints ?_ ?_
  · rw [List.reverse_append, List.reverse_singleton, List.singleton_append, hlength]
    refine .cons ⟨rfl, e.cell, ⟨Nat.le_refl _, ?_⟩, h.current⟩ h.marks
    rw [List.drop_length]
    rfl
  · rw [List.reverse_append, List.reverse_singleton, List.singleton_append, List.pairwise_cons, hlength]
    exact ⟨fun sp hsp => h.position_le hsp, h.ordered⟩

theorem forall₂_dropWhile {α β : Type} {R : α → β → Prop} {p : α → Bool} {p' : β → Bool}
    (hp : ∀ a b, R a b → p a = p' b) {as : List α} {bs : List β} (h : List.Forall₂ R as bs) :
    List.Forall₂ R (as.dropWhile p) (bs.dropWhile p') := by
  induction h with
  | nil => exact .nil
  | @cons a b as bs hab hrest ih =>
    rw [List.dropWhile_cons, List.dropWhile_cons, hp a b hab]
    split
    · exact ih
    · exact .cons hab hrest

/-- The savepoint that the manager finds is the one in the ledger. -/
structure Finds (e : StorageEngine) (l : Ledger) (name : Str) (sp : Savepoint)
    (before : List Savepoint) (rows : Rows) (marks : List (Str × Rows)) : Prop where
  find : l.find name = some (rows, marks)
  recalls : ∃ s, Recalls e sp.undoPosition s ∧ shown s = rows
  marks : List.Forall₂ (Marks e) before.reverse marks
  ordered : before.reverse.Pairwise fun sp sp' => sp'.undoPosition ≤ sp.undoPosition
  le : ∀ sp' ∈ before.reverse, sp'.undoPosition ≤ sp.undoPosition

theorem Represents.finds (h : Represents e l) {name : Str} {sp : Savepoint} {before : List Savepoint}
    (hfind : findSavepoint name e.txnMgr.context.savepoints = some (sp, before)) :
    ∃ rows marks, Finds e l name sp before rows marks := by
  have hdrop := forall₂_dropWhile (p := fun sp : Savepoint => sp.name ≠ name)
    (fun sp mark hmark => by rw [hmark.name]) h.marks
  have hordered := h.ordered.sublist (List.dropWhile_sublist fun sp : Savepoint => sp.name ≠ name)
  rw [findSavepoint] at hfind
  split at hfind
  · cases hfind
  next sp' rest hrest =>
  cases hfind
  rw [hrest] at hdrop hordered
  cases hmarks : l.savepoints.dropWhile fun mark => decide (mark.1 ≠ name) with
  | nil =>
    rw [hmarks] at hdrop
    cases hdrop
  | cons mark marks =>
    rw [hmarks] at hdrop
    obtain ⟨hmark, hbefore⟩ := List.forall₂_cons.mp hdrop
    obtain ⟨hle, hordered⟩ := List.pairwise_cons.mp hordered
    refine ⟨mark.2, marks, ?_, hmark.rows, ?_, ?_, ?_⟩
    · rw [Ledger.find, hmarks]
    · rw [List.reverse_reverse]
      exact hbefore
    · rw [List.reverse_reverse]
      exact hordered
    · rw [List.reverse_reverse]
      exact hle

theorem Represents.release (h : Represents e l) {name : Str} {m : TransactionManager}
    (hrun : (releaseSavepoint name).run e.txnMgr = (.ok (), m)) :
    Represents (e.setTxnMgr m) (l.release name) := by
  rw [releaseSavepoint, Prog.bind_ok (Prog.run_get _)] at hrun
  split at hrun
  · cases hrun
  next sp before hfind =>
  cases hrun
  obtain ⟨rows, marks, hfinds⟩ := h.finds hfind
  rw [Ledger.release, hfinds.find]
  exact h.setSavepoints hfinds.marks hfinds.ordered

/-! ### Going back -/

/-- What the undo log brings back from a position on. -/
theorem Recalls.of_undone {n p : Nat} {s : RowKey → Option Tuple} (h : Recalls e n s) (hle : n ≤ p)
    (hundo : e'.txnMgr.context.undoRecords = e.txnMgr.context.undoRecords)
    (hcell : e'.cell = UndoLog.undo (e.undoLog.drop p) e.cell) : Recalls e' n s := by
  have hlog : e'.undoLog = e.undoLog := by rw [undoLog, hundo, undoLog]
  constructor
  · rw [hlog]
    exact h.le
  · rw [hlog, hcell, UndoLog.undo_drop_undo_drop _ hle]
    exact h.undo

theorem Holding.serial {e₀ : StorageEngine} {c : RowKey → Option Tuple} (h : Holding e₀ [] c e)
    (h₀ : Serial e₀) : Serial e := by
  have hctx : e.txnMgr.context = e₀.txnMgr.context := by rw [h.context, List.append_nil]
  have hgood {k : RowKey} {t : Tuple} (ht : Good e₀.txnMgr k t) : Good e.txnMgr k t := by
    refine ht.mono (fun x hx => ?_) fun _ => ?_
    · rw [h.clog]
      exact hx
    · rw [hctx]
      exact ⟨rfl, Int32.le_refl _⟩
  refine ⟨h₀.alone.congr h.active (by rw [hctx]) (by rw [hctx]) fun hheld => ?_, h.kept.domain,
    h.kept.single, fun k t ht => hgood (h.kept.cells k t ht), fun r hr => ?_⟩
  · rw [hctx] at hheld ⊢
    exact ⟨hheld, rfl⟩
  · obtain ⟨hdata, hold⟩ := h.kept.undo r hr
    exact ⟨hdata, fun t ht => hgood (hold t ht)⟩

theorem Holding.settles {e₀ : StorageEngine} {c : RowKey → Option Tuple} (h : Holding e₀ [] c e)
    {t : Tuple} (ht : e₀.txnMgr.Settles t) : e.txnMgr.Settles t := by
  refine ht.congr fun x hx => ?_
  rw [h.clog]
  exact hx

theorem run_inTxn_ok {α : Type} {p : TxnM α} {a : α} (h : (inTxn p).run e = (.ok a, e')) :
    ∃ m, p.run e.txnMgr = (.ok a, m) ∧ e' = e.setTxnMgr m := by
  obtain ⟨hresult, rfl⟩ := Prod.mk.inj h
  exact ⟨_, Prod.ext hresult rfl, rfl⟩

theorem run_rollbackToSavepoint {m m' : TransactionManager} {name : Str} {count : Nat}
    (h : (rollbackToSavepoint name).run m = (.ok count, m')) : ∃ sp before,
      findSavepoint name m.context.savepoints = some (sp, before) ∧
      m' = m.setContext { m.context with savepoints := before } ∧
      count = m.context.undoRecords.length - sp.undoPosition := by
  rw [rollbackToSavepoint, Prog.bind_ok (Prog.run_get _)] at h
  split at h
  · cases h
  next sp before hfind =>
  cases h
  exact ⟨sp, before, hfind, rfl, rfl⟩

theorem Represents.rollbackTo (h : Represents e l) {name : Str}
    (hrun : (StorageEngine.rollbackTo name).run e = (.ok (), e')) : Represents e' (l.rollbackTo name) := by
  obtain ⟨count, e₁, hcall, hundo⟩ := Prog.exists_of_bind_ok hrun
  obtain ⟨m, hmanager, rfl⟩ := run_inTxn_ok hcall
  obtain ⟨sp, before, hfind, rfl, rfl⟩ := run_rollbackToSavepoint hmanager
  obtain ⟨rows, marks, hfinds⟩ := h.finds hfind
  have h₁ := h.setSavepoints hfinds.marks hfinds.ordered
  obtain ⟨s, hs, hshown⟩ := hfinds.recalls
  have hlength : e.txnMgr.context.undoRecords.length = e.undoLog.length := (List.length_map _).symm
  have hback := Prog.wp_ok (wp_applyUndoTo_ledger h₁.serial _) hundo
  generalize he₁ : e.setTxnMgr (e.txnMgr.setContext { e.txnMgr.context with savepoints := before }) = e₁
    at h₁ hback
  have hlog : e₁.undoLog = e.undoLog := by
    rw [← he₁]
    rfl
  have hcell : e₁.cell = e.cell := by
    rw [← he₁]
    rfl
  have hs₁ : Recalls e₁ sp.undoPosition s := by
    rw [← he₁]
    exact hs.congr rfl rfl
  rw [hlength, ← hlog, Nat.sub_sub_self hs₁.le] at hback
  have hctx : e'.txnMgr.context = e₁.txnMgr.context := by rw [hback.context, List.append_nil]
  have hrecords : e'.txnMgr.context.undoRecords = e₁.txnMgr.context.undoRecords := by rw [hctx]
  have hsave : e'.txnMgr.context.savepoints = before := by
    rw [hctx, ← he₁]
    rfl
  rw [Ledger.rollbackTo, hfinds.find]
  refine ⟨hback.serial h₁.serial, ?_, ?_, ?_, ?_⟩
  · rw [live_eq_shown, hback.cell, hs₁.undo]
    exact hshown
  · obtain ⟨base, hrecalls, hsettled, hbase⟩ := h₁.committed
    exact ⟨base, hrecalls.of_undone (Nat.zero_le _) hrecords hback.cell,
      fun k t ht => hback.settles (hsettled k t ht), hbase⟩
  · rw [hsave]
    refine forall₂_imp_mem hfinds.marks fun sp' hsp mark hmark => ⟨hmark.name, ?_⟩
    obtain ⟨s', hs', hrows⟩ := hmark.rows
    have hs' : Recalls e₁ sp'.undoPosition s' := by
      rw [← he₁]
      exact hs'.congr rfl rfl
    exact ⟨s', hs'.of_undone (hfinds.le sp' hsp) hrecords hback.cell, hrows⟩
  · rw [hsave]
    exact hfinds.ordered

/-! ### The end of a transaction -/

/-- The context is empty and the versions are settled. -/
theorem serial_of_settled (hs : Serial e) {m : TransactionManager} (hundo : m.context.undoRecords = [])
    (hactive : ∀ x, x ∉ m.activeXids) (hheld : m.context.hasSnapshot = false)
    (hsettled : ∀ k t, e.cell k = some t → m.Settles t) : Serial (e.setTxnMgr m) := by
  refine ⟨⟨fun x hx => absurd hx (hactive x), fun h => ?_, fun _ => hundo⟩, hs.kept.domain, hs.kept.single,
    fun k t ht => ?_, fun r hr => ?_⟩
  · have hheld' : m.context.hasSnapshot = true := h
    rw [hheld] at hheld'
    cases hheld'
  · have hgood := hs.kept.cells k t ht
    exact ⟨hgood.readable, hgood.rowId, .settled (hsettled k t ht)⟩
  · have hr' : r ∈ m.context.undoRecords := hr
    rw [hundo] at hr'
    cases hr'

theorem Represents.ended {m : TransactionManager} (hs : Serial e) (hundo : m.context.undoRecords = [])
    (hactive : ∀ x, x ∉ m.activeXids) (hheld : m.context.hasSnapshot = false)
    (hsave : m.context.savepoints = []) (hsettled : ∀ k t, e.cell k = some t → m.Settles t) :
    Represents (e.setTxnMgr m) ⟨e.live, e.live, []⟩ := by
  have hlog : (e.setTxnMgr m).undoLog = [] := by
    change m.context.undoRecords.map UndoRecord.entry = []
    rw [hundo]
    rfl
  have hsave' : (e.setTxnMgr m).txnMgr.context.savepoints = [] := hsave
  refine ⟨serial_of_settled hs hundo hactive hheld hsettled, rfl, ⟨e.cell, ⟨Nat.zero_le _, ?_⟩,
    hsettled, rfl⟩, ?_, ?_⟩
  · rw [hlog]
    rfl
  · rw [hsave']
    exact .nil
  · rw [hsave']
    exact .nil

/-- Nobody is active when the only transaction has ended. -/
theorem not_mem_erase {m : TransactionManager} (ha : Alone m) (x : TransactionId) :
    x ∉ m.activeXids.erase m.context.xid := by
  intro hx
  obtain ⟨hne, hx⟩ := Std.ExtTreeSet.mem_erase.mp hx
  exact hne (by rw [ha.active x hx]; exact Std.ReflCmp.compare_self)

theorem not_mem_active {m : TransactionManager} (hm : Accounted m) (ha : Alone m)
    (hidle : m.context.xid = InvalidTransactionId) (x : TransactionId) : x ∉ m.activeXids :=
  fun hx => hm.ne_of_active hx ((ha.active x hx).trans hidle)

/-- Another outcome takes nothing from those that have committed. -/
theorem committed_setStatus {m : TransactionManager} (hm : Accounted m)
    (hxid : m.context.xid ≠ InvalidTransactionId) (status : TransactionStatus) (x : TransactionId)
    (hx : m.clog.getStatus x = .committed) :
    (m.clog.setStatus m.context.xid status).getStatus x = .committed := by
  rw [CLog.getStatus_setStatus_of_ne]
  · exact hx
  · rintro rfl
    rw [(hm.active _ (hm.current hxid)).2.2] at hx
    cases hx

/-- Between transactions everything that is stored has been committed. -/
theorem Represents.current_eq (h : Represents e l) (hidle : e.txnMgr.context.xid = InvalidTransactionId) :
    l.current = l.committed := by
  obtain ⟨base, hrecalls, -, hshown⟩ := h.committed
  have hlog : e.undoLog = [] := by
    rw [undoLog, h.serial.alone.undo hidle]
    rfl
  have hcell := hrecalls.undo
  rw [hlog] at hcell
  rw [← h.current, ← hshown, ← hcell]
  rfl

theorem Represents.commit (h : Represents e l) (hm : Accounted e.txnMgr) {m : TransactionManager}
    (hrun : commitTransaction.run e.txnMgr = (.ok (), m)) : Represents (e.setTxnMgr m)
      (l.commit (e.txnMgr.context.xid = InvalidTransactionId)) := by
  have ha := h.serial.alone
  rw [commitTransaction, Prog.bind_ok (Prog.run_get _)] at hrun
  dsimp only at hrun
  by_cases hidle : e.txnMgr.context.xid = InvalidTransactionId
  · rw [if_pos hidle] at hrun
    cases hrun
    -- nothing but the snapshot goes
    have hcurrent := h.current_eq hidle
    have hgoes : GoesOn e.txnMgr { e.txnMgr with
        activeXids := e.txnMgr.activeXids.erase e.txnMgr.context.xid
        context := { e.txnMgr.context with undoRecords := [], hasSnapshot := false } } := by
      refine ⟨fun _ hx => hx, fun hne => absurd hidle hne, (ha.undo hidle).symm, rfl,
        fun x hx => absurd hx (not_mem_erase ha x), fun hheld => ?_, fun _ => rfl⟩
      cases hheld
    have hsame := h.same (carriesOn_of_goesOn hgoes h.serial) rfl
    have hl : l.commit (e.txnMgr.context.xid = InvalidTransactionId) = l := by
      rw [Ledger.commit, decide_eq_true hidle, if_pos rfl]
      exact congrArg (fun rows => (⟨rows, l.current, l.savepoints⟩ : Ledger)) hcurrent
    rw [hl]
    exact hsame
  · rw [if_neg hidle] at hrun
    split at hrun
    · cases hrun
    cases hrun
    have hl : l.commit (e.txnMgr.context.xid = InvalidTransactionId) = ⟨e.live, e.live, []⟩ := by
      rw [Ledger.commit, decide_eq_false hidle, if_neg Bool.false_ne_true, h.current]
    rw [hl]
    refine .ended h.serial rfl (not_mem_erase ha) rfl rfl fun k t ht => ?_
    refine (h.serial.kept.cells k t ht).stamps.committed ?_ fun _ => ?_
    · exact committed_setStatus hm hidle .committed
    · exact CLog.getStatus_setStatus_self _ _ _

theorem Represents.rollback (h : Represents e l) (hm : Accounted e.txnMgr)
    (hrun : StorageEngine.rollback.run e = (.ok (), e')) : Represents e' l.rollback := by
  obtain ⟨⟨⟩, e₁, hundo, habort⟩ := Prog.exists_of_bind_ok hrun
  cases habort
  have hlength : e.txnMgr.context.undoRecords.length = e.undoLog.length := (List.length_map _).symm
  rw [applyUndo, Prog.bind_ok (Prog.run_get _), hlength] at hundo
  have hback := Prog.wp_ok (wp_applyUndoTo_ledger h.serial _) hundo
  rw [Nat.sub_self] at hback
  obtain ⟨base, hrecalls, hsettled, hshown⟩ := h.committed
  have hlive : e₁.live = l.committed := by
    rw [live_eq_shown, hback.cell, hrecalls.undo, hshown]
  have hl : l.rollback = ⟨e₁.live, e₁.live, []⟩ := by rw [Ledger.rollback, hlive]
  have hctx : e₁.txnMgr.context = e.txnMgr.context := by rw [hback.context, List.append_nil]
  have hs₁ := hback.serial h.serial
  have hm₁ : Accounted e₁.txnMgr := by
    have hkept := (ManagerInvariant.keeps_applyUndoTo e.undoLog.length).final hm
    rw [hundo] at hkept
    exact hkept
  have hsettled₁ (k : RowKey) (t : Tuple) (ht : e₁.cell k = some t) : e₁.txnMgr.Settles t := by
    rw [hback.cell, hrecalls.undo] at ht
    exact hback.settles (hsettled k t ht)
  rw [hl]
  change Represents (e₁.setTxnMgr e₁.txnMgr.abortTransaction) _
  unfold TransactionManager.abortTransaction
  dsimp only
  split
  · next hxid =>
    exact .ended hs₁ rfl (not_mem_erase hs₁.alone) rfl rfl fun k t ht =>
      (hsettled₁ k t ht).congr (committed_setStatus hm₁ hxid .aborted)
  · next hidle =>
    have hnone := not_mem_active hm₁ hs₁.alone (not_not.mp hidle)
    exact .ended hs₁ rfl hnone rfl rfl fun k t ht => (hsettled₁ k t ht).congr fun _ hx => hx

/-- Between transactions the context starts anew. -/
theorem Represents.resetContext (h : Represents e l) (hm : Accounted e.txnMgr)
    (hidle : e.txnMgr.context.xid = InvalidTransactionId) :
    Represents (e.setTxnMgr e.txnMgr.resetContext) l.rollback := by
  have hl : l.rollback = ⟨e.live, e.live, []⟩ := by
    rw [Ledger.rollback, ← h.current_eq hidle, h.current]
  have hnone := not_mem_active hm h.serial.alone hidle
  rw [hl]
  exact .ended h.serial rfl hnone rfl rfl fun k t ht =>
    ((h.serial.kept.cells k t ht).stamps.settles hidle).congr fun _ hx => hx

/-- A reader of the transaction finds the rows of the ledger, each once. -/
theorem Represents.scan (h : Represents e l) (hm : Accounted e.txnMgr) {table : Str} {mem : MemTable}
    (htable : e.tableOf table = .ok mem) {snap : Snapshot}
    (hsnap : ∀ x ∈ snap.xip, x = e.txnMgr.context.xid) : ∃ rows,
      e.scanWithSnapshot table snap e.txnMgr.context.xid e.txnMgr.context.commandId = .ok rows ∧
      (rows.map rowIdOf).Nodup ∧ ∀ id row, l.current ⟨e.resolveTableName table, id⟩ = some row ↔
        ∃ full ∈ rows, rowIdOf full = id ∧ business full = row := by
  have hmem := tableOf_eq_ok.mp htable
  have hsingle := h.serial.kept.single _ mem hmem
  have hgood {t : Tuple} (ht : t ∈ mem.scanAll) :
      Good e.txnMgr ⟨e.resolveTableName table, t.hdr.rowId.toInt64⟩ t :=
    h.serial.kept.cells _ t ((mem_of_cell hsingle hmem).mpr ⟨ht, rfl⟩)
  obtain ⟨all, hall⟩ := ExceptList.exists_mapM_ok fun t (ht : t ∈ mem.scanAll) => by
    obtain ⟨row, hrow, -⟩ := (hgood ht).readable.read
    exact ⟨row, hrow⟩
  have hscan : e.scanWithSnapshot table snap e.txnMgr.context.xid e.txnMgr.context.commandId =
      .ok (all.filter fun row => checkTupleVisibility row e.txnMgr.context.xid snap
        e.txnMgr.context.commandId e.txnMgr.clog) := by
    rw [scanWithSnapshot, StorageEngine.scan, htable]
    change (materializeAll mem >>= _) = _
    rw [materializeAll, hall]
    rfl
  refine ⟨_, hscan, ?_, fun id row => ?_⟩
  · have hids : all.map rowIdOf = mem.scanAll.map fun t => t.hdr.rowId.toInt64 :=
      ExceptList.map_of_mapM_ok (fun t row hrow => rowIdOf_of_toRow hrow) hall
    refine List.Nodup.sublist (List.filter_sublist.map rowIdOf) ?_
    rw [hids]
    refine List.Nodup.map_on (fun t ht t' ht' hid => ?_) hsingle.nodup_scanAll
    exact hsingle.eq_of_rowId ht ht' (toInt64_injective hid)
  · rw [← h.current, live]
    constructor
    · intro hrow
      obtain ⟨t, hcell, hlive⟩ := Option.bind_eq_some_iff.mp hrow
      obtain ⟨ht, hid⟩ := (mem_of_cell hsingle hmem).mp hcell
      obtain ⟨full, hfull, -⟩ := (hgood ht).readable.read
      rw [live_of_toRow hfull] at hlive
      split at hlive
      · next hmax =>
        refine ⟨full, (mem_scanWithSnapshot hscan).mpr ⟨mem, t, htable, ht, hfull, ?_⟩, ?_,
          Option.some.inj hlive⟩
        · rw [(hgood ht).stamps.seen hm hsnap]
          exact decide_eq_true hmax
        · rw [rowIdOf_of_toRow hfull, hid]
      · cases hlive
    · rintro ⟨full, hfull, rfl, rfl⟩
      obtain ⟨mem', t, hmem', ht, hrow, hseen⟩ := (mem_scanWithSnapshot hscan).mp hfull
      cases htable.symm.trans hmem'
      rw [(hgood ht).stamps.seen hm hsnap, decide_eq_true_iff] at hseen
      rw [rowIdOf_of_toRow hrow, (mem_of_cell hsingle hmem).mpr ⟨ht, rfl⟩, Option.bind_some,
        live_of_toRow hrow, if_pos hseen]

end Represents

/-! ### Histories -/

/-- The statement may be run: an insert into a table with columns that the row format can count, an
update that leaves no row with too many. -/
def Permits (e : StorageEngine) : Call → Prop
  | .insertWithTxn table _ => ∀ schema, e.tables[e.resolveTableName table]? = some schema →
      Tabular schema.columns
  | .updateWithTxn table matches_ updates =>
      ∃ p, LooksAt matches_ p ∧ Fits e (e.resolveTableName table) p updates
  | .removeWithTxn _ matches_ => ∃ p, LooksAt matches_ p
  | _ => False

/-- What one client does, with the ledger of it. A statement that throws may have done a part of its
work. -/
inductive History (d : Disk) (interval : Int32) (clock : Int64) : StorageEngine → Ledger → Prop
  | create : History d interval clock (create d interval clock) .empty
  | insert {e e' : StorageEngine} {l : Ledger} (h : History d interval clock e l) {table : Str}
      {row returned : Row} (hok : Permits e (.insertWithTxn table row))
      (hrun : (insertWithTxn table row).run e = (.ok returned, e')) : History d interval clock e'
        (l.insert ⟨e.resolveTableName table, rowIdOf returned⟩ (business returned))
  | update {e e' : StorageEngine} {l : Ledger} (h : History d interval clock e l) {table : Str}
      {matches_ : Row → Bool} {updates : Updates} {n : Nat} {p : Int64 → Row → Bool}
      (hlooks : LooksAt matches_ p) (hfits : Fits e (e.resolveTableName table) p updates)
      (hrun : (updateWithTxn table matches_ updates).run e = (.ok n, e')) :
      History d interval clock e' (l.update (e.resolveTableName table) p updates)
  | remove {e e' : StorageEngine} {l : Ledger} (h : History d interval clock e l) {table : Str}
      {matches_ : Row → Bool} {n : Nat} {p : Int64 → Row → Bool} (hlooks : LooksAt matches_ p)
      (hrun : (removeWithTxn table matches_).run e = (.ok n, e')) :
      History d interval clock e' (l.remove (e.resolveTableName table) p)
  | stopped {e e' : StorageEngine} {l : Ledger} (h : History d interval clock e l) {c : Call}
      (hok : Permits e c) {f : Failure} (hrun : c.exec.run e = (.error f, e')) :
      History d interval clock e' (l.write e'.live)
  | manager {e : StorageEngine} {l : Ledger} (h : History d interval clock e l) {c : ManagerCall}
      (hc : c.Quiet e.txnMgr) : History d interval clock ((Call.txn c.run).exec.run e).2 l
  | neutral {e : StorageEngine} {l : Ledger} (h : History d interval clock e l) {c : Call}
      (hc : NeutralCall c) : History d interval clock (c.exec.run e).2 l
  | savepoint {e : StorageEngine} {l : Ledger} (h : History d interval clock e l) (name : Str) :
      History d interval clock (e.setTxnMgr (e.txnMgr.savepoint name)) (l.savepoint name)
  | release {e e' : StorageEngine} {l : Ledger} (h : History d interval clock e l) {name : Str}
      (hrun : (inTxn (releaseSavepoint name)).run e = (.ok (), e')) :
      History d interval clock e' (l.release name)
  | rollbackTo {e e' : StorageEngine} {l : Ledger} (h : History d interval clock e l) {name : Str}
      (hrun : (StorageEngine.rollbackTo name).run e = (.ok (), e')) :
      History d interval clock e' (l.rollbackTo name)
  | commit {e e' : StorageEngine} {l : Ledger} (h : History d interval clock e l)
      (hrun : (inTxn commitTransaction).run e = (.ok (), e')) :
      History d interval clock e' (l.commit (e.txnMgr.context.xid = InvalidTransactionId))
  | rollback {e e' : StorageEngine} {l : Ledger} (h : History d interval clock e l)
      (hrun : StorageEngine.rollback.run e = (.ok (), e')) : History d interval clock e' l.rollback
  | resetContext {e : StorageEngine} {l : Ledger} (h : History d interval clock e l)
      (hidle : e.txnMgr.context.xid = InvalidTransactionId) :
      History d interval clock (e.setTxnMgr e.txnMgr.resetContext) l.rollback

section Histories
variable {d : Disk} {interval : Int32} {clock : Int64} {e e' : StorageEngine} {l : Ledger}

/-- What the calls of a history keep without regard to the ledger. -/
structure Sane (e : StorageEngine) : Prop where
  sound : Sound e
  accounted : Accounted e.txnMgr

theorem Sane.exec (h : Sane e) {c : Call} (ht : c.Transacts) (hc : c.Client) : Sane (c.exec.run e).2 :=
  ⟨sound_exec ht h.sound, Accounted.closed.final_exec h.accounted hc⟩

theorem Sane.call (h : Sane e) {c : Call} (ht : c.Transacts) (hc : ∀ p, c ≠ .txn p) :
    Sane (c.exec.run e).2 :=
  h.exec ht fun p hp => absurd hp (hc p)

theorem Sane.manager (h : Sane e) {c : ManagerCall} (honline : c.online = true)
    (hregular : c.regular = true) : Sane ((Call.txn c.run).exec.run e).2 := by
  refine h.exec ⟨c, honline, rfl⟩ fun p hp => ?_
  cases hp
  exact ⟨c, hregular, rfl⟩

theorem snd_run_discard {α : Type} (p : EngineM α) (e : StorageEngine) :
    ((Call.discard p).run e).2 = (p.run e).2 := by
  unfold Call.discard
  rcases hrun : p.run e with ⟨f | a, e'⟩
  · rw [Prog.bind_error hrun]
  · rw [Prog.bind_ok hrun]
    rfl

/-- A call that returns what it was asked for. -/
theorem Sane.discard (h : Sane e) {c : Call} {α : Type} {p : EngineM α} (hexec : c.exec = Call.discard p)
    (ht : c.Transacts) (hc : ∀ p, c ≠ .txn p) {result : Except Failure α}
    (hrun : p.run e = (result, e')) : Sane e' := by
  have hsane := h.call ht hc
  rw [hexec, snd_run_discard, hrun] at hsane
  exact hsane

theorem carriesOn_of_wp {α : Type} {p : EngineM α} {Q : α → StorageEngine → Prop}
    (h : p.wp (fun a e' => CarriesOn e e' ∧ Q a e') (fun _ => CarriesOn e) e) :
    CarriesOn e (p.run e).2 := by
  rcases hrun : p.run e with ⟨f | a, e'⟩
  · have hstopped := Prog.wp_error h hrun
    exact hstopped
  · have hdone := Prog.wp_ok h hrun
    exact hdone.1

theorem Represents.permitted (h : Represents e l) (hs : Sane e) {c : Call} (hok : Permits e c) :
    CarriesOn e (c.exec.run e).2 ∧ Sane (c.exec.run e).2 := by
  cases c with
  | insertWithTxn table row =>
    refine ⟨?_, hs.call trivial fun p hp => by cases hp⟩
    change CarriesOn e ((Call.discard (insertWithTxn table row)).run e).2
    rw [snd_run_discard]
    exact carriesOn_of_wp (wp_insertWithTxn_ledger hs.sound hs.accounted h.serial hok row)
  | updateWithTxn table matches_ updates =>
    obtain ⟨p, hlooks, hfits⟩ := hok
    refine ⟨?_, hs.call trivial fun p hp => by cases hp⟩
    change CarriesOn e ((Call.discard (updateWithTxn table matches_ updates)).run e).2
    rw [snd_run_discard]
    exact carriesOn_of_wp (wp_updateWithTxn_ledger hs.accounted h.serial hlooks hfits)
  | removeWithTxn table matches_ =>
    obtain ⟨p, hlooks⟩ := hok
    refine ⟨?_, hs.call trivial fun p hp => by cases hp⟩
    change CarriesOn e ((Call.discard (removeWithTxn table matches_)).run e).2
    rw [snd_run_discard]
    exact carriesOn_of_wp (wp_removeWithTxn_ledger hs.accounted h.serial hlooks)
  | _ => exact hok.elim

theorem Represents.neutral (h : Represents e l) {c : Call} (hc : NeutralCall c) :
    Represents (c.exec.run e).2 l := by
  have hholding := (holding_exec hc).final (Holding.start h.serial.kept)
  have hworking : Working e [] e.cell (c.exec.run e).2 := ⟨hholding, rfl⟩
  exact h.same (hworking.carriesOn h.serial fun hne => absurd rfl hne) hholding.cell

theorem Sane.neutral (h : Sane e) {c : Call} (hc : NeutralCall c) : Sane (c.exec.run e).2 := by
  cases c with
  | txn p => exact hc.elim
  | _ => first
    | exact hc.elim
    | exact h.call trivial fun p hp => by cases hp

theorem quiet_kind {m : TransactionManager} {c : ManagerCall} (hc : c.Quiet m) :
    c.online = true ∧ c.regular = true := by
  cases c <;> first
    | exact ⟨rfl, rfl⟩
    | exact hc.elim

theorem Sane.rollbackTo (h : Sane e) {name : Str}
    (hrun : (StorageEngine.rollbackTo name).run e = (.ok (), e')) : Sane e' := by
  obtain ⟨count, e₁, hcall, hundo⟩ := Prog.exists_of_bind_ok hrun
  have h₁ : Sane e₁ := by
    have h₁ := h.manager (c := .rollbackToSavepoint name) rfl rfl
    obtain ⟨m, hmanager, rfl⟩ := run_inTxn_ok hcall
    change Sane (e.setTxnMgr ((ManagerCall.discard (rollbackToSavepoint name)).run e.txnMgr).2) at h₁
    rw [ManagerCall.discard, Prog.bind_ok hmanager] at h₁
    exact h₁
  have h₂ := h₁.call (c := .applyUndoTo count) trivial fun p hp => by cases hp
  change Sane ((StorageEngine.applyUndoTo count).run e₁).2 at h₂
  rw [hundo] at h₂
  exact h₂

theorem Sane.rollback (h : Sane e) (hrun : StorageEngine.rollback.run e = (.ok (), e')) : Sane e' := by
  obtain ⟨⟨⟩, e₁, hundo, habort⟩ := Prog.exists_of_bind_ok hrun
  have h₁ : Sane e₁ := by
    have h₁ := h.call (c := .applyUndo) trivial fun p hp => by cases hp
    change Sane (applyUndo.run e).2 at h₁
    rw [hundo] at h₁
    exact h₁
  have h₂ := h₁.manager (c := .abortTransaction) rfl rfl
  cases habort
  exact h₂

theorem History.represents (h : History d interval clock e l) : Sane e ∧ Represents e l := by
  induction h with
  | create => exact ⟨⟨sound_create d interval clock, .initial⟩, represents_create d interval clock⟩
  | @insert e e' l h table row returned hok hrun ih =>
    obtain ⟨hs, hr⟩ := ih
    have hwp := wp_insertWithTxn_ledger hs.sound hs.accounted hr.serial hok row
    obtain ⟨hc, hlive⟩ := Prog.wp_ok hwp hrun
    rw [hr.current] at hlive
    exact ⟨hs.discard (c := .insertWithTxn table row) rfl trivial (fun p hp => by cases hp) hrun,
      hr.write hc hlive⟩
  | @update e e' l h table matches_ updates n p hlooks hfits hrun ih =>
    obtain ⟨hs, hr⟩ := ih
    have hwp := wp_updateWithTxn_ledger hs.accounted hr.serial hlooks hfits
    obtain ⟨hc, hlive⟩ := Prog.wp_ok hwp hrun
    rw [hr.current] at hlive
    exact ⟨hs.discard (c := .updateWithTxn table matches_ updates) rfl trivial
      (fun p hp => by cases hp) hrun, hr.write hc hlive⟩
  | @remove e e' l h table matches_ n p hlooks hrun ih =>
    obtain ⟨hs, hr⟩ := ih
    obtain ⟨hc, hlive⟩ := Prog.wp_ok (wp_removeWithTxn_ledger hs.accounted hr.serial hlooks) hrun
    rw [hr.current] at hlive
    exact ⟨hs.discard (c := .removeWithTxn table matches_) rfl trivial (fun p hp => by cases hp) hrun,
      hr.write hc hlive⟩
  | stopped h hok hrun ih =>
    obtain ⟨hs, hr⟩ := ih
    obtain ⟨hc, hsane⟩ := hr.permitted hs hok
    rw [hrun] at hc hsane
    exact ⟨hsane, hr.write hc rfl⟩
  | manager h hc ih =>
    obtain ⟨hs, hr⟩ := ih
    obtain ⟨honline, hregular⟩ := quiet_kind hc
    refine ⟨hs.manager honline hregular, ?_⟩
    exact hr.same (carriesOn_of_goesOn (ManagerCall.goesOn_run hs.accounted hr.serial.alone hc) hr.serial) rfl
  | neutral h hc ih => exact ⟨ih.1.neutral hc, ih.2.neutral hc⟩
  | savepoint h name ih => exact ⟨ih.1.manager (c := .savepoint name) rfl rfl, ih.2.savepoint name⟩
  | @release e e' l h name hrun ih =>
    obtain ⟨hs, hr⟩ := ih
    have hsane := hs.manager (c := .releaseSavepoint name) rfl rfl
    obtain ⟨m, hmanager, rfl⟩ := run_inTxn_ok hrun
    change Sane ((inTxn (releaseSavepoint name)).run e).2 at hsane
    rw [hrun] at hsane
    exact ⟨hsane, hr.release hmanager⟩
  | rollbackTo h hrun ih => exact ⟨ih.1.rollbackTo hrun, ih.2.rollbackTo hrun⟩
  | @commit e e' l h hrun ih =>
    obtain ⟨hs, hr⟩ := ih
    have hsane := hs.manager (c := .commitTransaction) rfl rfl
    obtain ⟨m, hmanager, rfl⟩ := run_inTxn_ok hrun
    change Sane ((inTxn commitTransaction).run e).2 at hsane
    rw [hrun] at hsane
    exact ⟨hsane, hr.commit hs.accounted hmanager⟩
  | rollback h hrun ih => exact ⟨ih.1.rollback hrun, ih.2.rollback ih.1.accounted hrun⟩
  | resetContext h hidle ih =>
    exact ⟨ih.1.manager (c := .resetContext) rfl rfl, ih.2.resetContext ih.1.accounted hidle⟩

/-- What the client reads with the snapshot of its transaction is what the ledger says, and between
transactions the ledger says what has been committed. -/
theorem History.agrees (h : History d interval clock e l) :
    (e.txnMgr.context.xid = InvalidTransactionId → l.current = l.committed) ∧
    ∀ {table : Str} {mem : MemTable} {snap : Snapshot} {m : TransactionManager},
      e.tableOf table = .ok mem → getTransactionSnapshot.run e.txnMgr = (.ok snap, m) → ∃ rows,
        e.scanWithSnapshot table snap m.context.xid m.context.commandId = .ok rows ∧
        (rows.map rowIdOf).Nodup ∧ ∀ id row, l.current ⟨e.resolveTableName table, id⟩ = some row ↔
          ∃ full ∈ rows, rowIdOf full = id ∧ business full = row := by
  obtain ⟨hs, hr⟩ := h.represents
  refine ⟨hr.current_eq, fun {table mem snap m} htable hsnap => ?_⟩
  have ha := hr.serial.alone
  rw [TransactionManager.getTransactionSnapshot, Prog.bind_ok (Prog.run_get _)] at hsnap
  split at hsnap
  · next hheld =>
    cases hsnap
    exact hr.scan hs.accounted htable fun x hx => (ha.held hheld x hx).1
  · cases hsnap
    exact hr.scan hs.accounted htable fun x hx => ha.active x (Std.ExtTreeSet.mem_toList.mp hx)

/-- A transaction inserts a row, sets a savepoint and removes the row. -/
def insertedEngine : StorageEngine := ((insertWithTxn (str "t") oneRow).run emptyTable).2

def removedEngine : StorageEngine :=
  ((removeWithTxn (str "t") fun _ => true).run
    (insertedEngine.setTxnMgr (insertedEngine.txnMgr.savepoint (str "s")))).2

def recalledEngine : StorageEngine := ((StorageEngine.rollbackTo (str "s")).run removedEngine).2

theorem permits_insert {table : Str} {row : Row} {columns : List ColumnDef} (hcols : Tabular columns)
    (h : (e.tables[e.resolveTableName table]?).map TableSchema.columns = some columns) :
    Permits e (.insertWithTxn table row) := by
  intro schema hschema
  have hcolumns : some schema.columns = some columns :=
    (congrArg (Option.map TableSchema.columns) hschema).symm.trans h
  rw [Option.some.inj hcolumns]
  exact hcols

theorem permits_emptyTable : Permits emptyTable (.insertWithTxn (str "t") oneRow) := by
  have h : (emptyTable.tables[emptyTable.resolveTableName (str "t")]?).map TableSchema.columns =
      some [⟨str "a", .integer, true, false, none⟩] := by
    decide +kernel
  exact permits_insert ⟨by decide, _, List.mem_singleton_self _, by decide⟩ h

/-- The row is there again. -/
theorem agrees_recalledEngine : ∃ snap m rows,
    getTransactionSnapshot.run recalledEngine.txnMgr = (.ok snap, m) ∧
      recalledEngine.scanWithSnapshot (str "t") snap m.context.xid m.context.commandId = .ok rows ∧
      ∃ full ∈ rows, rowIdOf full = 1 ∧ business full = oneRow := by
  have hruns : ((insertWithTxn (str "t") oneRow).run emptyTable).1.toOption.any
        (fun row => decide (rowIdOf row = 1 ∧ business row = oneRow)) = true ∧
      ((removeWithTxn (str "t") fun _ => true).run
        (insertedEngine.setTxnMgr (insertedEngine.txnMgr.savepoint (str "s")))).1.toOption = some 1 ∧
      ((StorageEngine.rollbackTo (str "s")).run removedEngine).1.toOption = some () ∧
      (recalledEngine.tableOf (str "t")).isOk = true ∧
      emptyTable.resolveTableName (str "t") = recalledEngine.resolveTableName (str "t") ∧
      (getTransactionSnapshot.run recalledEngine.txnMgr).1.toOption.isSome = true := by
    decide +kernel
  obtain ⟨hinsert, hremove, hback, htable, hname, hsnap⟩ := hruns
  obtain ⟨returned, hreturned, hrow⟩ := (Option.any_eq_true _ _).mp hinsert
  obtain ⟨hid, hbusiness⟩ := of_decide_eq_true hrow
  obtain ⟨snap, hsnap⟩ := Option.isSome_iff_exists.mp hsnap
  have hcreated : History Disk.empty 0 0 emptyTable .empty := History.create.neutral trivial
  have hinserted : History Disk.empty 0 0 insertedEngine _ :=
    hcreated.insert permits_emptyTable (Prog.run_of_toOption hreturned)
  have hremoved : History Disk.empty 0 0 removedEngine _ := (hinserted.savepoint (str "s")).remove
    (p := fun _ _ => true) (fun _ _ _ => rfl) (Prog.run_of_toOption hremove)
  have hrecalled : History Disk.empty 0 0 recalledEngine _ :=
    hremoved.rollbackTo (Prog.run_of_toOption hback)
  rw [Ledger.remove, Ledger.rollbackTo_savepoint] at hrecalled
  have hsnap := Prog.run_of_toOption hsnap
  rcases hmem : recalledEngine.tableOf (str "t") with f | mem
  · rw [hmem] at htable
    cases htable
  obtain ⟨rows, hscan, -, hread⟩ := hrecalled.agrees.2 hmem hsnap
  refine ⟨snap, _, rows, hsnap, hscan, ?_⟩
  rw [← hbusiness]
  refine (hread 1 (business returned)).mp ?_
  rw [← hname, ← hid]
  exact Function.update_self _ _ _

end Histories
end StorageEngine
end JiaMiaoDB
