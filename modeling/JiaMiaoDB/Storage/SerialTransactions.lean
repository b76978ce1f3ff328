import JiaMiaoDB.Storage.Conformance
import JiaMiaoDB.Storage.InsertedRows
import JiaMiaoDB.Storage.TransactionRows

/-!
# One transaction at a time

What a statement adds to the undo records takes back what it has done to the tables, also when it stops
with an error half way. An update and a delete reach the rows that are not deleted and that match, and
no others.
-/

set_option autoImplicit false

namespace JiaMiaoDB
open TransactionManager StorageEngine BinaryRowCodec

/-! ### Undo records as a log -/

/-- The version that the record puts back. -/
def UndoRecord.old (r : UndoRecord) : Option Tuple :=
  if r.Restores then (rowToTuple r.oldRow (headerFromRow r.tableName r.rowId r.oldRow)).toOption
  else none

def UndoRecord.entry (r : UndoRecord) : UndoLog.Entry RowKey Tuple := ⟨⟨r.tableName, r.rowId⟩, r.old⟩

/-- The current transaction or one that has committed has written the version. -/
structure Good (m : TransactionManager) (k : RowKey) (t : Tuple) : Prop where
  readable : Readable k.table t
  rowId : t.hdr.rowId.toInt64 = k.rowId
  stamps : m.Stamps t

/-- The rows that are not deleted. -/
def shown (s : RowKey → Option Tuple) (k : RowKey) : Option Row := (s k).bind Tuple.live

namespace StorageEngine

def undoLog (e : StorageEngine) : List (UndoLog.Entry RowKey Tuple) :=
  e.txnMgr.context.undoRecords.map UndoRecord.entry

/-- The versions at a position of the undo log, as the log brings them back from now. -/
structure Recalls (e : StorageEngine) (n : Nat) (s : RowKey → Option Tuple) : Prop where
  le : n ≤ e.undoLog.length
  undo : UndoLog.undo (e.undoLog.drop n) e.cell = s

/-- All versions are good, the stored ones and those that the undo records put back. -/
structure Kept (m : TransactionManager) (e : StorageEngine) : Prop where
  domain : ∀ q, q ∈ e.data → q ∈ e.tables
  single : ∀ (q : Str) (mem : MemTable), e.data[q]? = some mem → mem.SingleVersion
  cells : ∀ k t, e.cell k = some t → Good m k t
  undo : ∀ r ∈ e.txnMgr.context.undoRecords, r.tableName ∈ e.data ∧
    ∀ t, r.old = some t → Good m ⟨r.tableName, r.rowId⟩ t

/-- Between the statements of transactions that run one at a time. -/
structure Serial (e : StorageEngine) : Prop where
  alone : Alone e.txnMgr
  kept : Kept e.txnMgr e

/-- Since `e₀` undo records have been added and the versions have become `c`. -/
structure Holding (e₀ : StorageEngine) (added : List UndoRecord) (c : RowKey → Option Tuple)
    (e : StorageEngine) : Prop where
  kept : Kept e₀.txnMgr e
  next : e.txnMgr.nextXid = e₀.txnMgr.nextXid
  active : e.txnMgr.activeXids = e₀.txnMgr.activeXids
  clog : e.txnMgr.clog = e₀.txnMgr.clog
  context : e.txnMgr.context =
    { e₀.txnMgr.context with undoRecords := e₀.txnMgr.context.undoRecords ++ added }
  cell : e.cell = c

/-- A statement at work: what it has added takes back what it has changed. -/
structure Working (e₀ : StorageEngine) (added : List UndoRecord) (c : RowKey → Option Tuple)
    (e : StorageEngine) : Prop extends Holding e₀ added c e where
  undone : UndoLog.undo (added.map UndoRecord.entry) c = e₀.cell

/-- However far it has come. -/
def Interrupted (e₀ e : StorageEngine) : Prop := ∃ added c, Working e₀ added c e

section Working
variable {e₀ e e' : StorageEngine} {added : List UndoRecord} {c : RowKey → Option Tuple} {q : Str}
  {id : Int64}

theorem Holding.start (h : Kept e.txnMgr e) : Holding e [] e.cell e where
  kept := h
  next := rfl
  active := rfl
  clog := rfl
  context := by rw [List.append_nil]
  cell := rfl

theorem Working.start (h : Kept e.txnMgr e) : Working e [] e.cell e := ⟨.start h, rfl⟩

theorem Working.interrupted (h : Working e₀ added c e) : Interrupted e₀ e := ⟨added, c, h⟩

theorem Kept.congr {m : TransactionManager} (h : Kept m e) (hdata : e'.data = e.data)
    (hundo : e'.txnMgr.context.undoRecords = e.txnMgr.context.undoRecords)
    (htables : ∀ q, q ∈ e.tables → q ∈ e'.tables) : Kept m e' := by
  constructor
  · rw [hdata]
    exact fun q hq => htables q (h.domain q hq)
  · rw [hdata]
    exact h.single
  · rw [cell_congr hdata]
    exact h.cells
  · rw [hundo, hdata]
    exact h.undo

/-- Versions and manager stay. -/
theorem Holding.congr (h : Holding e₀ added c e) (hdata : e'.data = e.data)
    (hm : e'.txnMgr = e.txnMgr) (htables : ∀ q, q ∈ e.tables → q ∈ e'.tables) :
    Holding e₀ added c e' where
  kept := h.kept.congr hdata (by rw [hm]) htables
  next := hm ▸ h.next
  active := hm ▸ h.active
  clog := hm ▸ h.clog
  context := hm ▸ h.context
  cell := (cell_congr hdata).trans h.cell

theorem holding_frame {f : StorageEngine → StorageEngine}
    (hf : ∀ e : StorageEngine, (f e).data = e.data ∧ (f e).txnMgr = e.txnMgr ∧
      ∀ q, q ∈ e.tables → q ∈ (f e).tables) :
    Prog.Keeps (ε := Failure) (Holding e₀ added c) (Prog.modify f) :=
  Prog.Keeps.modify fun e h => h.congr (hf e).1 (hf e).2.1 (hf e).2.2

/-- The manager changes in its conflict sets only. -/
theorem Holding.setTxnMgr (h : Holding e₀ added c e) {m : TransactionManager}
    (hnext : m.nextXid = e.txnMgr.nextXid) (hactive : m.activeXids = e.txnMgr.activeXids)
    (hclog : m.clog = e.txnMgr.clog) (hcontext : m.context = e.txnMgr.context) :
    Holding e₀ added c (e.setTxnMgr m) where
  kept := h.kept.congr rfl (by rw [StorageEngine.setTxnMgr, hcontext]) fun _ hq => hq
  next := hnext.trans h.next
  active := hactive.trans h.active
  clog := hclog.trans h.clog
  context := hcontext.trans h.context
  cell := h.cell

/-- The same parts of the manager, as a property of the manager alone. -/
def SameIds (m m' : TransactionManager) : Prop :=
  m'.nextXid = m.nextXid ∧ m'.activeXids = m.activeXids ∧ m'.clog = m.clog ∧ m'.context = m.context

theorem holding_inTxn {α : Type} {p : TxnM α} (hp : ∀ m, Prog.Keeps (SameIds m) p) :
    Prog.Keeps (Holding e₀ added c) (inTxn p) := by
  intro e h
  rw [inTxn, Prog.wp_zoom]
  have hset (m : TransactionManager) (hm : SameIds e.txnMgr m) : Holding e₀ added c (e.setTxnMgr m) :=
    h.setTxnMgr hm.1 hm.2.1 hm.2.2.1 hm.2.2.2
  exact Prog.wp_mono (hp e.txnMgr e.txnMgr ⟨rfl, rfl, rfl, rfl⟩) (fun _ m hm => hset m hm)
    fun _ m hm => hset m hm

theorem holding_nextSeq : Prog.Keeps (Holding e₀ added c) nextSeq := by
  refine Prog.Keeps.get_bind fun e h => ?_
  split
  · exact h
  · exact h.congr rfl rfl fun _ hq => hq

theorem holding_writeWal (op : WalOp) (table : Str) (payload : Bytes) (xid : TransactionId) :
    Prog.Keeps (Holding e₀ added c) (writeWal op table payload xid) :=
  holding_nextSeq.bind fun _ => holding_frame fun _ => ⟨rfl, rfl, fun _ hq => hq⟩

theorem holding_setRowCount (q : Str) :
    Prog.Keeps (ε := Failure) (Holding e₀ added c) (Prog.modify (setRowCount q)) := by
  refine holding_frame fun e => ?_
  rw [setRowCount]
  split
  · exact ⟨rfl, rfl, fun q' hq' => Std.ExtTreeMap.mem_insert.mpr (.inr hq')⟩
  · exact ⟨rfl, rfl, fun _ hq => hq⟩

theorem holding_updateIndexes (q : Str) (id : Int64) (row : Row) :
    Prog.Keeps (ε := Failure) (Holding e₀ added c) (Prog.modify (updateIndexes q id row)) := by
  refine holding_frame fun e => ?_
  rw [updateIndexes]
  split <;> exact ⟨rfl, rfl, fun _ hq => hq⟩

theorem holding_rebuildIndexes (q : Str) : Prog.Keeps (Holding e₀ added c) (rebuildIndexes q) := by
  refine Prog.Keeps.get_bind fun e h => ?_
  split
  · rw [Prog.wp_bind, Prog.wp_set]
    exact Prog.Keeps.ofExcept _ _ (h.congr rfl rfl fun _ hq => hq)
  · exact h

theorem holding_rebuildIf (affected : Bool) (q : Str) :
    Prog.Keeps (Holding e₀ added c) (rebuildIf affected q) :=
  Prog.Keeps.ite (fun _ => holding_rebuildIndexes q) fun _ => Prog.Keeps.pure ()

theorem holding_maybeCheckpoint : Prog.Keeps (Holding e₀ added c) maybeCheckpoint := by
  refine Prog.Keeps.get.bind fun _ => Prog.Keeps.ite (fun _ => ?_) fun _ => Prog.Keeps.pure _
  refine Prog.Keeps.get_bind fun e h => ?_
  rw [Prog.wp_bind, Prog.wp_ofExcept]
  exact ⟨fun _ _ => h.congr rfl rfl fun _ hq => hq, fun _ _ => h⟩

theorem holding_registerWrite (key : RowKey) :
    Prog.Keeps (Holding e₀ added c) (inTxn (Prog.modify (·.registerWrite key))) := by
  refine holding_inTxn fun m => Prog.Keeps.modify fun m' h => ?_
  obtain ⟨hnext, hactive, hclog, hcontext, -⟩ := m'.frame_registerWrite key
  exact ⟨hnext.trans h.1, hactive.trans h.2.1, hclog.trans h.2.2.1, hcontext.trans h.2.2.2⟩

theorem holding_checkUnique (q : Str) (columns : List ColumnDef) (row : Row) (r : Reader)
    (all : List Tuple) :
    Prog.Keeps (Holding e₀ added c) (inTxn (checkUnique q columns row r all)) := by
  refine holding_inTxn fun m => ManagerInvariant.keeps_checkUnique _ _ _ _ _ fun m' key h => ?_
  obtain ⟨hnext, hactive, hclog, hcontext, -⟩ := m'.frame_registerSiread key
  exact ⟨hnext.trans h.1, hactive.trans h.2.1, hclog.trans h.2.2.1, hcontext.trans h.2.2.2⟩

theorem holding_checkUniqueUpdate (columns : List ColumnDef) (updates : Updates) (rowid : Int64)
    (r : Reader) (all : List Tuple) : Prog.Keeps (Holding e₀ added c)
      (inTxn (checkUniqueUpdate columns updates rowid r all)) :=
  holding_inTxn fun _ => ManagerInvariant.keeps_checkUniqueUpdate _ _ _ _ _

/-- What holds the versions in place keeps a statement at work. -/
theorem working {α : Type} {p : EngineM α} (hp : Prog.Keeps (Holding e₀ added c) p) :
    Prog.Keeps (Working e₀ added c) p := fun e h =>
  Prog.wp_mono (hp e h.toHolding) (fun _ _ h' => ⟨h', h.undone⟩) fun _ _ h' => ⟨h', h.undone⟩

/-! ### One row -/

/-- A record of the version that the row has. -/
theorem Working.addUndoRecord (h : Working e₀ added c e) {r : UndoRecord}
    (hr : r.tableName ∈ e.data) (hgood : ∀ t, r.old = some t → Good e₀.txnMgr ⟨r.tableName, r.rowId⟩ t)
    (hold : c ⟨r.tableName, r.rowId⟩ = r.old) :
    Working e₀ (added ++ [r]) c (e.setTxnMgr (e.txnMgr.addUndoRecord r)) where
  kept := by
    refine ⟨h.kept.domain, h.kept.single, h.kept.cells, fun r' hr' => ?_⟩
    rcases List.mem_append.mp hr' with hr' | hr'
    · exact h.kept.undo r' hr'
    · obtain rfl := List.mem_singleton.mp hr'
      exact ⟨hr, hgood⟩
  next := h.next
  active := h.active
  clog := h.clog
  context := by
    change { e.txnMgr.context with undoRecords := e.txnMgr.context.undoRecords ++ [r] } = _
    rw [h.context, List.append_assoc]
  cell := h.cell
  undone := by
    rw [List.map_append]
    exact (UndoLog.undo_concat _ hold).trans h.undone

/-- The version of a row changes. -/
theorem Holding.setTable (h : Holding e₀ added c e) {mem mem' : MemTable} {v : Option Tuple}
    (hm : e.data[q]? = some mem) (hsingle : mem'.SingleVersion)
    (hcell : (e.setTable q mem').cell = Function.update e.cell ⟨q, id⟩ v)
    (hgood : ∀ t, v = some t → Good e₀.txnMgr ⟨q, id⟩ t) :
    Holding e₀ added (Function.update c ⟨q, id⟩ v) (e.setTable q mem') := by
  have hmem {q' : Str} : q' ∈ e.data.insert q mem' ↔ q' ∈ e.data := by
    rw [Std.ExtTreeMap.mem_insert, Std.LawfulEqCmp.compare_eq_iff_eq]
    refine ⟨?_, .inr⟩
    rintro (rfl | hq')
    · rw [Std.ExtTreeMap.mem_iff_isSome_getElem?, hm]
      rfl
    · exact hq'
  refine ⟨⟨fun q' hq' => h.kept.domain q' (hmem.mp hq'), fun q' m' hm' => ?_, fun k t hk => ?_,
    fun r hr => ⟨hmem.mpr (h.kept.undo r hr).1, (h.kept.undo r hr).2⟩⟩, h.next, h.active, h.clog, h.context,
    ?_⟩
  · change (e.data.insert q mem')[q']? = some m' at hm'
    rw [Std.ExtTreeMap.getElem?_insert] at hm'
    split at hm'
    · cases hm'
      exact hsingle
    · exact h.kept.single q' m' hm'
  · rw [hcell] at hk
    by_cases hkey : k = ⟨q, id⟩
    · rw [hkey, Function.update_self] at hk
      rw [hkey]
      exact hgood t hk
    · rw [Function.update_of_ne hkey] at hk
      exact h.kept.cells k t hk
  · rw [hcell, h.cell]

/-- Erasing throws nothing. -/
theorem Holding.wp_eraseVersions (h : Holding e₀ added c e) (hq : q ∈ e.data)
    (E : Failure → StorageEngine → Prop) : (eraseVersions q id).wp
      (fun _ e' => Holding e₀ added (Function.update c ⟨q, id⟩ none) e' ∧ q ∈ e'.data) E e := by
  obtain ⟨mem, hm⟩ := Option.isSome_iff_exists.mp (Std.ExtTreeMap.mem_iff_isSome_getElem?.mp hq)
  have hsingle := h.kept.single q mem hm
  refine StorageEngine.wp_eraseVersions hm ⟨?_, Std.ExtTreeMap.mem_insert_self⟩
  exact h.setTable hm (hsingle.eraseAllFor id) (cell_erased hsingle hm rfl) fun t ht => by cases ht

theorem Holding.wp_putVersion (h : Holding e₀ added c e) (hq : q ∈ e.data) (row : Row)
    (hnone : c ⟨q, id⟩ = none)
    (hgood : ∀ t, rowToTuple row (headerFromRow q id row) = .ok t → Good e₀.txnMgr ⟨q, id⟩ t) :
    (putVersion q id row).wp (fun _ e' => ∃ t, rowToTuple row (headerFromRow q id row) = .ok t ∧
      Holding e₀ added (Function.update c ⟨q, id⟩ (some t)) e')
      (fun _ => Holding e₀ added c) e := by
  obtain ⟨mem, hm⟩ := Option.isSome_iff_exists.mp (Std.ExtTreeMap.mem_iff_isSome_getElem?.mp hq)
  have hsingle := h.kept.single q mem hm
  have hfresh : MemTable.SingleVersion.Fresh mem id := by
    intro t ht hid
    have hcell := (mem_of_cell hsingle hm).mpr ⟨ht, hid⟩
    rw [h.cell, hnone] at hcell
    cases hcell
  refine StorageEngine.wp_putVersion hm (fun _ => h) fun t ht _ => ⟨t, ht, ?_⟩
  have hid := rowId_of_rowToTuple ht
  have hset := h.setTable hm (hsingle.put (e.walSeq + 1).toUInt64 hfresh hid)
    (cell_put hsingle hfresh hm hid (normalize_rowToTuple ht) rfl)
    fun t' ht' => Option.some.inj ht' ▸ hgood t ht
  exact hset.congr rfl rfl fun _ hq' => hq'

theorem Working.congr_holding (h : Working e₀ added c e) (h' : Holding e₀ added c e') :
    Working e₀ added c e' := ⟨h', h.undone⟩

/-- With a record of the row its version may change. -/
theorem Working.update (h : Working e₀ added c e) {v : Option Tuple}
    (hcovers : UndoLog.Covers (added.map UndoRecord.entry) ⟨q, id⟩)
    (h' : Holding e₀ added (Function.update c ⟨q, id⟩ v) e') :
    Working e₀ added (Function.update c ⟨q, id⟩ v) e' :=
  ⟨h', (UndoLog.undo_update hcovers c v).trans h.undone⟩

end Working

/-! ### Versions that a statement writes -/

section Rows
variable {e₀ e : StorageEngine} {added : List UndoRecord} {c : RowKey → Option Tuple} {q : Str}
  {id : Int64} {t t' : Tuple} {row : Row} {m : TransactionManager}

theorem live_of_toRow (h : toRow t = .ok row) :
    t.live = if t.hdr.xmax = InvalidTransactionId then some (business row) else none := by
  rw [Tuple.live, h]
  rfl

theorem mem_data_of_cell (h : e.cell ⟨q, id⟩ = some t) : q ∈ e.data := by
  obtain ⟨mem, hm, -⟩ := Option.bind_eq_some_iff.mp h
  rw [Std.ExtTreeMap.mem_iff_isSome_getElem?, hm]
  rfl

theorem old_of_not_restores {r : UndoRecord} (h : ¬ r.Restores) : r.old = none := by
  rw [UndoRecord.old, if_neg h]

theorem old_of_good (h : Good m ⟨q, id⟩ t) (hrow : toRow t = .ok row) {op : UndoOp} (hop : op ≠ .insert)
    (newRow : Row) : UndoRecord.old ⟨op, q, id, row, newRow⟩ = some t := by
  have hrestores : (⟨op, q, id, row, newRow⟩ : UndoRecord).Restores := by
    rintro (hop' | hempty)
    · exact hop hop'
    · obtain ⟨hid, -⟩ := header_of_toRow hrow
      have hempty : row.isEmpty = true := hempty
      rw [Std.ExtTreeMap.isEmpty_iff.mp hempty, Std.ExtTreeMap.getElem?_empty] at hid
      cases hid
  have hcopy := h.readable.canonical.copy hrow
  rw [h.rowId] at hcopy
  rw [UndoRecord.old, if_pos hrestores, hcopy]
  rfl

/-- The reader of the current transaction sees the rows that are not deleted. -/
theorem Serial.sees (h : Serial e₀) (hm : Accounted e₀.txnMgr) {k : RowKey}
    (ht : Good e₀.txnMgr k t) (hrow : toRow t = .ok row) :
    e₀.reader.sees e₀.txnMgr.clog row = decide (t.hdr.xmax = InvalidTransactionId) := by
  rw [seen_of_toRow hrow]
  exact ht.stamps.seen hm fun x hx => h.alone.active x (Std.ExtTreeSet.mem_toList.mp hx)

/-- A version of the current transaction. -/
theorem good_of_own (hxid : m.context.xid ≠ InvalidTransactionId) (hsized : Sized row)
    (hmin : headerField row (str "_xmin") = m.context.xid)
    (hmax : headerField row (str "_xmax") = InvalidTransactionId)
    (hcid : headerField row (str "_cid") = m.context.commandId.toInt64.toUInt64.toUInt32)
    (ht : rowToTuple row (headerFromRow q id row) = .ok t) : Good m ⟨q, id⟩ t where
  readable := readable_of_rowToTuple hsized ht
  rowId := rowId_of_rowToTuple ht
  stamps := by
    obtain ⟨htmin, htmax, htcid⟩ := header_of_rowToTuple ht
    refine .own hxid (htmin.trans hmin) ?_ (.inl (htmax.trans hmax))
    rw [htcid, hcid, toInt32_widened]
    exact Int32.le_refl _

/-- What an update writes. -/
theorem good_of_stamp (hxid : m.context.xid ≠ InvalidTransactionId) (hsized : Sized row)
    (ht : rowToTuple (stamp row m.context.xid 0 m.context.commandId)
      (headerFromRow q id (stamp row m.context.xid 0 m.context.commandId)) = .ok t) :
    Good m ⟨q, id⟩ t ∧ t.live = some (business row) := by
  obtain ⟨hmin, hmax, hcid⟩ := headerField_stamp row m.context.xid 0 m.context.commandId
  have hbus := business_stamp row m.context.xid 0 m.context.commandId
  have hsized' := (sized_congr hbus).mpr hsized
  refine ⟨good_of_own hxid hsized' hmin hmax hcid ht, ?_⟩
  rw [live_of_rowToTuple hsized' ht, hmax, hbus]
  rfl

/-- The tombstone of a row. -/
def tombstone (row : Row) (r : Reader) : Row :=
  (row.insert (str "_xmax") (.int r.xid.toUInt64.toInt64)).insert (str "_cid") (.int r.cid.toInt64)

/-- What a delete writes. -/
theorem good_of_tombstone {r : Reader} (hxid : m.context.xid ≠ InvalidTransactionId)
    (hr : r.xid = m.context.xid) (hcid : r.cid = m.context.commandId) (ht : Good m ⟨q, id⟩ t)
    (hlive : t.hdr.xmax = InvalidTransactionId) (hrow : toRow t = .ok row)
    (ht' : rowToTuple (tombstone row r) (headerFromRow q id (tombstone row r)) = .ok t') :
    Good m ⟨q, id⟩ t' ∧ t'.live = none := by
  have hbus : business (tombstone row r) = business row := by
    rw [tombstone, business_insert_system rfl, business_insert_system rfl]
  have hsized : Sized (tombstone row r) := by
    obtain ⟨row', hrow', hsized⟩ := ht.readable.read
    cases hrow.symm.trans hrow'
    exact (sized_congr hbus).mpr hsized
  have hstone : Tombstone r.xid t t' := tombstone_of_row hrow ht'
  have hmax : t'.hdr.xmax = m.context.xid := hstone.xmax.trans hr
  refine ⟨⟨readable_of_rowToTuple hsized ht', rowId_of_rowToTuple ht', ?_⟩, ?_⟩
  · cases ht.stamps with
    | settled h => exact .deleted hxid (by rw [hstone.xmin]; exact h.inserter) hmax
    | deleted _ _ h => exact absurd (h.symm.trans hlive) hxid
    | own _ hmin _ _ =>
      refine .own hxid (hstone.xmin.trans hmin) ?_ (.inr hmax)
      rw [(header_of_rowToTuple ht').2.2, tombstone, headerField, Std.ExtTreeMap.getElem?_insert_self]
      change r.cid.toInt64.toUInt64.toUInt32.toUInt64.toInt64.toInt32 ≤ _
      rw [toInt32_widened, hcid]
      exact Int32.le_refl _
  · rw [Tuple.live, if_neg]
    rw [hmax]
    exact hxid

end Rows

/-! ### Statements -/

section Statements
variable {e₀ e : StorageEngine} {added : List UndoRecord} {c : RowKey → Option Tuple} {q : Str}
  {id : Int64} {t : Tuple} {row : Row}

/-- The row has a new version, with the columns `v`. -/
def Replaces (e₀ : StorageEngine) (c : RowKey → Option Tuple) (k : RowKey) (v : Option Row)
    (e : StorageEngine) : Prop :=
  ∃ added t, Working e₀ added (Function.update c k (some t)) e ∧ t.live = v

/-- The old version goes and the new one comes. -/
theorem Working.wp_replace (h : Working e₀ added c e) (hq : q ∈ e.data) (newRow : Row)
    {v : Option Row} (hcovers : UndoLog.Covers (added.map UndoRecord.entry) ⟨q, id⟩)
    (hgood : ∀ t, rowToTuple newRow (headerFromRow q id newRow) = .ok t →
      Good e₀.txnMgr ⟨q, id⟩ t ∧ t.live = v) : Prog.wp (do
        eraseVersions q id
        putVersion q id newRow) (fun _ => Replaces e₀ c ⟨q, id⟩ v) (fun _ => Interrupted e₀) e := by
  rw [Prog.wp_bind]
  refine Prog.wp_mono (h.wp_eraseVersions hq fun _ => Interrupted e₀) (fun _ e₁ h₁ => ?_) fun _ _ h' => h'
  obtain ⟨h₁, hq₁⟩ := h₁
  have herased := h.update hcovers h₁
  have hput := h₁.wp_putVersion hq₁ newRow (Function.update_self _ _ _) fun t ht => (hgood t ht).1
  refine Prog.wp_mono hput (fun _ e₂ h₂ => ?_) fun _ _ h' => (h.update hcovers h').interrupted
  obtain ⟨t, ht, h₂⟩ := h₂
  have hreplaced := herased.update hcovers h₂
  rw [Function.update_idem] at hreplaced
  exact ⟨added, t, hreplaced, (hgood t ht).2⟩

theorem Replaces.keeps {k : RowKey} {v : Option Row} {p : EngineM Unit}
    (hp : ∀ added c, Prog.Keeps (Working e₀ added c) p) :
    Prog.Keeps (Replaces e₀ c k v) p := by
  rintro e ⟨added, t, h, hlive⟩
  exact Prog.wp_mono (hp _ _ e h) (fun _ _ h' => ⟨added, t, h', hlive⟩) fun _ _ h' => ⟨added, t, h', hlive⟩

theorem Replaces.interrupted {k : RowKey} {v : Option Row} (h : Replaces e₀ c k v e) :
    Interrupted e₀ e := by
  obtain ⟨added, t, h, -⟩ := h
  exact h.interrupted

theorem covers_concat (added : List UndoRecord) (r : UndoRecord) :
    UndoLog.Covers ((added ++ [r]).map UndoRecord.entry) ⟨r.tableName, r.rowId⟩ := by
  rw [List.map_append]
  exact UndoLog.covers_append_right (UndoLog.covers_singleton _ r.old)

/-- What a statement does with one row, up to the undo record. -/
theorem wp_recorded (h : Working e₀ added c e) (hc : c ⟨q, id⟩ = some t) (hrow : toRow t = .ok row)
    {op : UndoOp} (hop : op ≠ .insert) (newRow : Row) {p : EngineM Unit}
    {Q : Unit → StorageEngine → Prop} (hp : ∀ added' e', Working e₀ added' c e' → q ∈ e'.data →
      UndoLog.Covers (added'.map UndoRecord.entry) ⟨q, id⟩ → p.wp Q (fun _ => Interrupted e₀) e') :
    Prog.wp (do
      inTxn (Prog.modify (·.addUndoRecord ⟨op, q, id, row, newRow⟩))
      p) Q (fun _ => Interrupted e₀) e := by
  have hcell : e.cell ⟨q, id⟩ = some t := h.cell ▸ hc
  have hgood := h.kept.cells _ t hcell
  have hold := old_of_good hgood hrow hop newRow
  rw [Prog.wp_bind, inTxn, Prog.wp_zoom, Prog.wp_modify]
  have hadded := h.addUndoRecord (r := ⟨op, q, id, row, newRow⟩) (mem_data_of_cell hcell)
    (fun t' ht' => Option.some.inj (hold.symm.trans ht') ▸ hgood) (hc.trans hold.symm)
  exact hp _ _ hadded (mem_data_of_cell hcell) (covers_concat _ _)

theorem wp_updateRowWithTxn_working (hxid : e₀.txnMgr.context.xid ≠ InvalidTransactionId)
    (h : Working e₀ added c e) (hc : c ⟨q, id⟩ = some t) (hrow : toRow t = .ok row)
    {updates : Updates} (hsized : Sized (applyUpdates row updates)) (all : List Tuple) :
    (updateRowWithTxn q updates e₀.reader all row).wp
      (fun _ => Replaces e₀ c ⟨q, id⟩ (some (business (applyUpdates row updates))))
      (fun _ => Interrupted e₀) e := by
  have hid : getRowId row = .ok id := by
    rw [getRowId_of_toRow hrow, (h.kept.cells _ t (h.cell ▸ hc)).rowId]
  rw [updateRowWithTxn, hid, Prog.wp_bind, Prog.wp_ofExcept_ok, Prog.wp_bind]
  refine Prog.wp_mono (working (holding_registerWrite _) e h) (fun _ e₁ h₁ => ?_) fun _ _ h' => h'.interrupted
  dsimp only
  rw [Prog.wp_bind, Prog.wp_get, Prog.wp_bind]
  refine Prog.wp_mono (working (holding_checkUniqueUpdate _ _ _ _ _) e₁ h₁) (fun _ e₂ h₂ => ?_)
    fun _ _ h' => h'.interrupted
  refine wp_recorded h₂ hc hrow (by decide) _ fun added' e₃ h₃ hq hcovers => ?_
  rw [Prog.wp_bind]
  refine Prog.wp_mono (Prog.wp_and (working (holding_writeWal _ _ _ _) e₃ h₃)
    (sameTables_writeWal _ _ _ e₃ (.refl e₃))) (fun _ e₄ h₄ => ?_) fun _ _ h' => h'.1.interrupted
  refine h₄.1.wp_replace ?_ _ hcovers fun t' ht' => good_of_stamp hxid hsized ht'
  rw [h₄.2.data]
  exact hq

theorem wp_removeRowWithTxn_working (hxid : e₀.txnMgr.context.xid ≠ InvalidTransactionId)
    (h : Working e₀ added c e) (hc : c ⟨q, id⟩ = some t) (hrow : toRow t = .ok row)
    (hlive : t.hdr.xmax = InvalidTransactionId) :
    (removeRowWithTxn q e₀.reader row).wp (fun _ => Replaces e₀ c ⟨q, id⟩ none)
      (fun _ => Interrupted e₀) e := by
  have hgood := h.kept.cells _ t (h.cell ▸ hc)
  have hid : getRowId row = .ok id := by
    rw [getRowId_of_toRow hrow, hgood.rowId]
  rw [removeRowWithTxn, hid, Prog.wp_bind, Prog.wp_ofExcept_ok, Prog.wp_bind]
  refine Prog.wp_mono (working (holding_registerWrite _) e h) (fun _ e₁ h₁ => ?_) fun _ _ h' => h'.interrupted
  refine wp_recorded h₁ hc hrow (by decide) _ fun added' e₂ h₂ hq hcovers => ?_
  have hreplace := h₂.wp_replace hq (tombstone row e₀.reader) (v := none) hcovers
    fun t' ht' => good_of_tombstone hxid rfl rfl hgood hlive hrow ht'
  rw [← bind_assoc, Prog.wp_bind]
  refine Prog.wp_mono hreplace (fun _ e₃ h₃ => ?_) fun _ _ h' => h'
  exact Prog.wp_mono (Replaces.keeps (fun _ _ => working (holding_writeWal _ _ _ _)) e₃ h₃) (fun _ _ h' => h')
    fun _ _ h' => h'.interrupted

/-! ### The rows that match -/

/-- The predicate of a statement looks at the row id and at the user's columns. -/
def LooksAt (matches_ : Row → Bool) (p : Int64 → Row → Bool) : Prop :=
  ∀ t row, toRow t = .ok row → matches_ row = p t.hdr.rowId.toInt64 (business row)

/-- The row becomes what `f` makes of it when it matches. -/
def changeRow (p : Int64 → Row → Bool) (f : Row → Option Row) (id : Int64) (row : Row) : Option Row :=
  if p id row = true then f row else some row

/-- The rows of the table that match change. -/
def changed (q : Str) (p : Int64 → Row → Bool) (f : Row → Option Row) (rows : RowKey → Option Row)
    (k : RowKey) : Option Row :=
  (rows k).bind fun row => if k.table = q then changeRow p f k.rowId row else some row

/-- What the body of the loop does with a row that is not deleted and matches. -/
def Rewrites (e₀ : StorageEngine) (q : Str) (p : Int64 → Row → Bool) (f : Row → Option Row)
    (body : Row → EngineM Unit) : Prop :=
  ∀ added c e id t row, Working e₀ added c e → c ⟨q, id⟩ = some t → e₀.cell ⟨q, id⟩ = some t →
    toRow t = .ok row → t.hdr.xmax = InvalidTransactionId → p id (business row) = true →
      (body row).wp (fun _ => Replaces e₀ c ⟨q, id⟩ (f (business row))) (fun _ => Interrupted e₀) e

variable {matches_ : Row → Bool} {p : Int64 → Row → Bool} {f : Row → Option Row}
  {body : Row → EngineM Unit}

theorem wp_onVisible_working (h₀ : Serial e₀) (hm : Accounted e₀.txnMgr) (hlooks : LooksAt matches_ p)
    (hbody : Rewrites e₀ q p f body) (h : Working e₀ added c e) (hc : c ⟨q, id⟩ = some t)
    (hc₀ : e₀.cell ⟨q, id⟩ = some t) : (onVisible e₀.reader matches_ body t).wp
      (fun _ => Replaces e₀ c ⟨q, id⟩ (t.live.bind (changeRow p f id))) (fun _ => Interrupted e₀) e := by
  have hgood := h.kept.cells _ t (h.cell ▸ hc)
  have hsame : Replaces e₀ c ⟨q, id⟩ t.live e := by
    refine ⟨added, t, ?_, rfl⟩
    rw [← hc, Function.update_eq_self]
    exact h
  rw [onVisible, Prog.wp_bind, Prog.wp_ofExcept]
  refine ⟨fun row hrow => ?_, fun _ _ => h.interrupted⟩
  have hmatches : matches_ row = p id (business row) := by
    rw [hlooks t row hrow, hgood.rowId]
  rw [Prog.wp_bind, Prog.wp_get, h.clog, h₀.sees hm hgood hrow, hmatches, live_of_toRow hrow, Prog.wp_ite]
  by_cases hlive : t.hdr.xmax = InvalidTransactionId
  · rw [if_pos hlive, Option.bind_some, changeRow, decide_eq_true hlive, Bool.true_and]
    split
    · next hp =>
      rw [Prog.wp_bind]
      exact Prog.wp_mono (hbody added c e id t row h hc hc₀ hrow hlive hp) (fun _ _ h' => h')
        fun _ _ h' => h'
    · rw [live_of_toRow hrow, if_pos hlive] at hsame
      exact hsame
  · rw [if_neg hlive, Option.bind_none, decide_eq_false hlive, Bool.false_and, if_neg Bool.false_ne_true]
    rw [live_of_toRow hrow, if_neg hlive] at hsame
    exact hsame

/-- The versions `done` of the table have been gone through. -/
structure Through (e₀ : StorageEngine) (q : Str) (p : Int64 → Row → Bool) (f : Row → Option Row)
    (done : List Tuple) (c : RowKey → Option Tuple) : Prop where
  rest : ∀ k, (k.table = q → ∀ t ∈ done, t.hdr.rowId.toInt64 ≠ k.rowId) → c k = e₀.cell k
  done : ∀ t ∈ done, shown c ⟨q, t.hdr.rowId.toInt64⟩ =
    changed q p f e₀.live ⟨q, t.hdr.rowId.toInt64⟩

theorem Through.concat {done : List Tuple} (h : Through e₀ q p f done c) {v : Tuple}
    (hnew : ∀ t' ∈ done, t'.hdr.rowId.toInt64 ≠ t.hdr.rowId.toInt64)
    (hlive : v.live = changed q p f e₀.live ⟨q, t.hdr.rowId.toInt64⟩) :
    Through e₀ q p f (done ++ [t]) (Function.update c ⟨q, t.hdr.rowId.toInt64⟩ (some v)) := by
  constructor
  · intro k hk
    have hne : k ≠ ⟨q, t.hdr.rowId.toInt64⟩ := by
      rintro rfl
      exact hk rfl t (by simp) rfl
    rw [Function.update_of_ne hne]
    exact h.rest k fun hq t' ht' => hk hq t' (List.mem_append_left _ ht')
  · intro t' ht'
    rcases List.mem_append.mp ht' with ht' | ht'
    · have hne : (⟨q, t'.hdr.rowId.toInt64⟩ : RowKey) ≠ ⟨q, t.hdr.rowId.toInt64⟩ :=
        fun he => hnew t' ht' (congrArg RowKey.rowId he)
      rw [shown, Function.update_of_ne hne]
      exact h.done t' ht'
    · rw [List.mem_singleton.mp ht', shown, Function.update_self]
      exact hlive

/-- The statement goes through a table. -/
theorem wp_sumEach_working (h₀ : Serial e₀) (hm : Accounted e₀.txnMgr) (hlooks : LooksAt matches_ p)
    (hbody : Rewrites e₀ q p f body) {mem : MemTable} (hmem : e₀.data[q]? = some mem) :
    (Prog.sumEach (onVisible e₀.reader matches_ body) mem.scanAll).wp
      (fun _ e' => ∃ added c, Working e₀ added c e' ∧ shown c = changed q p f e₀.live)
      (fun _ => Interrupted e₀) e₀ := by
  have hsingle := h₀.kept.single q mem hmem
  refine Prog.wp_mono (Prog.wp_sumEach (fun done _ e' => ∃ added c, Working e₀ added c e' ∧
    Through e₀ q p f done c) (fun done t rest hall n e h => ?_) ?_) (fun _ e' h => ?_) fun _ _ h => h
  · obtain ⟨added, c, h, hthrough⟩ := h
    have ht : t ∈ mem.scanAll := by
      rw [hall]
      simp
    have hnodup := hsingle.nodup_scanAll
    rw [hall, List.nodup_append] at hnodup
    have hnew : ∀ t' ∈ done, t'.hdr.rowId.toInt64 ≠ t.hdr.rowId.toInt64 := by
      intro t' ht' hid
      have hmem' : t' ∈ mem.scanAll := by
        rw [hall]
        exact List.mem_append_left _ ht'
      exact hnodup.2.2 t' ht' t List.mem_cons_self
        (hsingle.eq_of_rowId hmem' ht (toInt64_injective hid))
    have hc₀ : e₀.cell ⟨q, t.hdr.rowId.toInt64⟩ = some t := (mem_of_cell hsingle hmem).mpr ⟨ht, rfl⟩
    have hc : c ⟨q, t.hdr.rowId.toInt64⟩ = some t := (hthrough.rest _ fun _ => hnew).trans hc₀
    refine Prog.wp_mono (wp_onVisible_working h₀ hm hlooks hbody h hc hc₀) (fun _ e' h' => ?_)
      fun _ _ h' => h'
    obtain ⟨added', v, h', hlive⟩ := h'
    refine ⟨added', _, h', hthrough.concat hnew ?_⟩
    rw [hlive, changed, live, hc₀, Option.bind_some]
    simp only [if_true]
  · refine ⟨[], e₀.cell, ?_, fun _ _ => rfl, fun t ht => absurd ht List.not_mem_nil⟩
    exact Working.start h₀.kept
  · obtain ⟨added, c, h, hthrough⟩ := h
    refine ⟨added, c, h, ?_⟩
    funext k
    obtain ⟨q', id⟩ := k
    by_cases hk : q' = q → ∀ t ∈ mem.scanAll, t.hdr.rowId.toInt64 ≠ id
    · have hrest := hthrough.rest ⟨q', id⟩ hk
      rw [shown, hrest, changed, live]
      cases hcell : e₀.cell ⟨q', id⟩ with
      | none => rfl
      | some t =>
        have hq : q' ≠ q := by
          rintro rfl
          obtain ⟨ht, hid⟩ := (mem_of_cell hsingle hmem).mp hcell
          exact hk rfl t ht hid
        simp [hq]
    · push Not at hk
      obtain ⟨rfl, t, ht, rfl⟩ := hk
      exact hthrough.done t ht

end Statements

end StorageEngine
end JiaMiaoDB
