import JiaMiaoDB.Storage.InsertedRows
import JiaMiaoDB.Storage.ManagerEffects
import JiaMiaoDB.Storage.StoredCells

/-!
# Columns with the names of system columns

A row carries its row id and its transaction stamps under four names of their own. An insert overwrites
them, the row format leaves them out of the payload, and a scan fills them in from the header. A table may
have columns of these names all the same: such a column comes back only when it was given what the header
says.
-/

set_option autoImplicit false

namespace JiaMiaoDB
open StorageEngine BinaryRowCodec

/-! ### Rows in the row format -/

/-- A row of at most 65535 business columns comes back exactly when it has one. -/
theorem decode_encode_iff {row : Row} {bs : Bytes} (h : encode row = .ok bs)
    (hsize : (business row).size ≤ 65535) : decode bs = .ok (business row) ↔ business row ≠ ∅ := by
  constructor
  · intro hdecode he
    rw [decode_encode_empty h he] at hdecode
    cases hdecode
  · intro hne
    refine decode_encode_of_size h (Nat.pos_of_ne_zero fun hzero => hne ?_) (by omega)
    exact Std.ExtTreeMap.eq_empty_iff_size_eq_zero.mpr hzero

def oneColumn : Row := (∅ : Row).insert (str "a") .null

theorem encode_oneColumn : encode oneColumn = .ok [1, 0, 1, 0, 97, 0] := by decide +kernel

theorem decode_encode_oneColumn : encode oneColumn = .ok [1, 0, 1, 0, 97, 0] ∧
    (decode [1, 0, 1, 0, 97, 0] = .ok (business oneColumn) ↔ business oneColumn ≠ ∅) :=
  ⟨encode_oneColumn, decode_encode_iff encode_oneColumn (by decide +kernel)⟩

/-- The row without columns is written as two bytes. -/
theorem decode_encode_noColumn : ¬ ∀ (row : Row) (bs : Bytes), (business row).size ≤ 65535 →
    encode row = .ok bs → decode bs = .ok (business row) := by
  intro h
  have hbs : encode ∅ = .ok [0, 0] := rfl
  have hrow := h ∅ [0, 0] (by decide +kernel) hbs
  rw [decode_encode_empty hbs (by decide +kernel)] at hrow
  cases hrow

/-! ### The two ways to insert -/

inductive InsertMode where
  | plain
  | inTransaction
deriving DecidableEq

namespace InsertMode

def insert : InsertMode → Str → Row → EngineM Row
  | plain => StorageEngine.insert
  | inTransaction => StorageEngine.insertWithTxn

/-- The id under which the next transactional write is made. -/
def nextWriter (e : StorageEngine) : TransactionId :=
  if e.txnMgr.context.xid = InvalidTransactionId then e.txnMgr.nextXid else e.txnMgr.context.xid

/-- The row that is stored for a validated one. Without a transaction `_xmin` stays as it was given. -/
def stamped (mode : InsertMode) (e : StorageEngine) (qualified : Str) (validated : Row) : Row :=
  let row := validated.insert (str "_rowid") (.int (e.rowIds.getD qualified 0 + 1))
  match mode with
  | plain => (row.insert (str "_xmax") (.int 0)).insert (str "_cid") (.int 0)
  | inTransaction => stamp row (nextWriter e) 0 e.txnMgr.context.commandId

/-- The header of the version that the insert puts into the table. -/
def header (mode : InsertMode) (e : StorageEngine) (qualified : Str) (validated : Row) : TupleHeader :=
  headerFromRow qualified (e.rowIds.getD qualified 0 + 1) (mode.stamped e qualified validated)

/-- What the header says about a column of the given name. -/
def headerRow (mode : InsertMode) (e : StorageEngine) (qualified : Str) (validated : Row) : Row :=
  withSystemColumns ∅ (mode.header e qualified validated)

theorem business_stamped (mode : InsertMode) (e : StorageEngine) (q : Str) (validated : Row) :
    business (mode.stamped e q validated) = business validated := by
  apply Std.ExtTreeMap.ext_getElem?
  intro name
  rw [getElem?_business, getElem?_business]
  cases hname : isSystemColumn name with
  | true => rfl
  | false =>
    have hne : ¬ isSystemColumn name = true := by simp [hname]
    rw [isSystemColumn_iff] at hne
    push Not at hne
    simp only [Bool.false_eq_true, if_false]
    cases mode <;>
      simp only [stamped, stamp, Std.ExtTreeMap.getElem?_insert, Std.LawfulEqCmp.compare_eq_iff_eq,
        Ne.symm hne.1, Ne.symm hne.2.1, Ne.symm hne.2.2.1, Ne.symm hne.2.2.2, if_false]

theorem getRowId_stamped (mode : InsertMode) (e : StorageEngine) (q : Str) (validated : Row) :
    getRowId (mode.stamped e q validated) = .ok (e.rowIds.getD q 0 + 1) := by
  cases mode with
  | inTransaction => exact getRowId_stamp _ _ _ _ _
  | plain =>
    have hid : (stamped plain e q validated)[str "_rowid"]? =
        some (.int (e.rowIds.getD q 0 + 1)) := by
      simp only [stamped, Std.ExtTreeMap.getElem?_insert, Std.LawfulEqCmp.compare_eq_iff_eq]
      rw [if_neg (by decide), if_neg (by decide), if_pos trivial]
    rw [getRowId, hid]

end InsertMode

/-! ### What an insert leaves -/

section Runs
variable {e e₁ : StorageEngine} {table : Str} {row returned : Row}

/-- The insert succeeded: its row is the stamped one, and the version made of it is in the table. -/
structure Inserted (mode : InsertMode) (e : StorageEngine) (table : Str) (row returned : Row)
    (e₁ : StorageEngine) : Prop where
  row : ∃ schema validated, e.tables[e.resolveTableName table]? = some schema ∧
    e.validate schema row = .ok validated ∧
    returned = mode.stamped e (e.resolveTableName table) validated
  stored : ∃ t, HoldsVersion e₁ (e.resolveTableName table) returned t

theorem wp_assignXid_nextWriter {e₀ : StorageEngine} (h : e₀.txnMgr = e.txnMgr) :
    (inTxn TransactionManager.assignXid).wp (fun xid e₂ => xid = InsertMode.nextWriter e ∧
      e₂.txnMgr.context.commandId = e.txnMgr.context.commandId) (fun _ _ => True) e₀ := by
  rw [inTxn, Prog.wp_zoom, h]
  unfold InsertMode.nextWriter
  by_cases hxid : e.txnMgr.context.xid = InvalidTransactionId
  · rw [if_pos hxid]
    obtain ⟨c, -, ⟨-, f, hrun⟩ | ⟨-, hrun⟩⟩ := TransactionManager.run_assignXid_cases hxid
    · exact Prog.wp_of_error hrun trivial
    · exact Prog.wp_of_ok hrun ⟨rfl, rfl⟩
  · rw [if_neg hxid]
    exact Prog.wp_of_ok (TransactionManager.run_assignXid_of_ne hxid) ⟨rfl, rfl⟩

/-- The row that a transactional insert returns. -/
theorem wp_insertWithTxnBody_stamped (table : Str) (row : Row) : (insertWithTxnBody table row).wp
    (fun returned _ => ∃ schema validated, e.tables[e.resolveTableName table]? = some schema ∧
      e.validate schema row = .ok validated ∧
      returned = InsertMode.inTransaction.stamped e (e.resolveTableName table) validated)
    (fun _ _ => True) e := by
  rw [insertWithTxnBody, Prog.wp_bind, Prog.wp_get]
  dsimp only
  split
  · trivial
  rename_i schema hschema
  rw [Prog.wp_bind, Prog.wp_ofExcept]
  refine ⟨fun validated hvalidated => ?_, fun _ _ => trivial⟩
  rw [Prog.wp_bind]
  refine Prog.wp_mono (wp_nextRowId_rowIds _) (fun id e₁ h => ?_) fun _ _ h => h
  obtain ⟨-, rfl, rfl⟩ := h
  rw [Prog.wp_bind]
  refine Prog.wp_mono (wp_assignXid_nextWriter rfl) (fun xid e₂ h₂ => ?_) fun _ _ _ => trivial
  obtain ⟨rfl, hcid⟩ := h₂
  rw [Prog.wp_bind, Prog.wp_get, Prog.wp_bind, Prog.wp_ofExcept]
  refine ⟨fun m _ => ?_, fun _ _ => trivial⟩
  have hreturned : stamp (validated.insert (str "_rowid")
        (.int (e.rowIds.getD (e.resolveTableName table) 0 + 1))) (InsertMode.nextWriter e) 0
        e₂.reader.cid =
      InsertMode.inTransaction.stamped e (e.resolveTableName table) validated := by
    unfold InsertMode.stamped StorageEngine.reader
    rw [hcid]
  rw [Prog.wp_bind]
  refine Prog.wp_mono (Prog.wp_true _) (fun _ _ _ => ?_) fun _ _ _ => trivial
  rw [Prog.wp_bind]
  refine Prog.wp_mono (Prog.wp_true _) (fun _ _ _ => ?_) fun _ _ _ => trivial
  rw [Prog.wp_bind]
  refine Prog.wp_mono (Prog.wp_true _) (fun _ _ _ => ?_) fun _ _ _ => trivial
  exact ⟨schema, validated, hschema, hvalidated, hreturned⟩

theorem wp_insertBody_inserted (table : Str) (row : Row) : (insertBody table row).wp
    (fun returned e₁ => Inserted .plain e table row returned e₁) (fun _ _ => True) e := by
  rw [insertBody, Prog.wp_bind, Prog.wp_get]
  dsimp only
  split
  · trivial
  rename_i schema hschema
  rw [Prog.wp_bind, Prog.wp_ofExcept]
  refine ⟨fun validated hvalidated => ?_, fun _ _ => trivial⟩
  rw [Prog.wp_bind]
  refine Prog.wp_mono (wp_nextRowId_rowIds _) (fun id e₁ h => ?_) fun _ _ h => h
  obtain ⟨-, rfl, he₁⟩ := h
  rw [Prog.wp_bind, Prog.wp_ofExcept]
  refine ⟨fun m hm => ?_, fun _ _ => trivial⟩
  have hm' : e₁.data[e.resolveTableName table]? = some m := by
    rw [he₁]
    unfold dataAt at hm
    split at hm
    · cases hm
      assumption
    · cases hm
  rw [Prog.wp_bind]
  refine Prog.wp_mono (wp_storeInserted_stored hm' _ _ _) (fun _ e₂ h₂ => ?_) fun _ _ _ => trivial
  obtain ⟨-, -, -, t, seq, ht, hdata⟩ := h₂
  have hid := InsertMode.getRowId_stamped .plain e (e.resolveTableName table) validated
  refine ⟨⟨schema, validated, hschema, hvalidated, rfl⟩, t, _,
    m.put (e.rowIds.getD (e.resolveTableName table) 0 + 1) t seq, hid, ?_, ht, ?_⟩
  · rw [hdata, Std.ExtTreeMap.getElem?_insert_self]
  · refine MemTable.mem_getVersions.mpr ⟨_, MemTable.getElem?_put.mpr (.inl ⟨rfl, ?_⟩), rfl⟩
    exact (normalize_rowToTuple ht).symm

theorem HoldsVersion.sameTables {q : Str} {t : Tuple} {e₂ : StorageEngine}
    (h : HoldsVersion e₁ q row t) (h' : SameTables e₁ e₂) : HoldsVersion e₂ q row t := by
  obtain ⟨id, m, hid, hm, ht, hmem⟩ := h
  exact ⟨id, m, hid, by rw [h'.data, hm], ht, hmem⟩

/-- An insert that succeeds, in either way. -/
theorem inserted_of_run {mode : InsertMode} (h : (mode.insert table row).run e = (.ok returned, e₁)) :
    Inserted mode e table row returned e₁ := by
  cases mode with
  | plain =>
    refine Prog.wp_ok (Q := fun returned e₁ => Inserted .plain e table row returned e₁)
      (E := fun _ _ => True) ?_ h
    rw [InsertMode.insert, StorageEngine.insert, thenCheckpoint, Prog.wp_bind]
    refine Prog.wp_mono (wp_insertBody_inserted table row) (fun row' e₁ h₁ => ?_) fun _ _ _ => trivial
    rw [Prog.wp_bind]
    refine Prog.wp_mono (sameTables_maybeCheckpoint e₁ (.refl e₁)) (fun _ e₂ h' => ?_)
      fun _ _ _ => trivial
    obtain ⟨t, ht⟩ := h₁.stored
    exact ⟨h₁.row, t, HoldsVersion.sameTables ht h'⟩
  | inTransaction =>
    have hinserts := inserts_of_run h
    refine ⟨?_, hinserts.holdsVersion.2⟩
    refine Prog.wp_ok (Q := fun returned _ => ∃ schema validated,
      e.tables[e.resolveTableName table]? = some schema ∧ e.validate schema row = .ok validated ∧
      returned = InsertMode.inTransaction.stamped e (e.resolveTableName table) validated)
      (E := fun _ _ => True) ?_ h
    rw [InsertMode.insert, insertWithTxn, thenCheckpoint, Prog.wp_bind]
    refine Prog.wp_mono (wp_insertWithTxnBody_stamped table row) (fun row' e₁ h₁ => ?_)
      fun _ _ _ => trivial
    rw [Prog.wp_bind]
    exact Prog.wp_mono (Prog.wp_true _) (fun _ _ _ => h₁) fun _ _ _ => trivial

end Runs

/-! ### What a scan returns -/

/-- The scan returns the version, with every column as it was inserted. -/
def Scanned (e : StorageEngine) (table : Str) (r : StorageEngine.Reader) (t : Tuple)
    (columns : List ColumnDef) (validated : Row) : Prop :=
  ∃ rows got, e.scanWithSnapshot table r.snap r.xid r.cid = .ok rows ∧ got ∈ rows ∧
    toRow t = .ok got ∧ ∀ col ∈ columns, got[col.name]? = validated[col.name]?

/-- What has to hold for it: of the table, of the columns, of the values given for system columns, and of
the header if `_xmin` was given. -/
structure Survives (mode : InsertMode) (e e₂ : StorageEngine) (q : Str) (r : StorageEngine.Reader)
    (t : Tuple) (columns : List ColumnDef) (validated : Row) : Prop where
  others : ∀ m, e₂.data[q]? = some m → ∀ t' ∈ m.scanAll, t' ≠ t → ∃ got, toRow t' = .ok got
  readable : ∃ col ∈ columns, isSystemColumn col.name = false
  kept : ∀ col ∈ columns, isSystemColumn col.name = false → col.name ∈ keptNames columns
  given : ∀ col ∈ columns, isSystemColumn col.name = true →
    validated[col.name]? = (mode.headerRow e q validated)[col.name]?
  seen : r.sees e₂.txnMgr.clog (mode.headerRow e q validated) = true

/-- Visibility reads the system columns only. -/
theorem sees_congr {row row' : Row} (h : ∀ name, isSystemColumn name = true → row[name]? = row'[name]?)
    (r : StorageEngine.Reader) (clog : CLog) : r.sees clog row = r.sees clog row' := by
  have hxmin := h (str "_xmin") (by decide)
  have hxmax := h (str "_xmax") (by decide)
  have hcid := h (str "_cid") (by decide)
  unfold StorageEngine.Reader.sees checkTupleVisibility xidField cidField
  rw [hxmin, hxmax, hcid]

theorem exists_validated {e : StorageEngine} {schema : TableSchema} {row validated : Row}
    (h : e.validate schema row = .ok validated) {col : ColumnDef} (hcol : col ∈ schema.columns) :
    ∃ v, validated[col.name]? = some v := by
  have hvalidate := getElem?_validate h col.name
  cases hlast : columnOf schema.columns col.name with
  | some last =>
    rw [hlast] at hvalidate
    obtain ⟨v, -, hv⟩ := hvalidate
    exact ⟨v, hv⟩
  | none =>
    rw [columnOf, List.findRev?_eq_findRev?TR, List.findRev?TR, List.find?_eq_none] at hlast
    exact absurd (decide_eq_true rfl) (hlast col (List.mem_reverse.mpr hcol))

section Scan
variable {mode : InsertMode} {e e₂ : StorageEngine} {q table : Str} {schema : TableSchema}
  {row validated got : Row} {t : Tuple}

/-- The row of a version has in its system columns what the header says. -/
theorem system_of_toRow (ht : rowToTuple (mode.stamped e q validated) (mode.header e q validated) = .ok t)
    (hread : toRow t = .ok got) {name : Str} (hname : isSystemColumn name = true) :
    got[name]? = (mode.headerRow e q validated)[name]? := by
  obtain ⟨cols, -, rfl⟩ := toRow_eq_ok.mp hread
  obtain ⟨bs, -, ht⟩ := ExceptList.bind_ok_iff.mp ht
  cases ht
  exact getElem?_withSystemColumns_system hname

/-- The row of a version without business columns cannot be read. -/
theorem readable_iff (h : e.validate schema row = .ok validated)
    (ht : rowToTuple (mode.stamped e q validated) (mode.header e q validated) = .ok t) :
    (∃ got, toRow t = .ok got) ↔ ∃ col ∈ schema.columns, isSystemColumn col.name = false := by
  obtain ⟨bs, henc, ht⟩ := ExceptList.bind_ok_iff.mp ht
  cases ht
  have hbusiness := mode.business_stamped e q validated
  constructor
  · rintro ⟨got, hread⟩
    obtain ⟨cols, hdecode, -⟩ := toRow_eq_ok.mp hread
    by_cases hne : business (mode.stamped e q validated) = ∅
    · rw [decode_encode_empty henc hne] at hdecode
      cases hdecode
    rw [hbusiness] at hne
    obtain ⟨name, hname⟩ : ∃ name, name ∈ business validated := by
      by_contra hno
      push Not at hno
      exact hne (Std.ExtTreeMap.eq_empty_iff_forall_not_mem.mpr hno)
    obtain ⟨hmem, hsystem⟩ := mem_business.mp hname
    have hcol : ∃ col, columnOf schema.columns name = some col := by
      rw [mem_validate_iff h, Std.ExtTreeMap.mem_iff_isSome_getElem?, getElem?_blank] at hmem
      cases hcol : columnOf schema.columns name with
      | some col => exact ⟨col, rfl⟩
      | none =>
        rw [hcol] at hmem
        cases hmem
    obtain ⟨col, hcol⟩ := hcol
    have hlast := hcol
    rw [columnOf, List.findRev?_eq_findRev?TR, List.findRev?TR] at hlast
    refine ⟨col, List.mem_reverse.mp (List.mem_of_find?_eq_some hlast), ?_⟩
    rw [name_columnOf hcol]
    exact hsystem
  · rintro ⟨col, hcol, hsystem⟩
    obtain ⟨v, hv⟩ := exists_validated h hcol
    have hne : business (mode.stamped e q validated) ≠ ∅ := by
      rw [hbusiness]
      refine Std.ExtTreeMap.ne_empty_of_mem (a := col.name) (mem_business.mpr ⟨?_, hsystem⟩)
      rw [Std.ExtTreeMap.mem_iff_isSome_getElem?, hv]
      rfl
    exact ⟨_, toRow_eq_ok.mpr ⟨_, decode_encode henc hne, rfl⟩⟩

theorem mem_scanAll_of_getVersions {m : MemTable} {id : Int64} (h : t ∈ m.getVersions id) :
    t ∈ m.scanAll := by
  obtain ⟨k, hk, -⟩ := MemTable.mem_getVersions.mp h
  exact MemTable.mem_scanAll.mpr ⟨k, hk⟩

/-- A scan reads every version of the table. -/
theorem scan_ok_iff {m : MemTable} (htable : e₂.resolveTableName table = q)
    (hm : e₂.data[q]? = some m) : (∃ rows, e₂.scan table = .ok rows) ↔
      ∀ t ∈ m.scanAll, ∃ got, toRow t = .ok got := by
  have hscan : e₂.scan table = materializeAll m := by
    rw [StorageEngine.scan, tableOf, htable, hm]
    rfl
  rw [hscan]
  constructor
  · rintro ⟨rows, hrows⟩ t ht
    obtain ⟨got, -, hgot⟩ := ExceptList.ok_of_mapM_ok hrows ht
    exact ⟨got, hgot⟩
  · exact ExceptList.exists_mapM_ok

/-- Of a stored row a business column comes back exactly when its name is kept. -/
theorem got_business_iff (hvalid : e.validate schema row = .ok validated)
    (ht : rowToTuple (mode.stamped e q validated) (mode.header e q validated) = .ok t)
    (hread : toRow t = .ok got) {col : ColumnDef} (hcol : col ∈ schema.columns)
    (hname : isSystemColumn col.name = false) :
    got[col.name]? = validated[col.name]? ↔ col.name ∈ keptNames schema.columns := by
  obtain ⟨v, hv⟩ := exists_validated hvalid hcol
  have hcell := cell_iff_validated hvalid (mode.business_stamped e q validated) ht col.name v
  have hbusiness : (business got)[col.name]? = got[col.name]? := by
    rw [getElem?_business, if_neg (by simp [hname])]
  rw [hv]
  constructor
  · intro hgot
    exact (hcell.mp ⟨got, hread, hbusiness.trans hgot⟩).1
  · intro hkept
    obtain ⟨got', hread', hgot⟩ := hcell.mpr ⟨hkept, hv⟩
    obtain rfl := Except.ok.inj (hread.symm.trans hread')
    exact hbusiness.symm.trans hgot

/-- A row that was inserted comes back whole from a later scan exactly under the condition, whoever reads.
In a transaction `seen` says that the reader sees what the transaction has written. -/
theorem scanned_iff {e₁ : StorageEngine} {returned : Row}
    (hrun : (mode.insert table row).run e = (.ok returned, e₁))
    (hschema : e.tables[e.resolveTableName table]? = some schema)
    (hvalid : e.validate schema row = .ok validated)
    (htable : e₂.resolveTableName table = e.resolveTableName table)
    (hversion : HoldsVersion e₂ (e.resolveTableName table) returned t) (r : StorageEngine.Reader) :
    Scanned e₂ table r t schema.columns validated ↔
      Survives mode e e₂ (e.resolveTableName table) r t schema.columns validated := by
  obtain ⟨schema', validated', hschema', hvalid', rfl⟩ := (inserted_of_run hrun).row
  obtain rfl := Option.some.inj (hschema.symm.trans hschema')
  obtain rfl := Except.ok.inj (hvalid.symm.trans hvalid')
  obtain ⟨id, m, hid, hm, ht, hmem⟩ := hversion
  obtain rfl := Except.ok.inj ((mode.getRowId_stamped e _ validated).symm.trans hid)
  have hall := mem_scanAll_of_getVersions hmem
  have hscan := scan_ok_iff htable hm
  have hreadable := readable_iff hvalid ht
  constructor
  · rintro ⟨rows, got, hrows, hgot, hread, hcolumns⟩
    obtain ⟨all, hscanned, hfilter⟩ := ExceptList.bind_ok_iff.mp hrows
    obtain rfl := Except.ok.inj hfilter
    have hseen : r.sees e₂.txnMgr.clog got = true := (List.mem_filter.mp hgot).2
    rw [sees_congr fun name hname => system_of_toRow ht hread hname] at hseen
    exact {
      others := fun m' hm' t' ht' _ => by
        obtain rfl := Option.some.inj (hm.symm.trans hm')
        exact hscan.mp ⟨all, hscanned⟩ t' ht'
      readable := hreadable.mp ⟨got, hread⟩
      kept := fun col hcol hname =>
        (got_business_iff hvalid ht hread hcol hname).mp (hcolumns col hcol)
      given := fun col hcol hname =>
        (hcolumns col hcol).symm.trans (system_of_toRow ht hread hname)
      seen := hseen }
  · intro h
    obtain ⟨got, hread⟩ := hreadable.mpr h.readable
    obtain ⟨all, hscanned⟩ := hscan.mpr fun t' ht' => by
      by_cases heq : t' = t
      · exact ⟨got, heq ▸ hread⟩
      · exact h.others m hm t' ht' heq
    have hmaterialized : materializeAll m = .ok all := by
      rw [StorageEngine.scan, tableOf, htable, hm] at hscanned
      exact hscanned
    have hgot : got ∈ all := (ExceptList.mem_of_mapM_ok hmaterialized).mpr ⟨t, hall, hread⟩
    have hseen : r.sees e₂.txnMgr.clog got = true := by
      rw [sees_congr fun name hname => system_of_toRow ht hread hname]
      exact h.seen
    refine ⟨_, got, ?_, List.mem_filter.mpr ⟨hgot, hseen⟩, hread, fun col hcol => ?_⟩
    · rw [scanWithSnapshot, hscanned]
      rfl
    · cases hname : isSystemColumn col.name with
      | false => exact (got_business_iff hvalid ht hread hcol hname).mpr (h.kept col hcol hname)
      | true => exact (system_of_toRow ht hread hname).trans (h.given col hcol hname).symm

end Scan

/-! ### A column and its namesake -/

def twoColumns (name : Str) : List ColumnDef :=
  [⟨name, .integer, true, false, none⟩, ⟨str "a", .integer, true, false, none⟩]

def twoColumnRow (name : Str) : Row :=
  ((∅ : Row).insert name (.int 7)).insert (str "a") (.int 5)

def twoColumnEngine (name : Str) : StorageEngine :=
  ((Call.createTable (str "t") (twoColumns name)).exec.run (create Disk.empty 0 0)).2

/-- The schema, the validated row, the run and the stored version, for a call that succeeds. -/
theorem exists_insertion (mode : InsertMode) (e : StorageEngine) (table : Str) (row : Row)
    (h : ((mode.insert table row).run e).1.toOption.isSome = true) :
    ∃ schema validated returned e₁ t, (mode.insert table row).run e = (.ok returned, e₁) ∧
      e.tables[e.resolveTableName table]? = some schema ∧ e.validate schema row = .ok validated ∧
      HoldsVersion e₁ (e.resolveTableName table) returned t := by
  obtain ⟨returned, hreturned⟩ := Option.isSome_iff_exists.mp h
  have hrun := Prog.run_of_toOption hreturned
  obtain ⟨⟨schema, validated, hschema, hvalid, -⟩, t, ht⟩ := inserted_of_run hrun
  exact ⟨schema, validated, returned, _, t, hrun, hschema, hvalid, ht⟩

/-- A row of ordinary columns, inserted in a transaction. -/
theorem scanned_iff_ordinary : ∃ (schema : TableSchema) (validated returned : Row)
    (e₁ : StorageEngine) (t : Tuple),
    (InsertMode.inTransaction.insert (str "t") (twoColumnRow (str "b"))).run
        (twoColumnEngine (str "b")) = (.ok returned, e₁) ∧
      (Scanned e₁ (str "t") e₁.reader t schema.columns validated ↔
        Survives .inTransaction (twoColumnEngine (str "b")) e₁
          ((twoColumnEngine (str "b")).resolveTableName (str "t")) e₁.reader t schema.columns
          validated) := by
  obtain ⟨schema, validated, returned, e₁, t, hrun, hschema, hvalid, ht⟩ :=
    exists_insertion .inTransaction (twoColumnEngine (str "b")) (str "t") (twoColumnRow (str "b"))
      (by decide +kernel)
  refine ⟨schema, validated, returned, e₁, t, hrun, ?_⟩
  have htable : e₁.resolveTableName (str "t") =
      (twoColumnEngine (str "b")).resolveTableName (str "t") := by
    rw [resolveTableName, resolveTableName, (inserts_of_run hrun).catalog]
  exact scanned_iff hrun hschema hvalid htable ht e₁.reader

/-- The value of a column `_rowid` is lost. -/
theorem not_scanned_rowid : ¬ ∀ (mode : InsertMode) (e e₁ : StorageEngine) (table : Str)
    (row validated returned : Row) (schema : TableSchema) (t : Tuple),
    (mode.insert table row).run e = (.ok returned, e₁) →
    e.tables[e.resolveTableName table]? = some schema → e.validate schema row = .ok validated →
    HoldsVersion e₁ (e.resolveTableName table) returned t →
    Scanned e₁ table e₁.reader t schema.columns validated := by
  intro h
  obtain ⟨schema, validated, returned, e₁, t, hrun, hschema, hvalid, ht⟩ :=
    exists_insertion .inTransaction (twoColumnEngine (str "_rowid")) (str "t")
      (twoColumnRow (str "_rowid")) (by decide +kernel)
  obtain ⟨rows, got, hrows, hgot, -, hcolumns⟩ :=
    h _ _ e₁ _ _ validated returned schema t hrun hschema hvalid ht
  have hgiven : ((twoColumnEngine (str "_rowid")).tables[
      (twoColumnEngine (str "_rowid")).resolveTableName (str "t")]?).all fun schema =>
        schema.columns = twoColumns (str "_rowid") ∧
          ((twoColumnEngine (str "_rowid")).validate schema
            (twoColumnRow (str "_rowid"))).toOption.all fun row =>
              row[str "_rowid"]? = some (.int 7) := by decide +kernel
  have hreturned : let e₂ := ((InsertMode.inTransaction.insert (str "t")
        (twoColumnRow (str "_rowid"))).run (twoColumnEngine (str "_rowid"))).2
      (e₂.scanWithSnapshot (str "t") e₂.reader.snap e₂.reader.xid e₂.reader.cid).toOption.all
        (·.all fun row => row[str "_rowid"]? = some (.int 1)) := by decide +kernel
  rw [hrun] at hreturned
  rw [hschema, Option.all_some, decide_eq_true_eq, hvalid] at hgiven
  dsimp only at hreturned
  rw [hrows] at hreturned
  have hone : got[str "_rowid"]? = some (.int 1) :=
    of_decide_eq_true (List.all_eq_true.mp hreturned got hgot)
  have hseven : validated[str "_rowid"]? = some (.int 7) := of_decide_eq_true hgiven.2
  have hcol : (⟨str "_rowid", .integer, true, false, none⟩ : ColumnDef) ∈ schema.columns := by
    rw [hgiven.1]
    exact List.mem_cons_self
  have hsame := hcolumns _ hcol
  rw [hone, hseven] at hsame
  cases hsame

end JiaMiaoDB
