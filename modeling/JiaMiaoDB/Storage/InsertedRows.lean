import JiaMiaoDB.Storage.GeneratedKeys

/-!
# The rows that an insert leaves behind

An insert that succeeds adds the version of the row that it returns, under the row id after the counter. The
versions of the row ids that are handed out already stay, so that every row of a sequence of inserts is in
the table at the end.
-/

set_option autoImplicit false

namespace JiaMiaoDB
open BinaryRowCodec

namespace StorageEngine
variable {e e₁ e₂ : StorageEngine} {table q : Str} {row returned : Row} {t : Tuple}

/-- The version made of the row is in the table. -/
def HoldsVersion (e : StorageEngine) (q : Str) (row : Row) (t : Tuple) : Prop :=
  ∃ id m, getRowId row = .ok id ∧ e.data[q]? = some m ∧
    rowToTuple row (headerFromRow q id row) = .ok t ∧ t ∈ m.getVersions id

/-- Nothing that an insert reads of the tables is different. -/
structure SameTables (e e' : StorageEngine) : Prop where
  catalog : e'.catalog = e.catalog
  tables : e'.tables = e.tables
  data : e'.data = e.data
  rowIds : e'.rowIds = e.rowIds

theorem SameTables.refl (e : StorageEngine) : SameTables e e := ⟨rfl, rfl, rfl, rfl⟩

theorem SameTables.trans (h : SameTables e e₁) (h₁ : SameTables e₁ e₂) : SameTables e e₂ :=
  ⟨h₁.catalog.trans h.catalog, h₁.tables.trans h.tables, h₁.data.trans h.data,
    h₁.rowIds.trans h.rowIds⟩

theorem sameTables_inTxn {α : Type} (p : TxnM α) : Prog.Keeps (SameTables e) (inTxn p) := by
  intro e₁ h
  rw [inTxn, Prog.wp_zoom]
  exact Prog.wp_mono (Prog.wp_true p) (fun _ _ _ => h.trans ⟨rfl, rfl, rfl, rfl⟩)
    fun _ _ _ => h.trans ⟨rfl, rfl, rfl, rfl⟩

theorem sameTables_nextSeq : Prog.Keeps (SameTables e) nextSeq := by
  intro e₁ h
  rw [nextSeq, Prog.wp_bind, Prog.wp_get, Prog.wp_ite]
  split
  · exact h
  · exact h.trans ⟨rfl, rfl, rfl, rfl⟩

theorem sameTables_writeWal (op : WalOp) (payload : Bytes) (xid : TransactionId) :
    Prog.Keeps (SameTables e) (writeWal op q payload xid) :=
  sameTables_nextSeq.bind fun _ => Prog.Keeps.modify fun _ h => h.trans ⟨rfl, rfl, rfl, rfl⟩

theorem sameTables_maybeCheckpoint : Prog.Keeps (SameTables e) maybeCheckpoint := by
  intro e₁ h
  rw [maybeCheckpoint, Prog.wp_bind, Prog.wp_get, Prog.wp_ite]
  split
  · rw [checkpoint, Prog.wp_bind, Prog.wp_get, Prog.wp_bind, Prog.wp_ofExcept]
    exact ⟨fun _ _ => h.trans ⟨rfl, rfl, rfl, rfl⟩, fun _ _ => h⟩
  · exact h

/-- What one insert leaves of the tables. -/
structure Inserts (e : StorageEngine) (table : Str) (row returned : Row) (e' : StorageEngine) : Prop where
  catalog : e'.catalog = e.catalog
  columns : ∀ q : Str, (e'.tables[q]?).map TableSchema.columns = (e.tables[q]?).map TableSchema.columns
  counter : e.rowIds.getD (e.resolveTableName table) 0 ≠ Int64.maxValue ∧
    e'.rowIds = e.rowIds.insert (e.resolveTableName table)
      (e.rowIds.getD (e.resolveTableName table) 0 + 1)
  stored : ∃ m t seq, e.data[e.resolveTableName table]? = some m ∧
    rowToTuple returned (headerFromRow (e.resolveTableName table)
      (e.rowIds.getD (e.resolveTableName table) 0 + 1) returned) = .ok t ∧
    e'.data = e.data.insert (e.resolveTableName table)
      (m.put (e.rowIds.getD (e.resolveTableName table) 0 + 1) t seq)
  row : ∃ schema validated xid cid, e.tables[e.resolveTableName table]? = some schema ∧
    e.validate schema row = .ok validated ∧
    returned = stamp (validated.insert (str "_rowid")
      (.int (e.rowIds.getD (e.resolveTableName table) 0 + 1))) xid 0 cid

theorem sameTables_updateIndexes (q : Str) (id : Int64) (row : Row) (e : StorageEngine) :
    SameTables e (updateIndexes q id row e) := by
  unfold updateIndexes
  split
  · exact ⟨rfl, rfl, rfl, rfl⟩
  · exact .refl e

theorem columns_setRowCount (q q' : Str) (e : StorageEngine) :
    ((setRowCount q e).tables[q']?).map TableSchema.columns =
      (e.tables[q']?).map TableSchema.columns := by
  unfold setRowCount
  split
  · rename_i schema m hschema hm
    dsimp only
    rw [Std.ExtTreeMap.getElem?_insert]
    split
    · rename_i heq
      obtain rfl := Std.LawfulEqCmp.eq_of_compare heq
      rw [hschema]
      rfl
    · rfl
  · rfl

theorem wp_nextRowId_rowIds (q : Str) : (nextRowId q).wp
    (fun id e' => e.rowIds.getD q 0 ≠ Int64.maxValue ∧ id = e.rowIds.getD q 0 + 1 ∧
      e' = { e with rowIds := e.rowIds.insert q (e.rowIds.getD q 0 + 1) })
    (fun _ _ => True) e := by
  rw [nextRowId, Prog.wp_bind, Prog.wp_get]
  dsimp only
  split
  · trivial
  · exact ⟨‹_›, rfl, rfl⟩

/-- The version that is put in, from any state with the same tables. -/
theorem wp_storeInserted_stored {m : MemTable} (hm : e.data[q]? = some m) (id : Int64) (row : Row)
    (xid : TransactionId) : (storeInserted q id row xid).wp
    (fun _ e' => e'.catalog = e.catalog ∧ e'.rowIds = e.rowIds ∧
      (∀ q' : Str, (e'.tables[q']?).map TableSchema.columns = (e.tables[q']?).map TableSchema.columns) ∧
      ∃ t seq, rowToTuple row (headerFromRow q id row) = .ok t ∧
        e'.data = e.data.insert q (m.put id t seq)) (fun _ _ => True) e := by
  rw [storeInserted, Prog.wp_bind]
  refine Prog.wp_mono (sameTables_writeWal _ _ _ e (.refl e)) (fun _ e₁ h₁ => ?_) fun _ _ _ => trivial
  rw [Prog.wp_bind, putVersion, Prog.wp_bind, Prog.wp_ofExcept]
  refine ⟨fun t ht => ?_, fun _ _ => trivial⟩
  rw [Prog.wp_bind]
  refine Prog.wp_mono (sameTables_nextSeq e₁ h₁) (fun seq e₂ h₂ => ?_) fun _ _ _ => trivial
  have hdata : (modifyTable q (·.put id t seq.toUInt64) e₂) =
      e₂.setTable q (m.put id t seq.toUInt64) := by
    unfold modifyTable
    rw [h₂.data, hm]
  rw [Prog.wp_modify, Prog.wp_bind, Prog.wp_modify, Prog.wp_modify, hdata]
  have hindexed := sameTables_updateIndexes q id row (e₂.setTable q (m.put id t seq.toUInt64))
  rw [setRowCount_eq]
  refine ⟨hindexed.catalog.trans h₂.catalog, hindexed.rowIds.trans h₂.rowIds, fun q' => ?_, t,
    seq.toUInt64, ht, ?_⟩
  · rw [← setRowCount_eq, columns_setRowCount, hindexed.tables]
    exact congrArg (fun tables : StrMap TableSchema => (tables[q']?).map TableSchema.columns) h₂.tables
  · refine hindexed.data.trans ?_
    rw [setTable, h₂.data]

theorem wp_insertWithTxnBody_inserts (table : Str) (row : Row) : (insertWithTxnBody table row).wp
    (fun returned e' => Inserts e table row returned e') (fun _ _ => True) e := by
  rw [insertWithTxnBody, Prog.wp_bind, Prog.wp_get]
  dsimp only
  split
  · trivial
  rename_i schema hschema
  rw [Prog.wp_bind, Prog.wp_ofExcept]
  refine ⟨fun validated hvalidated => ?_, fun _ _ => trivial⟩
  rw [Prog.wp_bind]
  refine Prog.wp_mono (wp_nextRowId_rowIds _) (fun id e₁ h => ?_) fun _ _ h => h
  obtain ⟨hmax, rfl, he₁⟩ := h
  rw [Prog.wp_bind]
  refine Prog.wp_mono (sameTables_inTxn _ e₁ (.refl e₁)) (fun xid e₂ h₂ => ?_) fun _ _ _ => trivial
  rw [Prog.wp_bind, Prog.wp_get, Prog.wp_bind, Prog.wp_ofExcept]
  refine ⟨fun m hm => ?_, fun _ _ => trivial⟩
  rw [Prog.wp_bind]
  refine Prog.wp_mono (sameTables_inTxn _ e₂ h₂) (fun _ e₃ h₃ => ?_) fun _ _ _ => trivial
  rw [Prog.wp_bind]
  refine Prog.wp_mono (sameTables_inTxn _ e₃ h₃) (fun _ e₄ h₄ => ?_) fun _ _ _ => trivial
  have hm₄ : e₄.data[e.resolveTableName table]? = some m := by
    rw [h₄.data, ← h₂.data]
    unfold dataAt at hm
    split at hm
    · cases hm
      assumption
    · cases hm
  rw [Prog.wp_bind]
  refine Prog.wp_mono (wp_storeInserted_stored hm₄ _ _ xid) (fun _ e₅ h₅ => ?_) fun _ _ _ => trivial
  obtain ⟨hcatalog, hrowIds, hcolumns, t, seq, ht, hdata⟩ := h₅
  subst he₁
  exact {
    catalog := hcatalog.trans h₄.catalog
    columns := fun q => by rw [hcolumns, h₄.tables]
    counter := ⟨hmax, hrowIds.trans h₄.rowIds⟩
    stored := ⟨m, t, seq, by rw [← hm₄, h₄.data], ht, by rw [hdata, h₄.data]⟩
    row := ⟨schema, validated, xid, _, hschema, hvalidated, rfl⟩ }

theorem Inserts.sameTables {e' : StorageEngine} (h : Inserts e table row returned e₁)
    (h' : SameTables e₁ e') : Inserts e table row returned e' where
  catalog := h'.catalog.trans h.catalog
  columns q := by rw [h'.tables, h.columns]
  counter := ⟨h.counter.1, h'.rowIds.trans h.counter.2⟩
  stored := by
    obtain ⟨m, t, seq, hm, ht, hdata⟩ := h.stored
    exact ⟨m, t, seq, hm, ht, h'.data.trans hdata⟩
  row := h.row

/-- An insert that succeeds. -/
theorem inserts_of_run (h : (insertWithTxn table row).run e = (.ok returned, e₁)) :
    Inserts e table row returned e₁ := by
  refine Prog.wp_ok (Q := fun returned e₁ => Inserts e table row returned e₁) (E := fun _ _ => True)
    ?_ h
  rw [insertWithTxn, thenCheckpoint, Prog.wp_bind]
  refine Prog.wp_mono (wp_insertWithTxnBody_inserts table row) (fun row' e₁ h₁ => ?_) fun _ _ _ => trivial
  rw [Prog.wp_bind]
  exact Prog.wp_mono (sameTables_maybeCheckpoint e₁ (.refl e₁)) (fun _ _ h' => h₁.sameTables h')
    fun _ _ _ => trivial

/-! ### Versions that stay -/

/-- The versions of the row ids that the table has handed out are still there. -/
structure KeepsVersions (q : Str) (e e' : StorageEngine) : Prop where
  catalog : e'.catalog = e.catalog
  columns : ∀ q : Str, (e'.tables[q]?).map TableSchema.columns = (e.tables[q]?).map TableSchema.columns
  counter : e.rowIds.getD q 0 ≤ e'.rowIds.getD q 0
  versions : ∀ m, e.data[q]? = some m → ∃ m', e'.data[q]? = some m' ∧ m'.name = m.name ∧
    ∀ id ≤ e.rowIds.getD q 0, ∀ t ∈ m.getVersions id, t ∈ m'.getVersions id

theorem KeepsVersions.refl (q : Str) (e : StorageEngine) : KeepsVersions q e e :=
  ⟨rfl, fun _ => rfl, Int64.le_refl _, fun m hm => ⟨m, hm, rfl, fun _ _ _ h => h⟩⟩

theorem KeepsVersions.trans (h : KeepsVersions q e e₁) (h₁ : KeepsVersions q e₁ e₂) :
    KeepsVersions q e e₂ where
  catalog := h₁.catalog.trans h.catalog
  columns q := (h₁.columns q).trans (h.columns q)
  counter := Int64.le_trans h.counter h₁.counter
  versions m hm := by
    obtain ⟨m₁, hm₁, hname₁, hkeeps₁⟩ := h.versions m hm
    obtain ⟨m₂, hm₂, hname₂, hkeeps₂⟩ := h₁.versions m₁ hm₁
    refine ⟨m₂, hm₂, hname₂.trans hname₁, fun id hid t ht => ?_⟩
    exact hkeeps₂ id (Int64.le_trans hid h.counter) t (hkeeps₁ id hid t ht)

theorem KeepsVersions.resolve (h : KeepsVersions q e e₁) (table : Str) :
    e₁.resolveTableName table = e.resolveTableName table := by
  rw [resolveTableName, h.catalog]
  rfl

theorem Inserts.getD_counter (h : Inserts e table row returned e₁) :
    e₁.rowIds.getD (e.resolveTableName table) 0 = e.rowIds.getD (e.resolveTableName table) 0 + 1 := by
  rw [h.counter.2, Std.ExtTreeMap.getD_insert, if_pos Std.ReflCmp.compare_self]

theorem Inserts.keepsVersions (h : Inserts e table row returned e₁) :
    KeepsVersions (e.resolveTableName table) e e₁ where
  catalog := h.catalog
  columns := h.columns
  counter := by
    rw [h.getD_counter]
    exact Int64.le_of_lt (FixedWidth.lt_succ h.counter.1)
  versions m hm := by
    obtain ⟨m', t', seq, hm', -, hdata⟩ := h.stored
    cases hm.symm.trans hm'
    have hm₁ := Std.ExtTreeMap.getElem?_insert_self (t := e.data) (k := e.resolveTableName table)
      (v := m.put (e.rowIds.getD (e.resolveTableName table) 0 + 1) t' seq)
    rw [← hdata] at hm₁
    refine ⟨_, hm₁, rfl, fun id hid t ht => ?_⟩
    obtain ⟨k, hk, hkey⟩ := MemTable.mem_getVersions.mp ht
    refine MemTable.mem_getVersions.mpr ⟨k, MemTable.getElem?_put.mpr (.inr ⟨?_, hk⟩), hkey⟩
    rintro rfl
    have hid' := makeUserKey_injective hkey
    rw [← hid'] at hid
    exact Int64.not_lt.mpr hid (FixedWidth.lt_succ h.counter.1)

theorem getRowId_stamp (row : Row) (id : Int64) (xmin xmax : TransactionId) (cid : Int32) :
    getRowId (stamp (row.insert (str "_rowid") (.int id)) xmin xmax cid) = .ok id := by
  have hid : (stamp (row.insert (str "_rowid") (.int id)) xmin xmax cid)[str "_rowid"]? =
      some (.int id) := by
    simp only [stamp, Std.ExtTreeMap.getElem?_insert, Std.LawfulEqCmp.compare_eq_iff_eq]
    rw [if_neg (by decide), if_neg (by decide), if_neg (by decide), if_pos trivial]
  rw [getRowId, hid]

/-- The insert's own version. -/
theorem Inserts.holdsVersion (h : Inserts e table row returned e₁) :
    getRowId returned = .ok (e₁.rowIds.getD (e.resolveTableName table) 0) ∧
      ∃ t, HoldsVersion e₁ (e.resolveTableName table) returned t := by
  obtain ⟨m, t, seq, hm, ht, hdata⟩ := h.stored
  obtain ⟨schema, validated, xid, cid, -, -, hreturned⟩ := h.row
  have hid : getRowId returned = .ok (e.rowIds.getD (e.resolveTableName table) 0 + 1) := by
    rw [hreturned, getRowId_stamp]
  refine ⟨by rw [hid, h.getD_counter], t, _,
    m.put (e.rowIds.getD (e.resolveTableName table) 0 + 1) t seq, hid, ?_, ht, ?_⟩
  · rw [hdata, Std.ExtTreeMap.getElem?_insert_self]
  · refine MemTable.mem_getVersions.mpr ⟨_, MemTable.getElem?_put.mpr (.inl ⟨rfl, ?_⟩), rfl⟩
    exact (normalize_rowToTuple ht).symm

theorem HoldsVersion.keep (h : HoldsVersion e q row t) (hkeeps : KeepsVersions q e e₁)
    (hid : ∀ id, getRowId row = .ok id → id ≤ e.rowIds.getD q 0) : HoldsVersion e₁ q row t := by
  obtain ⟨id, m, hrow, hm, ht, hmem⟩ := h
  obtain ⟨m₁, hm₁, -, hversions⟩ := hkeeps.versions m hm
  exact ⟨id, m₁, hrow, hm₁, ht, hversions id (hid id hrow) t hmem⟩

theorem HoldsVersion.unique {t' : Tuple} (h : HoldsVersion e q row t) (h' : HoldsVersion e₁ q row t') :
    t = t' := by
  obtain ⟨id, m, hid, -, ht, -⟩ := h
  obtain ⟨id', m', hid', -, ht', -⟩ := h'
  cases hid.symm.trans hid'
  cases ht.symm.trans ht'
  rfl

/-! ### Sequences of inserts -/

/-- Inserts until one throws. -/
def insertEach (table : Str) (rows : List Row) : EngineM Unit :=
  Prog.forEach (fun row => do let _ ← insertWithTxn table row) rows

theorem run_insertEach_cons {rows : List Row}
    (h : (insertEach table (row :: rows)).run e = (.ok (), e₂)) : ∃ returned e₁,
      (insertWithTxn table row).run e = (.ok returned, e₁) ∧
        (insertEach table rows).run e₁ = (.ok (), e₂) := by
  obtain ⟨⟨⟩, e₁, hrow, hrest⟩ := Prog.exists_of_bind_ok h
  obtain ⟨returned, e', hrun, hpure⟩ := Prog.exists_of_bind_ok hrow
  cases hpure
  exact ⟨returned, _, hrun, hrest⟩

theorem keepsVersions_insertEach {rows : List Row}
    (h : (insertEach table rows).run e = (.ok (), e₁)) :
    KeepsVersions (e.resolveTableName table) e e₁ := by
  induction rows generalizing e with
  | nil =>
    cases h
    exact .refl _ _
  | cons row rows ih =>
    obtain ⟨returned, e₂, hrun, hrest⟩ := run_insertEach_cons h
    have hinserts := inserts_of_run hrun
    have hkeeps := ih hrest
    rw [hinserts.keepsVersions.resolve] at hkeeps
    exact hinserts.keepsVersions.trans hkeeps

/-- Each row of a sequence that succeeds is inserted where the rows before it have led, and its version
is in the table at the end. -/
theorem inserted_of_insertEach {pre post : List Row}
    (h : (insertEach table (pre ++ row :: post)).run e = (.ok (), e₂)) : ∃ e₁ returned e',
      (insertEach table pre).run e = (.ok (), e₁) ∧
      (insertWithTxn table row).run e₁ = (.ok returned, e') ∧
      ∃ t, HoldsVersion e₂ (e.resolveTableName table) returned t := by
  induction pre generalizing e with
  | nil =>
    obtain ⟨returned, e₁, hrun, hrest⟩ := run_insertEach_cons h
    have hinserts := inserts_of_run hrun
    obtain ⟨hid, t, ht⟩ := hinserts.holdsVersion
    have hkeeps := keepsVersions_insertEach hrest
    rw [hinserts.keepsVersions.resolve] at hkeeps
    refine ⟨e, returned, e₁, rfl, hrun, t, ht.keep hkeeps fun id hid' => ?_⟩
    cases hid.symm.trans hid'
    exact Int64.le_refl _
  | cons first pre ih =>
    obtain ⟨returned₀, e₀, hrun₀, hrest⟩ := run_insertEach_cons h
    obtain ⟨e₁, returned, e', hpre, hrun, hversion⟩ := ih hrest
    rw [(inserts_of_run hrun₀).keepsVersions.resolve] at hversion
    refine ⟨e₁, returned, e', ?_, hrun, hversion⟩
    rw [insertEach, Prog.forEach, Prog.run_bind, Prog.run_bind, hrun₀]
    exact hpre

end StorageEngine
end JiaMiaoDB
