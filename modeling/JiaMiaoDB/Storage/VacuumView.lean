import JiaMiaoDB.Storage.SeenVersions
import JiaMiaoDB.Storage.VacuumTables
import JiaMiaoDB.Storage.XidReuse

/-!
# What vacuum leaves to be seen

Vacuum erases versions that no reader sees and stores others again under the frozen id. A row is
stored with its business columns only, so a version that is stored again must have one.
-/

set_option autoImplicit false

namespace JiaMiaoDB
open StorageEngine BinaryRowCodec TransactionManager

/-! ### Readers -/

/-- The id of the reader is that of the current transaction, or none, and its snapshot is new or the
one that the transaction holds. -/
structure Reads (m : TransactionManager) (r : Reader) : Prop where
  xid : r.xid = InvalidTransactionId ∨ r.xid = m.context.xid
  snap : r.snap = m.getSnapshot ∨ m.context.hasSnapshot = true ∧ r.snap = m.context.snapshot

section Readers
variable {m : TransactionManager} {r : Reader} {x : TransactionId} {t t' : Tuple}

/-- The reader's own transaction is in progress. -/
theorem status_of_own (h : Settled m) (hr : Reads m r) (ho : Own r.xid x) :
    m.clog.getStatus x = .inProgress := by
  obtain ⟨rfl, hx⟩ := ho
  have hxid := hr.xid.resolve_left hx
  rw [hxid] at hx ⊢
  exact (h.active _ (h.context.resolve_left hx)).2

theorem status_ne_committed_of_listed (h : Settled m) (hr : Reads m r) (hx : x ∈ r.snap.xip) :
    m.clog.getStatus x ≠ .committed := by
  rcases hr.snap with hsnap | ⟨hheld, hsnap⟩
  · rw [hsnap] at hx
    rw [(h.active x (Std.ExtTreeSet.mem_toList.mp hx)).2]
    exact TransactionStatus.noConfusion
  · rw [hsnap] at hx
    exact h.held hheld x hx

/-- An id that has an outcome is neither special nor the reader's own. -/
theorem other_of_outcome (h : Settled m) (hr : Reads m r) (hx : m.clog.getStatus x ≠ .inProgress) :
    x ≠ InvalidTransactionId ∧ x ≠ FrozenTransactionId ∧ ¬ Own r.xid x := by
  refine ⟨?_, ?_, fun ho => hx (status_of_own h hr ho)⟩
  · rintro rfl
    exact hx (h.special _ (by decide))
  · rintro rfl
    exact hx (h.special _ (by decide))

theorem seen_of_outcome (h : Settled m) (hr : Reads m r)
    (hx : m.clog.getStatus t.hdr.xmin ≠ .inProgress) : t.seen r m.clog =
      (inserted r.snap t.hdr.xmin m.clog && survives r.xid t.hdr.xmax m.clog) := by
  obtain ⟨h0, hf, ho⟩ := other_of_outcome h hr hx
  have hmin := xmin_withSystemColumns t
  rw [Tuple.seen, Reader.sees, visible_other m.clog (hmin ▸ h0) (hmin ▸ hf) (hmin ▸ ho), hmin,
    xmax_withSystemColumns]

theorem status_of_erase {oldest xmin xmax : TransactionId} {c : CLog}
    (h : vacuumVerdict c oldest xmin xmax = .erase) : c.getStatus xmin = .aborted ∨
      c.getStatus xmin = .committed ∧ xmax ≠ InvalidTransactionId ∧
        c.getStatus xmax = .committed := by
  unfold vacuumVerdict at h
  split at h
  · cases h
  split at h
  · cases h
  split at h
  · exact .inl ‹_›
  split at h
  · exact .inr ‹_›
  split at h <;> cases h

theorem status_of_freeze {oldest xmin xmax : TransactionId} {c : CLog}
    (h : vacuumVerdict c oldest xmin xmax = .freeze) : c.getStatus xmin = .committed := by
  unfold vacuumVerdict at h
  split at h
  · cases h
  split at h
  · cases h
  split at h
  · cases h
  split at h
  · cases h
  split at h
  · exact (‹_ ∧ _› : _ ∧ _).1
  · cases h

theorem not_seen_of_erase {oldest : TransactionId} (h : Settled m) (hr : Reads m r)
    (hv : vacuumVerdict m.clog oldest t.hdr.xmin t.hdr.xmax = .erase) :
    t.seen r m.clog = false := by
  rcases status_of_erase hv with ha | ⟨hc, h0, hmax⟩
  · rw [seen_of_outcome h hr (by rw [ha]; exact TransactionStatus.noConfusion)]
    simp [inserted, ha]
  · rw [seen_of_outcome h hr (by rw [hc]; exact TransactionStatus.noConfusion)]
    simp [survives, h0, hmax]

/-- The frozen id stands for an inserter that has committed and that no snapshot lists. -/
theorem seen_of_freeze {oldest : TransactionId} (h : Settled m) (hr : Reads m r)
    (hv : vacuumVerdict m.clog oldest t.hdr.xmin t.hdr.xmax = .freeze)
    (hmin : t'.hdr.xmin = FrozenTransactionId) (hmax : t'.hdr.xmax = t.hdr.xmax) :
    t'.seen r m.clog = t.seen r m.clog := by
  have hc := status_of_freeze hv
  have hinserted : inserted r.snap t.hdr.xmin m.clog = true := by
    have hlist : t.hdr.xmin ∉ r.snap.xip := fun hx => status_ne_committed_of_listed h hr hx hc
    simp [inserted, hc, hlist]
  have hseen : t.seen r m.clog = survives r.xid t.hdr.xmax m.clog := by
    rw [seen_of_outcome h hr (by rw [hc]; exact TransactionStatus.noConfusion), hinserted,
      Bool.true_and]
  rw [hseen, Tuple.seen, Reader.sees,
    visible_frozen m.clog ((xmin_withSystemColumns t').trans hmin), xmax_withSystemColumns, hmax]

/-- An id that is given up was in progress, and its rows were not seen before either. -/
theorem seen_of_sameOutcomes {c c' : CLog} (hc : c.SameOutcomes c') (t : Tuple) (r : Reader) :
    t.seen r c' = t.seen r c := by
  unfold Tuple.seen Reader.sees
  by_cases h0 : xidField (withSystemColumns ∅ t.hdr) (str "_xmin") = InvalidTransactionId
  · rw [visible_of_no_xmin c' h0, visible_of_no_xmin c h0]
  by_cases hf : xidField (withSystemColumns ∅ t.hdr) (str "_xmin") = FrozenTransactionId
  · rw [visible_frozen c' hf, visible_frozen c hf, hc.survives]
  by_cases ho : Own r.xid (xidField (withSystemColumns ∅ t.hdr) (str "_xmin"))
  · exact visible_own c' c ho hf
  · rw [visible_other c' h0 hf ho, visible_other c h0 hf ho, hc.survives, hc.inserted]

theorem sameOutcomes_of_givesUp {c : CLog} (hc : m.GivesUp c) : m.clog.SameOutcomes c := by
  intro x
  rcases hc x with hx | ⟨-, -, hopen, ha⟩
  · exact .inl hx
  · exact .inr ⟨hopen, ha⟩

end Readers

/-! ### Scans before and after -/

/-- Rows up to the value of `_xmin`. -/
def withoutXmin (rows : RowSet) : RowSet := rows.map fun row => row.erase (str "_xmin")

/-- All readers of `e₀` find in `e` what they found. -/
structure SameScans (e₀ e : StorageEngine) : Prop where
  snapshot : e.txnMgr.getSnapshot = e₀.txnMgr.getSnapshot
  context : e.txnMgr.context = e₀.txnMgr.context
  rows : ∀ r, Reads e₀.txnMgr r → ∀ table,
    withoutXmin <$> e.scanWithSnapshot table r.snap r.xid r.cid =
      withoutXmin <$> e₀.scanWithSnapshot table r.snap r.xid r.cid

/-- Vacuum takes the tables by name and ends at the first that cannot be read. -/
def GetsTo (e : StorageEngine) (q : Str) : Prop :=
  ∀ q' m, e.data[q']? = some m → (compare q' q).isLE = true → ∃ rows, materializeAll m = .ok rows

/-- In the tables that vacuum gets to, every version that it freezes reads with a business column. -/
def FreezesColumns (e : StorageEngine) : Prop :=
  ∀ (q : Str) (m : MemTable), e.data[q]? = some m → GetsTo e q →
    ¬ Loses e.txnMgr.clog e.txnMgr.getOldestActiveXid m

section Scans
variable {e₀ e : StorageEngine} {q : Str} {m m' : MemTable}

theorem erase_insert (row : Row) (k : Str) (v : Value) : (row.insert k v).erase k = row.erase k := by
  refine Std.ExtTreeMap.ext_getElem? fun k' => ?_
  simp only [Std.ExtTreeMap.getElem?_erase, Std.ExtTreeMap.getElem?_insert]
  split <;> rfl

/-- Rows that are read from the versions that are left, one by one. -/
theorem exists_rows_filterMap {g : Tuple → Option Tuple} {p p' : Row → Bool} {ts : List Tuple}
    {rows : RowSet} (hrows : ts.mapM toRow = .ok rows)
    (hg : ∀ t ∈ ts, ∀ row, toRow t = .ok row → g t = none ∧ p row = false ∨
      ∃ t' row', g t = some t' ∧ toRow t' = .ok row' ∧ p' row' = p row ∧
        row'.erase (str "_xmin") = row.erase (str "_xmin")) :
    ∃ rows', (ts.filterMap g).mapM toRow = .ok rows' ∧
      withoutXmin (rows'.filter p') = withoutXmin (rows.filter p) := by
  induction ts generalizing rows with
  | nil =>
    cases hrows
    exact ⟨[], rfl, rfl⟩
  | cons t ts ih =>
    obtain ⟨row, rest, hrow, hrest, rfl⟩ := ExceptList.mapM_cons_ok.mp hrows
    obtain ⟨rest', hrest', he⟩ := ih hrest fun t ht => hg t (List.mem_cons_of_mem _ ht)
    rcases hg t List.mem_cons_self row hrow with ⟨hnone, hp⟩ | ⟨t', row', hsome, hrow', hp, hxmin⟩
    · refine ⟨rest', ?_, ?_⟩
      · rw [List.filterMap_cons_none hnone]
        exact hrest'
      · rw [List.filter_cons_of_neg (by rw [hp]; exact Bool.false_ne_true)]
        exact he
    · refine ⟨row' :: rest', ?_, ?_⟩
      · rw [List.filterMap_cons_some hsome]
        exact ExceptList.mapM_cons_ok.mpr ⟨row', rest', hrow', hrest', rfl⟩
      · rw [List.filter_cons, List.filter_cons, hp]
        split
        · rw [withoutXmin, List.map_cons, hxmin]
          exact congrArg (row.erase (str "_xmin") :: ·) he
        · exact he

theorem scanWithSnapshot_of_table {table : Str} (hm : e.data[e.resolveTableName table]? = some m)
    (r : Reader) : e.scanWithSnapshot table r.snap r.xid r.cid =
      List.filter (r.sees e.txnMgr.clog) <$> materializeAll m := by
  rw [scanWithSnapshot, StorageEngine.scan, tableOf_eq_ok.mpr hm]
  rfl

theorem scanWithSnapshot_of_none {table : Str} (hm : e.data[e.resolveTableName table]? = none)
    (r : Reader) : e.scanWithSnapshot table r.snap r.xid r.cid = .error (noTable table) := by
  rw [scanWithSnapshot, StorageEngine.scan, tableOf, hm]
  rfl

/-- The scans of a table that was vacuumed. -/
theorem scan_of_vacuumed (h : Settled e₀.txnMgr) {r : Reader} (hr : Reads e₀.txnMgr r) {c : CLog}
    (hc : e₀.txnMgr.GivesUp c)
    (hcols : ¬ Loses e₀.txnMgr.clog e₀.txnMgr.getOldestActiveXid m)
    (hv : Vacuumed e₀.txnMgr.clog e₀.txnMgr.getOldestActiveXid q m m') :
    withoutXmin <$> List.filter (r.sees c) <$> materializeAll m' =
      withoutXmin <$> List.filter (r.sees e₀.txnMgr.clog) <$> materializeAll m := by
  obtain ⟨rows, hrows⟩ := hv.read
  have hout := sameOutcomes_of_givesUp hc
  have hversion : ∀ t ∈ m.scanAll, ∀ row, toRow t = .ok row →
      vacuumed e₀.txnMgr.clog e₀.txnMgr.getOldestActiveXid q t = none ∧
          r.sees e₀.txnMgr.clog row = false ∨
        ∃ t' row', vacuumed e₀.txnMgr.clog e₀.txnMgr.getOldestActiveXid q t = some t' ∧
          toRow t' = .ok row' ∧ r.sees c row' = r.sees e₀.txnMgr.clog row ∧
            row'.erase (str "_xmin") = row.erase (str "_xmin") := by
    intro t ht row hrow
    rw [seen_of_toRow hrow]
    cases hverdict : vacuumVerdict e₀.txnMgr.clog e₀.txnMgr.getOldestActiveXid t.hdr.xmin
      t.hdr.xmax with
    | keep =>
      refine .inr ⟨t, row, vacuumed_eq_some.mpr (.inl ⟨hverdict, rfl⟩), hrow, ?_, rfl⟩
      rw [seen_of_toRow hrow, seen_of_sameOutcomes hout]
    | erase =>
      refine .inl ⟨?_, not_seen_of_erase h hr hverdict⟩
      rw [vacuumed, hverdict]
    | freeze =>
      obtain ⟨t', ht', -, hmin, hmax, -⟩ := exists_refrozen hrow q
      have hb : business row ≠ ∅ := fun hempty => hcols ⟨t, ht, hverdict, row, hrow, hempty⟩
      have hrow' := toRow_refrozen hrow hb ht'
      refine .inr ⟨t', _, vacuumed_eq_some.mpr (.inr ⟨hverdict, ht'⟩), hrow', ?_,
        erase_insert _ _ _⟩
      rw [seen_of_toRow hrow', seen_of_sameOutcomes hout, seen_of_freeze h hr hverdict hmin hmax]
  obtain ⟨rows', hrows', he⟩ := exists_rows_filterMap hrows hversion
  rw [← hv.scan] at hrows'
  have hread : materializeAll m' = .ok rows' := hrows'
  rw [hread, hrows]
  exact congrArg Except.ok he

/-- The scans of a table that was left as it is. -/
theorem scan_of_same {r : Reader} {c : CLog} (hc : e₀.txnMgr.GivesUp c) (m : MemTable) :
    List.filter (r.sees c) <$> materializeAll m =
      List.filter (r.sees e₀.txnMgr.clog) <$> materializeAll m := by
  cases hrows : materializeAll m with
  | error f => rfl
  | ok rows =>
    refine congrArg Except.ok (List.filter_congr fun row hrow => ?_)
    obtain ⟨t, -, hread⟩ := (ExceptList.mem_of_mapM_ok hrows).mp hrow
    rw [seen_of_toRow hread, seen_of_toRow hread, seen_of_sameOutcomes (sameOutcomes_of_givesUp hc)]

theorem lt_of_split {done rest : List Str} (hkeys : e₀.data.keys = done ++ rest) {q q' : Str}
    (hq : q ∈ done) (hq' : q' ∈ rest) : compare q q' = .lt := by
  have hsorted := Std.ExtTreeMap.ordered_keys (t := e₀.data)
  rw [hkeys, List.pairwise_append] at hsorted
  exact hsorted.2.2 q hq q' hq'

theorem mem_of_split {done rest : List Str} (hkeys : e₀.data.keys = done ++ rest)
    (hm : e₀.data[q]? = some m) : q ∈ done ∨ q ∈ rest := by
  rw [← List.mem_append, ← hkeys, Std.ExtTreeMap.mem_keys, Std.ExtTreeMap.mem_iff_isSome_getElem?,
    hm]
  rfl

theorem getsTo_of_done {done rest : List Str} (h : AfterVacuum done rest e₀ e) (hq : q ∈ done) :
    GetsTo e₀ q := by
  intro q' m' hm' hle
  rcases mem_of_split h.keys hm' with hdone | hrest
  · obtain ⟨m, m₂, hm, -, hv⟩ := h.passed q' hdone
    obtain rfl := Option.some.inj (hm.symm.trans hm')
    exact hv.read
  · have hgt : compare q' q = .gt := Std.OrientedCmp.gt_of_lt (lt_of_split h.keys hq hrest)
    rw [hgt] at hle
    cases hle

theorem sameScans_of_freezesColumns {done rest : List Str} (h : Settled e₀.txnMgr)
    (hcols : FreezesColumns e₀) (hafter : AfterVacuum done rest e₀ e) : SameScans e₀ e := by
  obtain ⟨c, hc, hm⟩ := hafter.manager
  have hclog : e.txnMgr.clog = c := by rw [hm]
  refine ⟨by rw [hm]; rfl, by rw [hm], fun r hr table => ?_⟩
  have hname : e.resolveTableName table = e₀.resolveTableName table := by
    rw [resolveTableName, resolveTableName, hafter.catalog]
  by_cases hdone : e₀.resolveTableName table ∈ done
  · obtain ⟨m, m', hm₀, hm', hv⟩ := hafter.passed _ hdone
    rw [← hname] at hm'
    rw [scanWithSnapshot_of_table hm₀, scanWithSnapshot_of_table hm', hclog]
    exact scan_of_vacuumed h hr hc (hcols _ m hm₀ (getsTo_of_done hafter hdone)) hv
  · have hsame := hafter.others _ hdone
    cases hm₀ : e₀.data[e₀.resolveTableName table]? with
    | none =>
      rw [scanWithSnapshot_of_none hm₀, scanWithSnapshot_of_none]
      rw [hname, hsame, hm₀]
    | some m =>
      rw [hm₀, ← hname] at hsame
      rw [scanWithSnapshot_of_table hm₀, scanWithSnapshot_of_table hsame, hclog, scan_of_same hc]

/-- A table that loses its columns is among those that vacuum has changed. -/
theorem exists_loses {done rest : List Str} (h : AfterVacuum done rest e₀ e)
    (hm : e₀.data[q]? = some m) (hgets : GetsTo e₀ q)
    (hlose : Loses e₀.txnMgr.clog e₀.txnMgr.getOldestActiveXid m) :
    ∃ q ∈ done, ∃ m, e₀.data[q]? = some m ∧
      Loses e₀.txnMgr.clog e₀.txnMgr.getOldestActiveXid m := by
  rcases h.stops with rfl | ⟨q', m', f, hhead, hm', hf⟩ | ⟨q', m', hq', hm', hlose'⟩
  · rcases mem_of_split h.keys hm with hq | hq
    · exact ⟨q, hq, m, hm, hlose⟩
    · cases hq
  · rcases mem_of_split h.keys hm with hq | hq
    · exact ⟨q, hq, m, hm, hlose⟩
    · -- The table that cannot be read is not after `q`.
      obtain ⟨tail, rfl⟩ := List.head?_eq_some_iff.mp hhead
      have hle : (compare q' q).isLE = true := by
        rcases List.mem_cons.mp hq with rfl | hq
        · have hself : compare q q = .eq := Std.ReflCmp.compare_self
          rw [hself]
          rfl
        · have hkeys := h.keys
          rw [← List.singleton_append, ← List.append_assoc] at hkeys
          rw [lt_of_split hkeys (List.mem_append_right _ List.mem_cons_self) hq]
          rfl
      obtain ⟨rows, hrows⟩ := hgets q' m' hm' hle
      rw [hf] at hrows
      cases hrows
  · exact ⟨q', hq', m', hm', hlose'⟩

theorem freezesColumns_of_sameScans {done rest : List Str} (h : Sound e₀)
    (hafter : AfterVacuum done rest e₀ e) (hscans : SameScans e₀ e) : FreezesColumns e₀ := by
  intro q m hm hgets hlose
  obtain ⟨q, hq, m, hm, hlose⟩ := exists_loses hafter hm hgets hlose
  obtain ⟨m₀, m', hm₀, hm', hv⟩ := hafter.passed q hq
  obtain rfl := Option.some.inj (hm.symm.trans hm₀)
  have hdot : (46 : UInt8) ∈ q := by
    refine h.tables.qualified q (Std.ExtTreeMap.mem_iff_isSome_getElem?.mpr ?_)
    rw [hm]
    rfl
  obtain ⟨rows, hrows⟩ := hv.read
  have hsame := hscans.rows ⟨InvalidTransactionId, e₀.txnMgr.getSnapshot, 0⟩ ⟨.inl rfl, .inl rfl⟩ q
  rw [← resolveTableName_of_dot (e := e₀) hdot] at hm
  rw [← resolveTableName_of_dot (e := e) hdot] at hm'
  rw [scanWithSnapshot_of_table hm, scanWithSnapshot_of_table hm', hrows] at hsame
  cases hrows' : materializeAll m' with
  | ok rows' => exact not_materializeAll_of_loses hv hlose rows' hrows'
  | error f =>
    rw [hrows'] at hsame
    cases hsame

end Scans

theorem exists_afterVacuum {s : Session} (h : Session.Reached Session.Transactional s)
    (hroom : HasNumbers s.engine) :
    ∃ done rest, AfterVacuum done rest s.engine (vacuum.run s.engine).2 := by
  have hafter := wp_vacuum (sound_of_reached h)
  unfold Prog.wp at hafter
  rcases hrun : vacuum.run s.engine with ⟨f | n, e⟩ <;> rw [hrun] at hafter
  · exact hafter.resolve_left (not_not.2 hroom)
  · exact ⟨_, _, hafter⟩

/-- In a run of transactions, vacuum does not show if and only if it freezes rows with columns. -/
theorem vacuum_invisible_iff {s : Session} (h : Session.Reached Session.Transactional s)
    (hroom : HasNumbers s.engine) :
    SameScans s.engine (vacuum.run s.engine).2 ↔ FreezesColumns s.engine := by
  have hsound := sound_of_reached h
  obtain ⟨done, rest, hafter⟩ := exists_afterVacuum h hroom
  exact ⟨freezesColumns_of_sameScans hsound hafter,
    fun hcols => sameScans_of_freezesColumns hsound.manager hcols hafter⟩

theorem transactional_transactedEngine :
    Session.Reached Session.Transactional ⟨transactedEngine, [], false⟩ :=
  .step (a := .call (.writeXactCommit 3)) (.step
    (a := .call (.txn ManagerCall.commitTransaction.run)) (.step
    (a := .call (.insertWithTxn (str "t") oneRow)) (.step
    (a := .call (.createTable (str "t") [⟨str "a", .integer, true, false, none⟩])) (.start 0 0)
    trivial rfl) trivial rfl) ⟨.commitTransaction, rfl, rfl⟩ rfl) trivial rfl

/-- A row with one column. -/
theorem vacuum_invisible_transacted :
    SameScans transactedEngine (vacuum.run transactedEngine).2 := by
  have hroom : transactedEngine.walSeq.toInt +
      versionsIn transactedEngine transactedEngine.data.keys < 2 ^ 63 := by decide +kernel
  refine (vacuum_invisible_iff transactional_transactedEngine hroom).mpr ?_
  rintro q m hm - ⟨t, ht, -, row, hrow, hempty⟩
  have hcols : (transactedEngine.data.keys.all fun q => (transactedEngine.data[q]?).all fun m =>
      m.scanAll.all fun t => (toRow t).toOption.any fun row => !(business row).isEmpty) = true := by
    decide +kernel
  have hq : q ∈ transactedEngine.data.keys := by
    rw [Std.ExtTreeMap.mem_keys, Std.ExtTreeMap.mem_iff_isSome_getElem?, hm]
    rfl
  have h := List.all_eq_true.mp hcols q hq
  rw [hm] at h
  have h := List.all_eq_true.mp h t ht
  rw [hrow, Except.toOption, Option.any_some, hempty] at h
  cases h

/-! ### A row with a multiple of 65536 columns -/

section Wide
variable {e : StorageEngine} {q : Str} {m : MemTable} {row : Row} {updates : Updates}

theorem run_checkUniqueUpdate {columns : List ColumnDef} (h : ∀ col ∈ columns, col.primaryKey = false)
    (rowid : Int64) (r : Reader) (all : List Tuple) (m : TransactionManager) :
    (checkUniqueUpdate columns updates rowid r all).run m = (.ok (), m) := by
  unfold checkUniqueUpdate
  induction columns with
  | nil => rfl
  | cons col columns ih =>
    rw [Prog.forEach, h col List.mem_cons_self]
    exact ih fun col hcol => h col (List.mem_cons_of_mem _ hcol)

/-- The row is logged, and its new version takes the place of the older ones. -/
theorem run_replaceVersion (op : WalOp) (payload : Bytes) (xid : TransactionId) {id : Int64}
    {t : Tuple} (hm : e.data[q]? = some m) (hseq : e.walSeq ≠ Int64.maxValue)
    (hseq' : e.walSeq + 1 ≠ Int64.maxValue) (ht : rowToTuple row (headerFromRow q id row) = .ok t) :
    ∃ dir wal, (do writeWal op q payload xid; eraseVersions q id; putVersion q id row :
      EngineM Unit).run e = (.ok (), { e with
        dir := dir, wal := wal, walSeq := e.walSeq + 1 + 1
        data := e.data.insert q ((m.eraseAllFor id).put id t (e.walSeq + 1 + 1).toUInt64) }) := by
  obtain ⟨dir, wal, hlog⟩ : ∃ dir wal, (writeWal op q payload xid).run e =
      (.ok (), { e with walSeq := e.walSeq + 1, dir := dir, wal := wal }) :=
    ⟨_, _, run_writeWal hseq op q payload xid⟩
  refine ⟨dir, wal, ?_⟩
  rw [Prog.bind_ok hlog, Prog.bind_ok (run_eraseVersions
    (e := { e with walSeq := e.walSeq + 1, dir := dir, wal := wal }) hm id)]
  refine (run_putVersion (m := m.eraseAllFor id) ht Std.ExtTreeMap.getElem?_insert_self hseq').trans ?_
  rw [OrderedMap.insert_insert]

/-- What the update of one row leaves, in a table without a primary key and a transaction that does
not track conflicts. -/
theorem run_updateRowWithTxn {r : Reader} (all : List Tuple) {id : Int64} {t : Tuple}
    (hid : getRowId row = .ok id) (htracks : e.txnMgr.tracksConflicts = false)
    (hkeys : ∀ col ∈ (e.tables[q]?).elim [] (·.columns), col.primaryKey = false)
    (hm : e.data[q]? = some m) (hseq : e.walSeq ≠ Int64.maxValue)
    (hseq' : e.walSeq + 1 ≠ Int64.maxValue)
    (ht : rowToTuple (stamp (applyUpdates row updates) r.xid 0 r.cid)
      (headerFromRow q id (stamp (applyUpdates row updates) r.xid 0 r.cid)) = .ok t) :
    ∃ u dir wal, (updateRowWithTxn q updates r all row).run e = (.ok (), { e with
      txnMgr := e.txnMgr.addUndoRecord u
      dir := dir, wal := wal, walSeq := e.walSeq + 1 + 1
      data := e.data.insert q ((m.eraseAllFor id).put id t (e.walSeq + 1 + 1).toUInt64) }) := by
  have hwrite : (inTxn (Prog.modify (·.registerWrite ⟨q, id⟩))).run e = (.ok (), e) := by
    unfold inTxn Prog.zoom
    simp only [Prog.run_modify, registerWrite, htracks, Bool.false_eq_true, if_false]
    rfl
  have hcheck : (inTxn (checkUniqueUpdate ((e.tables[q]?).elim [] (·.columns)) updates id r
      all)).run e = (.ok (), e) := by
    unfold inTxn Prog.zoom
    simp only [run_checkUniqueUpdate hkeys]
    rfl
  have hundo : ∀ u, (inTxn (Prog.modify (·.addUndoRecord u))).run e =
      (.ok (), e.setTxnMgr (e.txnMgr.addUndoRecord u)) := fun _ => rfl
  unfold updateRowWithTxn
  rw [hid, Prog.bind_ok (Prog.run_ofExcept _ e), Prog.bind_ok hwrite]
  dsimp only
  rw [Prog.bind_ok (Prog.run_get e), Prog.bind_ok hcheck, Prog.bind_ok (hundo _)]
  obtain ⟨dir, wal, hrun⟩ := run_replaceVersion (e := e.setTxnMgr (e.txnMgr.addUndoRecord
    ⟨.update, q, id, row, stamp (applyUpdates row updates) r.xid 0 r.cid⟩)) .update
    (walEncodeUpdate ⟨id, updates, stamp (applyUpdates row updates) r.xid 0 r.cid⟩) r.xid hm hseq
    hseq' ht
  exact ⟨_, dir, wal, hrun⟩

/-- The update of a table with one row, which the transaction sees. -/
theorem run_updateOne {e₁ e₂ : StorageEngine} {table : Str} {x : TransactionId} {t : Tuple}
    (hname : e.resolveTableName table = q) (hm : e.data[q]? = some m)
    (hassign : (inTxn assignXid).run e = (.ok x, e₁)) (hscan : m.scanAll = [t])
    (hread : toRow t = .ok row) (hsees : e₁.reader.sees e₁.txnMgr.clog row = true)
    (hindexes : e₁.updatesAffectIndex q updates = false)
    (hrow : (updateRowWithTxn q updates e₁.reader m.scanAll row).run e₁ = (.ok (), e₂))
    (hinterval : e₂.checkpointInterval = 0) :
    (updateWithTxn table (fun _ => true) updates).run e = (.ok 1, e₂) := by
  have htable : e.tableOf table = .ok m := by
    rw [tableOf_eq_ok, hname]
    exact hm
  have hone : (onVisible e₁.reader (fun _ => true) (updateRowWithTxn q updates e₁.reader m.scanAll)
      t).run e₁ = (.ok 1, e₂) := by
    rw [onVisible, hread, Prog.bind_ok (Prog.run_ofExcept _ _), Prog.bind_ok (Prog.run_get _),
      hsees, Bool.and_true, if_pos rfl, Prog.bind_ok hrow]
    rfl
  have hsum : (Prog.sumEach (onVisible e₁.reader (fun _ => true) (updateRowWithTxn q updates
      e₁.reader m.scanAll)) m.scanAll).run e₁ = (.ok 1, e₂) := by
    rw [hscan] at hone ⊢
    rw [Prog.sumEach, Prog.bind_ok hone]
    rfl
  have hbody : (updateWithTxnBody table (fun _ => true) updates).run e = (.ok 1, e₂) := by
    rw [updateWithTxnBody, Prog.bind_ok (Prog.run_get _), htable, hname,
      Prog.bind_ok (Prog.run_ofExcept _ _), Prog.bind_ok hassign, Prog.bind_ok (Prog.run_get _),
      Prog.bind_ok hsum, hindexes, rebuildIf, if_neg Bool.false_ne_true]
    rfl
  have hdue : ¬ e₂.checkpointDue = true := by simp [checkpointDue, hinterval]
  have hcheckpoint : maybeCheckpoint.run e₂ = (.ok (), e₂) := by
    rw [maybeCheckpoint, Prog.bind_ok (Prog.run_get _), if_neg hdue]
    rfl
  rw [updateWithTxn, thenCheckpoint, Prog.bind_ok hbody, Prog.bind_ok hcheckpoint]
  rfl

/-- The names have two bytes, so that they are neither system columns nor that of the table. -/
structure WideUpdates (updates : Updates) : Prop where
  size : updates.size = 65535
  entries : ∀ (k : Str) (v : Value), updates[k]? = some v → k.length = 2 ∧ v = .null

theorem WideUpdates.names (h : WideUpdates updates) {k : Str} (hk : k ∈ updates) : k.length = 2 := by
  obtain ⟨v, hv⟩ := Option.isSome_iff_exists.mp (Std.ExtTreeMap.mem_iff_isSome_getElem?.mp hk)
  exact (h.entries k v hv).1

theorem isSystemColumn_of_length {k : Str} (h : k.length = 2) : isSystemColumn k = false := by
  rw [Bool.eq_false_iff, Ne, isSystemColumn_iff]
  rintro (rfl | rfl | rfl | rfl) <;> cases h

/-- The columns of a row with the one column `a` and 65535 more. -/
theorem business_widened (h : WideUpdates updates) {v : Value} (x y : TransactionId) (cid : Int32)
    (hrow : business row = (∅ : Row).insert (str "a") v) :
    business (stamp (applyUpdates row updates) x y cid) = updates.insert (str "a") v := by
  have hbusiness : business (stamp (applyUpdates row updates) x y cid) =
      business (applyUpdates row updates) := by
    refine Std.ExtTreeMap.ext_getElem? fun k => ?_
    rw [getElem?_business, getElem?_business]
    split
    · rfl
    · rename_i hk
      rw [isSystemColumn_iff, not_or, not_or, not_or] at hk
      simp only [stamp, Std.ExtTreeMap.getElem?_insert, Std.LawfulEqCmp.compare_eq_iff_eq]
      rw [if_neg (Ne.symm hk.2.2.2), if_neg (Ne.symm hk.2.2.1), if_neg (Ne.symm hk.2.1)]
  rw [hbusiness]
  refine Std.ExtTreeMap.ext_getElem? fun k => ?_
  have hk := congrArg (fun r : Row => r[k]?) hrow
  simp only [getElem?_business, Std.ExtTreeMap.getElem?_insert,
    Std.LawfulEqCmp.compare_eq_iff_eq, Std.ExtTreeMap.getElem?_empty] at hk
  rw [getElem?_business, getElem?_applyUpdates, Std.ExtTreeMap.getElem?_insert]
  simp only [Std.LawfulEqCmp.compare_eq_iff_eq]
  by_cases hmem : k ∈ updates
  · have hlength := h.names hmem
    have hne : str "a" ≠ k := by
      rintro rfl
      cases hlength
    rw [isSystemColumn_of_length hlength, if_neg hne, if_neg Bool.false_ne_true] at *
    rw [hk, Option.or_none]
  · rw [Std.ExtTreeMap.getElem?_eq_none hmem, Option.none_or]
    exact hk

theorem size_widened (h : WideUpdates updates) (v : Value) :
    (updates.insert (str "a") v).size = 65536 := by
  have hmem : str "a" ∉ updates := fun hmem => by cases h.names hmem
  rw [Std.ExtTreeMap.size_insert, if_neg fun hc => hmem (Std.ExtTreeMap.contains_iff_mem.mp hc),
    h.size]

/-- Such a row is stored, and read back without a column. -/
theorem exists_widened (h : WideUpdates updates) {n : Int64} (hdr : TupleHeader)
    (hrow : business row = updates.insert (str "a") (.int n)) :
    ∃ t, rowToTuple row hdr = .ok t ∧ t.hdr = { hdr with
      payloadLen := UInt32.ofNat t.payload.length } ∧ decode t.payload = .ok ∅ := by
  have hfits : ∀ p ∈ (business row).toList, ColumnFits p := by
    intro ⟨k, v⟩ hp
    rw [hrow, Std.ExtTreeMap.mem_toList_iff_getElem?_eq_some, Std.ExtTreeMap.getElem?_insert] at hp
    split at hp
    · rename_i hk
      obtain rfl := Std.LawfulEqOrd.eq_of_compare hk
      cases hp
      exact ⟨(by decide : (str "a").length ≤ 0xFFFF), trivial⟩
    · obtain ⟨hlength, rfl⟩ := h.entries k v hp
      exact ⟨by simp only; omega, trivial⟩
  have hbytes := encode_ok_iff.mpr ⟨hfits, rfl⟩
  have hsize : (business row).size = 65536 := by rw [hrow, size_widened h]
  have hne : business row ≠ ∅ := by
    intro he
    rw [he] at hsize
    cases hsize
  refine ⟨_, by rw [rowToTuple, hbytes]; rfl, rfl, ?_⟩
  exact decode_encode_wrapped hbytes hne (by rw [hsize])

def wideUpdates : Updates :=
  Std.ExtTreeMap.ofList ((List.range 65535).map fun i => (ByteFormat.putLE 2 i, Value.null)) compare

theorem wideUpdates_wide : WideUpdates wideUpdates := by
  have hdistinct : ((List.range 65535).map fun i => (ByteFormat.putLE 2 i, Value.null)).Pairwise
      fun a b => ¬ compare a.1 b.1 = .eq := by
    rw [List.pairwise_map]
    refine List.pairwise_lt_range.imp_of_mem fun {i j} hi hj hij he => ?_
    rw [List.mem_range] at hi hj
    have := ByteFormat.putLE_injective (n := 2) (by omega) (by omega) (Std.LawfulEqOrd.eq_of_compare he)
    omega
  refine ⟨?_, fun k v hv => ?_⟩
  · rw [wideUpdates, Std.ExtTreeMap.size_ofList hdistinct, List.length_map, List.length_range]
  · obtain ⟨i, -, hi⟩ := List.mem_map.mp ((OrderedMap.getElem?_ofList hdistinct).mp hv)
    cases hi
    exact ⟨ByteFormat.length_putLE 2 i, rfl⟩

end Wide

/-- The engine of the update: its transaction gets the id 4. -/
def assignedEngine : StorageEngine :=
  transactedEngine.setTxnMgr (assignXid.run transactedEngine.txnMgr).2

/-- The table with its one row. -/
theorem exists_transacted : ∃ m t row, assignedEngine.data[str "defaultdb.public.t"]? = some m ∧
    m.scanAll = [t] ∧ (m.eraseAllFor 1).scanAll = [] ∧ toRow t = .ok row ∧
    getRowId row = .ok 1 ∧ business row = (∅ : Row).insert (str "a") (.int 1) ∧
    assignedEngine.reader.sees assignedEngine.txnMgr.clog row = true := by
  have h : (assignedEngine.data[str "defaultdb.public.t"]?).any (fun m =>
      (m.eraseAllFor 1).scanAll = [] ∧ m.scanAll.length = 1 ∧ m.scanAll.all fun t =>
        ((toRow t).toOption.any fun row => (getRowId row).toOption = some 1 ∧
          (business row).toList = [(str "a", .int 1)] ∧
          assignedEngine.reader.sees assignedEngine.txnMgr.clog row)) = true := by
    decide +kernel
  obtain ⟨m, hm, h⟩ := (Option.any_eq_true _ _).mp h
  obtain ⟨herase, hlength, hall⟩ := of_decide_eq_true h
  obtain ⟨t, ht⟩ := List.length_eq_one_iff.mp hlength
  have hread := List.all_eq_true.mp hall t (by rw [ht]; exact List.mem_singleton_self t)
  obtain ⟨row, hrow, h⟩ := (Option.any_eq_true _ _).mp hread
  obtain ⟨hid, hcols, hsees⟩ := of_decide_eq_true h
  refine ⟨m, t, row, hm, ht, herase, ?_, ?_, ?_, hsees⟩
  · cases hr : toRow t <;> rw [hr] at hrow <;> cases hrow
    rfl
  · cases hr : getRowId row <;> rw [hr] at hid <;> cases hid
    rfl
  · rw [← OrderedMap.ofList_toList (business row), hcols]
    rfl

theorem headerField_stamp (row : Row) (x y : TransactionId) (cid : Int32) :
    headerField (stamp row x y cid) (str "_xmin") = x ∧
      headerField (stamp row x y cid) (str "_xmax") = y := by
  constructor
  · rw [stamp, headerField_insert_of_ne (by decide), headerField_insert_of_ne (by decide),
      headerField_insert_self]
  · rw [stamp, headerField_insert_of_ne (by decide), headerField_insert_self]

theorem scanAll_put_of_nil {m : MemTable} (h : m.scanAll = []) (id : Int64) (t : Tuple)
    (seq : UInt64) : (m.put id t seq).scanAll = [MemTable.normalize t] := by
  have hfree : m.entries[(⟨makeUserKey m.name id, seq⟩ : InternalKey)]? = none := by
    refine Option.eq_none_iff_forall_ne_some.mpr fun t' ht' => ?_
    have hmem := MemTable.mem_scanAll.mpr ⟨_, ht'⟩
    rw [h] at hmem
    cases hmem
  exact List.perm_singleton.mp (h ▸ MemTable.perm_put hfree)

/-- The update stores a row that reads without a column. -/
theorem run_updateWide {updates : Updates} (h : WideUpdates updates) :
    ∃ m t u dir wal, m.scanAll = [t] ∧ t.hdr.xmin = 4 ∧ t.hdr.xmax = 0 ∧
      decode t.payload = .ok ∅ ∧
      (updateWithTxn (str "t") (fun _ => true) updates).run transactedEngine =
        (.ok 1, { assignedEngine with
          txnMgr := assignedEngine.txnMgr.addUndoRecord u
          dir := dir, wal := wal, walSeq := assignedEngine.walSeq + 1 + 1
          data := assignedEngine.data.insert (str "defaultdb.public.t") m }) := by
  obtain ⟨m, t, row, hm, hscan, herase, hread, hid, hcols, hsees⟩ := exists_transacted
  obtain ⟨t', ht', hhdr, hdecode⟩ := exists_widened h (headerFromRow (str "defaultdb.public.t") 1
    (stamp (applyUpdates row updates) assignedEngine.reader.xid 0 assignedEngine.reader.cid))
    (business_widened h _ 0 _ hcols)
  obtain ⟨u, dir, wal, hrow⟩ := run_updateRowWithTxn (e := assignedEngine) m.scanAll hid
    (by decide +kernel) (by decide +kernel) hm (by decide +kernel) (by decide +kernel) ht'
  have hstamps := headerField_stamp (applyUpdates row updates) assignedEngine.reader.xid 0
    assignedEngine.reader.cid
  have hname : transactedEngine.resolveTableName (str "t") = str "defaultdb.public.t" := by
    decide +kernel
  have hassign : (inTxn assignXid).run transactedEngine = (.ok 4, assignedEngine) :=
    Prod.ext (by decide +kernel) rfl
  have hxid : assignedEngine.reader.xid = 4 := by decide +kernel
  have hinterval : assignedEngine.checkpointInterval = 0 := by decide +kernel
  have hindexes : (assignedEngine.indexes.getD (str "defaultdb.public.t") []).isEmpty = true := by
    decide +kernel
  refine ⟨(m.eraseAllFor 1).put 1 t' (assignedEngine.walSeq + 1 + 1).toUInt64, t', u, dir, wal, ?_, ?_,
    ?_, hdecode, run_updateOne hname hm hassign hscan hread hsees ?_ hrow hinterval⟩
  · rw [scanAll_put_of_nil herase, normalize_rowToTuple ht']
  · rw [hhdr]
    exact hstamps.1.trans hxid
  · rw [hhdr]
    exact hstamps.2
  · rw [updatesAffectIndex, List.isEmpty_iff.mp hindexes]
    rfl

theorem finish_assigned (u : UndoRecord) : let m := assignedEngine.txnMgr.addUndoRecord u
    commitTransaction.run m = (.ok (), m.finish 4 .committed) ∧
      (m.finish 4 .committed).clog.getStatus 4 = .committed ∧
      (m.finish 4 .committed).getOldestActiveXid = 5 := by
  have hxid : assignedEngine.txnMgr.context.xid = 4 := by decide +kernel
  have hisolation : assignedEngine.txnMgr.context.isolation ≠ .serializable := by decide +kernel
  have hclog : (assignedEngine.txnMgr.finish 4 .committed).clog.getStatus 4 = .committed := by
    decide +kernel
  have holdest : (assignedEngine.txnMgr.finish 4 .committed).getOldestActiveXid = 5 := by
    decide +kernel
  refine ⟨?_, hclog, holdest⟩
  have hxid' : (assignedEngine.txnMgr.addUndoRecord u).context.xid = 4 := hxid
  have hisolation' : (assignedEngine.txnMgr.addUndoRecord u).context.isolation ≠ .serializable :=
    hisolation
  rw [commitTransaction, Prog.bind_ok (Prog.run_get _), hxid', if_neg (by decide),
    if_neg fun h => hisolation' h.1]
  rfl

/-- The update is run and committed. -/
theorem exists_widenedEngine {updates : Updates} (h : WideUpdates updates) :
    ∃ e, Session.Reached Session.Transactional ⟨e, [], false⟩ ∧ HasNumbers e ∧
      ¬ FreezesColumns e := by
  obtain ⟨m, t, u, dir, wal, hscan, hxmin, hxmax, hdecode, hrun⟩ := run_updateWide h
  obtain ⟨hcommit, hstatus, holdest⟩ := finish_assigned u
  obtain ⟨e, he⟩ : ∃ e, e = { assignedEngine with
      txnMgr := (assignedEngine.txnMgr.addUndoRecord u).finish 4 .committed
      dir := dir, wal := wal, walSeq := assignedEngine.walSeq + 1 + 1
      data := assignedEngine.data.insert (str "defaultdb.public.t") m } := ⟨_, rfl⟩
  have hdata : e.data = assignedEngine.data.insert (str "defaultdb.public.t") m := by rw [he]
  have hkeys : e.data.keys = [str "defaultdb.public.t"] := by
    have hold : assignedEngine.data.keys = [str "defaultdb.public.t"] := by decide +kernel
    have hmem : str "defaultdb.public.t" ∈ assignedEngine.data := by
      rw [← Std.ExtTreeMap.mem_keys, hold]
      exact List.mem_singleton_self _
    rw [hdata, ← hold]
    refine OrderedMap.keys_ext fun k => ?_
    rw [Std.ExtTreeMap.mem_insert]
    exact ⟨fun hk => hk.elim (fun hk => Std.LawfulEqOrd.eq_of_compare hk ▸ hmem) id, .inr⟩
  have hm : e.data[str "defaultdb.public.t"]? = some m := by
    rw [hdata, Std.ExtTreeMap.getElem?_insert_self]
  have hread : toRow t = .ok (withSystemColumns ∅ t.hdr) := toRow_eq_ok.mpr ⟨∅, hdecode, rfl⟩
  refine ⟨e, .step (a := .call (.txn ManagerCall.commitTransaction.run)) (.step
    (a := .call (.updateWithTxn (str "t") (fun _ => true) updates)) transactional_transactedEngine
    trivial rfl) ⟨.commitTransaction, rfl, rfl⟩ ?_, ?_, fun hcols => ?_⟩
  · have hexec : (Call.exec (.updateWithTxn (str "t") (fun _ => true) updates)).run
        transactedEngine = (.ok (), { assignedEngine with
          txnMgr := assignedEngine.txnMgr.addUndoRecord u
          dir := dir, wal := wal, walSeq := assignedEngine.walSeq + 1 + 1
          data := assignedEngine.data.insert (str "defaultdb.public.t") m }) :=
      Prog.bind_ok hrun
    have htxn (e : StorageEngine) {m : TransactionManager} {a : Unit}
        (hm : commitTransaction.run e.txnMgr = (.ok a, m)) :
        ((Call.txn ManagerCall.commitTransaction.run).exec.run e).2 = e.setTxnMgr m := by
      change ((inTxn commitTransaction).run e).2 = _
      simp only [inTxn, Prog.zoom, hm]
    rw [Session.next, if_neg Bool.false_ne_true, hexec, he, htxn _ hcommit]
    rfl
  · have hseq : (assignedEngine.walSeq + 1 + 1).toInt = 6 := by decide +kernel
    have hseq : e.walSeq.toInt = 6 := by rw [he, hseq]
    rw [HasNumbers, hkeys, versionsIn, versionsIn, hm, hseq, Option.elim_some,
      ← MemTable.length_scanAll, hscan, List.length_singleton]
    decide
  · refine hcols _ m hm (fun q' m' hm' _ => ?_) ⟨t, by rw [hscan]; exact List.mem_singleton_self t, ?_,
      _, hread, ?_⟩
    · have hq' : q' ∈ e.data.keys := by
        rw [Std.ExtTreeMap.mem_keys, Std.ExtTreeMap.mem_iff_isSome_getElem?, hm']
        rfl
      rw [hkeys, List.mem_singleton] at hq'
      obtain rfl := hq'
      obtain rfl := Option.some.inj (hm.symm.trans hm')
      refine ExceptList.exists_mapM_ok fun t' ht' => ?_
      rw [hscan, List.mem_singleton] at ht'
      exact ht' ▸ ⟨_, hread⟩
    · rw [he, hxmin, hxmax]
      dsimp only
      rw [holdest, vacuumVerdict, hstatus, if_neg (by decide), if_neg (by decide),
        if_neg TransactionStatus.noConfusion, if_neg fun h => h.2.1 rfl,
        if_pos ⟨rfl, by decide⟩]
    · rw [business_withSystemColumns]
      rfl

/-- Committed, the row keeps every scan of the table from ending after a vacuum. -/
theorem not_vacuum_invisible : ¬ ∀ s, Session.Reached Session.Transactional s →
    HasNumbers s.engine → SameScans s.engine (vacuum.run s.engine).2 := by
  intro hall
  obtain ⟨e, hreached, hroom, hcols⟩ := exists_widenedEngine wideUpdates_wide
  obtain ⟨done, rest, hafter⟩ := exists_afterVacuum hreached hroom
  exact hcols (freezesColumns_of_sameScans (sound_of_reached hreached) hafter
    (hall _ hreached hroom))

end JiaMiaoDB
