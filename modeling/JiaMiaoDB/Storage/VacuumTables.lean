import JiaMiaoDB.Storage.FreshView
import JiaMiaoDB.Storage.TransactedRuns
import Mathlib.Data.List.Perm.Subperm

/-!
# What vacuum leaves of the tables

Vacuum goes through the tables by name: it erases rows, then stores others again with the frozen id
as their inserter. Of each version at most one is left.
-/

set_option autoImplicit false

namespace JiaMiaoDB
open StorageEngine BinaryRowCodec TransactionManager

/-! ### Versions -/

/-- The version that freezing stores for a version. -/
def refrozen (q : Str) (t : Tuple) : Except Failure Tuple := do
  let row ← toRow t
  let row := row.insert (str "_xmin") (.int FrozenTransactionId.toUInt64.toInt64)
  rowToTuple row (headerFromRow q t.hdr.rowId.toInt64 row)

/-- What vacuum leaves of a version. -/
def vacuumed (c : CLog) (oldest : TransactionId) (q : Str) (t : Tuple) : Option Tuple :=
  match vacuumVerdict c oldest t.hdr.xmin t.hdr.xmax with
  | .keep => some t
  | .erase => none
  | .freeze => (refrozen q t).toOption

section Versions
variable {q : Str} {t t' : Tuple} {row : Row}

theorem vacuumed_eq_some {c : CLog} {oldest : TransactionId} : vacuumed c oldest q t = some t' ↔
    vacuumVerdict c oldest t.hdr.xmin t.hdr.xmax = .keep ∧ t = t' ∨
      vacuumVerdict c oldest t.hdr.xmin t.hdr.xmax = .freeze ∧ refrozen q t = .ok t' := by
  unfold vacuumed
  cases vacuumVerdict c oldest t.hdr.xmin t.hdr.xmax with
  | keep => simp
  | erase => simp
  | freeze => cases refrozen q t <;> simp [Except.toOption]

theorem toRow_setXmin (h : toRow t = .ok row) (x : TransactionId) :
    toRow { t with hdr := { t.hdr with xmin := x } } =
      .ok (row.insert (str "_xmin") (.int x.toUInt64.toInt64)) := by
  obtain ⟨cols, hcols, rfl⟩ := toRow_eq_ok.mp h
  refine toRow_eq_ok.mpr ⟨cols, hcols, Std.ExtTreeMap.ext_getElem? fun k => ?_⟩
  simp only [withSystemColumns, Std.ExtTreeMap.getElem?_insert, Std.LawfulEqCmp.compare_eq_iff_eq]
  by_cases hk : str "_xmin" = k
  · subst k
    rw [if_pos rfl, if_neg (by decide), if_neg (by decide), if_pos rfl]
  · rw [if_neg hk, if_neg hk, if_neg hk]

theorem business_setXmin (row : Row) (v : Value) :
    business (row.insert (str "_xmin") v) = business row := by
  refine Std.ExtTreeMap.ext_getElem? fun k => ?_
  simp only [getElem?_business, Std.ExtTreeMap.getElem?_insert, Std.LawfulEqCmp.compare_eq_iff_eq]
  by_cases hk : str "_xmin" = k
  · subst k
    rfl
  · rw [if_neg hk]

/-- A version that can be read can be stored again, under the stamps that it had but for the
inserter. -/
theorem exists_refrozen (h : toRow t = .ok row) (q : Str) : ∃ t', refrozen q t = .ok t' ∧
    t'.hdr.rowId = t.hdr.rowId ∧ t'.hdr.xmin = FrozenTransactionId ∧ t'.hdr.xmax = t.hdr.xmax ∧
      encode row = .ok t'.payload ∧ MemTable.normalize t' = t' := by
  have hrow := toRow_setXmin h FrozenTransactionId
  obtain ⟨bs, hbs⟩ := encode_of_toRow hrow
  refine ⟨⟨{ t.hdr with
    rowId := t.hdr.rowId.toInt64.toUInt64, xmin := FrozenTransactionId, schemaHash := fnv1a16 q
    flags := 0, payloadLen := UInt32.ofNat bs.length, crc32 := 0 }, bs⟩, ?_,
    UInt64.toUInt64_toInt64 _, rfl, rfl, (encode_congr (business_setXmin row _)).symm.trans hbs, rfl⟩
  rw [refrozen, h]
  change rowToTuple _ (headerFromRow q _ _) = _
  rw [headerFromRow_of_toRow hrow, rowToTuple, hbs]
  rfl

/-- With a business column it also reads as before. -/
theorem toRow_refrozen (h : toRow t = .ok row) (hb : business row ≠ ∅)
    (ht : refrozen q t = .ok t') :
    toRow t' = .ok (row.insert (str "_xmin") (.int FrozenTransactionId.toUInt64.toInt64)) := by
  have hrow := toRow_setXmin h FrozenTransactionId
  obtain ⟨t₁, ht₁, hread⟩ := restoredTuple_of_toRow hrow (by rwa [business_setXmin]) q
  rw [rowIdOf_of_toRow hrow] at ht₁
  rw [refrozen, h] at ht
  obtain rfl := Except.ok.inj (ht₁.symm.trans ht)
  exact hread

end Versions

/-! ### The passes over a table -/

/-- The versions of the table `q` are those in `P`, and of the rest only the counter and what no
scan looks at have changed since `e₀`. -/
structure Stage (q name : Str) (e₀ : StorageEngine) (n : Int) (P : Tuple → Prop)
    (e : StorageEngine) : Prop where
  txnMgr : e.txnMgr = e₀.txnMgr
  catalog : e.catalog = e₀.catalog
  others : ∀ q' : Str, q' ≠ q → e.data[q']? = e₀.data[q']?
  counter : e.walSeq.toInt = n
  table : ∃ m, e.data[q]? = some m ∧ m.name = name ∧ m.SingleVersion ∧ ∀ t, t ∈ m.scanAll ↔ P t

section Passes
variable {q name : Str} {e₀ e : StorageEngine} {n : Int} {P P' : Tuple → Prop}

theorem Stage.congr (h : Stage q name e₀ n P e) (hP : ∀ t, P t ↔ P' t) :
    Stage q name e₀ n P' e := by
  obtain ⟨m, hm, hname, hsingle, hmem⟩ := h.table
  exact ⟨h.txnMgr, h.catalog, h.others, h.counter, m, hm, hname, hsingle,
    fun t => (hmem t).trans (hP t)⟩

/-- Other fields may change as well. -/
theorem Stage.frame {e' : StorageEngine} (h : Stage q name e₀ n P e) (hm : e'.txnMgr = e.txnMgr)
    (hc : e'.catalog = e.catalog) (hd : e'.data = e.data) (hn : e'.walSeq = e.walSeq) :
    Stage q name e₀ n P e' := by
  refine ⟨hm.trans h.txnMgr, hc.trans h.catalog, ?_, ?_, ?_⟩
  · rw [hd]
    exact h.others
  · rw [hn]
    exact h.counter
  · rw [hd]
    exact h.table

theorem Stage.keeps_rebuildIf (affected : Bool) (q' : Str) :
    Prog.Keeps (Stage q name e₀ n P) (rebuildIf affected q') := by
  refine Prog.Keeps.ite (fun _ => Prog.Keeps.get_bind fun e h => ?_) fun _ => Prog.Keeps.pure ()
  split
  · rw [Prog.wp_bind, Prog.wp_set]
    exact Prog.Keeps.ofExcept _ _ (h.frame rfl rfl rfl rfl)
  · exact h

theorem Stage.setRowCount (h : Stage q name e₀ n P e) (q' : Str) :
    Stage q name e₀ n P (setRowCount q' e) := by
  rw [setRowCount_eq]
  exact h.frame rfl rfl rfl rfl

theorem getElem?_insert_other {data : StrMap MemTable} {q' : Str} (h : q' ≠ q) (m : MemTable) :
    (data.insert q m)[q']? = data[q']? := by
  rw [Std.ExtTreeMap.getElem?_insert, if_neg]
  simpa using Ne.symm h

theorem Stage.wp_erase (h : Stage q name e₀ n P e) (id : Int64) :
    (eraseVersions q id).wp
      (fun _ => Stage q name e₀ n fun t => P t ∧ t.hdr.rowId.toInt64 ≠ id) (fun _ _ => False) e := by
  obtain ⟨m, hm, hname, hsingle, hmem⟩ := h.table
  refine wp_eraseVersions hm ⟨h.txnMgr, h.catalog, fun q' hq' => ?_, h.counter, m.eraseAllFor id,
    Std.ExtTreeMap.getElem?_insert_self, hname, hsingle.eraseAllFor id, fun t => ?_⟩
  · exact (getElem?_insert_other hq' _).trans (h.others q' hq')
  · rw [hsingle.mem_eraseAllFor, hmem]

/-- Without a number for the version that is stored again the pass stops. -/
theorem Stage.wp_freeze (h : Stage q name e₀ n P e) {t t' : Tuple} {row : Row} (ht : P t)
    (hrow : toRow t = .ok row) (ht' : refrozen q t = .ok t') :
    (freezeRow q t.hdr.rowId.toInt64).wp
      (fun _ => Stage q name e₀ (n + 1) fun u =>
        P u ∧ u.hdr.rowId.toInt64 ≠ t.hdr.rowId.toInt64 ∨ u = t')
      (fun _ _ => 2 ^ 63 ≤ n + 1) e := by
  obtain ⟨m, hm, hname, hsingle, hmem⟩ := h.table
  have hlatest : e.data[q]?.bind (·.getLatest t.hdr.rowId.toInt64) = some t := by
    rw [hm]
    exact hsingle.getLatest_eq_some.mpr ⟨(hmem t).mpr ht, rfl⟩
  obtain ⟨t₁, ht₁, hid, -, -, -, hnormal⟩ := exists_refrozen hrow q
  obtain rfl := Except.ok.inj (ht₁.symm.trans ht')
  rw [freezeRow, Prog.wp_bind, Prog.wp_get, hlatest]
  dsimp only
  rw [hrow, Prog.wp_bind, Prog.wp_ofExcept_ok, Prog.wp_bind]
  refine wp_eraseVersions hm ?_
  rw [refrozen, hrow] at ht'
  have hfresh := hsingle.fresh_eraseAllFor t.hdr.rowId.toInt64
  have hput := (hsingle.eraseAllFor t.hdr.rowId.toInt64).put (e.walSeq + 1).toUInt64 hfresh
    (congrArg UInt64.toInt64 hid)
  have herased : (e.data.insert q (m.eraseAllFor t.hdr.rowId.toInt64))[q]? =
      some (m.eraseAllFor t.hdr.rowId.toInt64) := Std.ExtTreeMap.getElem?_insert_self
  by_cases hmax : e.walSeq = Int64.maxValue
  · refine Prog.wp_of_error (run_putVersion_max ht' hmax) ?_
    have hcounter := h.counter
    rw [hmax, Int64.toInt_maxValue] at hcounter
    omega
  refine Prog.wp_of_ok (run_putVersion ht' herased hmax) ⟨h.txnMgr, h.catalog, fun q' hq' => ?_, ?_,
    _, Std.ExtTreeMap.getElem?_insert_self, hname, hput, fun u => ?_⟩
  · refine (getElem?_insert_other hq' _).trans ?_
    exact (getElem?_insert_other hq' _).trans (h.others q' hq')
  · rw [← h.counter]
    exact FixedWidth.toInt_succ hmax
  · rw [(hsingle.eraseAllFor _).mem_put hfresh, hsingle.mem_eraseAllFor, hmem, hnormal, or_comm]

/-- The first pass erases the rows one by one. -/
theorem Stage.wp_eraseEach (h : Stage q name e₀ n P e) (ids : List Int64) :
    (Prog.forEach (eraseVersions q) ids).wp
      (fun _ => Stage q name e₀ n fun t => P t ∧ t.hdr.rowId.toInt64 ∉ ids)
      (fun _ _ => False) e := by
  refine Prog.wp_forEach
    (fun done => Stage q name e₀ n fun t => P t ∧ t.hdr.rowId.toInt64 ∉ done) ?_ ?_
  · intro done id rest _ e' h'
    refine Prog.wp_mono (h'.wp_erase id) (fun _ e'' h'' => h''.congr fun t => ?_) fun _ _ hf => hf
    rw [List.mem_append, List.mem_singleton, not_or, and_assoc]
  · exact h.congr fun t => by simp

/-- The second pass stores the rows again one by one, each under the next number. -/
theorem Stage.wp_freezeEach (h : Stage q name e₀ n P e) {ids : List Int64} (hnodup : ids.Nodup)
    (hids : ∀ id ∈ ids, ∃ t, P t ∧ t.hdr.rowId.toInt64 = id)
    (hsingle : ∀ t u, P t → P u → t.hdr.rowId = u.hdr.rowId → t = u)
    (hread : ∀ t, P t → ∃ row, toRow t = .ok row) :
    (Prog.forEach (freezeRow q) ids).wp
      (fun _ => Stage q name e₀ (n + ids.length) fun u => P u ∧ u.hdr.rowId.toInt64 ∉ ids ∨
        ∃ t, P t ∧ t.hdr.rowId.toInt64 ∈ ids ∧ refrozen q t = .ok u)
      (fun _ _ => 2 ^ 63 ≤ n + ids.length) e := by
  refine Prog.wp_forEach (fun done => Stage q name e₀ (n + done.length) fun u =>
    P u ∧ u.hdr.rowId.toInt64 ∉ done ∨
      ∃ t, P t ∧ t.hdr.rowId.toInt64 ∈ done ∧ refrozen q t = .ok u) ?_ ?_
  · intro done id rest hsplit e' h'
    obtain ⟨t, ht, rfl⟩ := hids id (by simp [hsplit])
    obtain ⟨row, hrow⟩ := hread t ht
    obtain ⟨t', ht', -⟩ := exists_refrozen hrow q
    have hnew : t.hdr.rowId.toInt64 ∉ done := by
      rw [hsplit, List.nodup_append] at hnodup
      exact fun hmem => hnodup.2.2 _ hmem _ List.mem_cons_self rfl
    have hlen : (done ++ [t.hdr.rowId.toInt64]).length = done.length + 1 := by simp
    have hle : done.length + 1 ≤ ids.length := by
      rw [hsplit, List.length_append, List.length_cons]
      omega
    refine Prog.wp_mono (h'.wp_freeze (.inl ⟨ht, hnew⟩) hrow ht') (fun _ e'' h'' => ?_)
      fun _ _ hfull => by omega
    rw [hlen, Int.natCast_add, ← Int.add_assoc]
    refine h''.congr fun u => ?_
    simp only [List.mem_append, List.mem_singleton, not_or]
    have hrowid {t₁ u : Tuple} (ht₁ : P t₁) (hu : refrozen q t₁ = .ok u) :
        u.hdr.rowId = t₁.hdr.rowId := by
      obtain ⟨row₁, hrow₁⟩ := hread t₁ ht₁
      obtain ⟨t₂, ht₂, hid, -⟩ := exists_refrozen hrow₁ q
      obtain rfl := Except.ok.inj (ht₂.symm.trans hu)
      exact hid
    constructor
    · rintro (⟨⟨hu, hdone⟩ | ⟨t₁, ht₁, hdone, hu⟩, hne⟩ | rfl)
      · exact .inl ⟨hu, hdone, hne⟩
      · exact .inr ⟨t₁, ht₁, .inl hdone, hu⟩
      · exact .inr ⟨t, ht, .inr rfl, ht'⟩
    · rintro (⟨hu, hdone, hne⟩ | ⟨t₁, ht₁, hdone | hsame, hu⟩)
      · exact .inl ⟨.inl ⟨hu, hdone⟩, hne⟩
      · refine .inl ⟨.inr ⟨t₁, ht₁, hdone, hu⟩, fun he => hnew ?_⟩
        rwa [← he, hrowid ht₁ hu]
      · obtain rfl := hsingle t₁ t ht₁ ht (toInt64_injective hsame)
        exact .inr (Except.ok.inj (hu.symm.trans ht'))
  · rw [List.length_nil, Int.natCast_zero, Int.add_zero]
    exact h.congr fun t => by simp

end Passes

/-! ### One table -/

section Table
variable {oldest : TransactionId} {q : Str} {m m' : MemTable} {e : StorageEngine}

theorem mem_vacuumIds {verdicts : List (Int64 × VacuumVerdict)} {v : VacuumVerdict} {id : Int64} :
    id ∈ vacuumIds verdicts v ↔ (id, v) ∈ verdicts := by
  have hmem := OrderedMap.mem_foldl_insert (∅ : Std.ExtTreeSet Int64 compare)
    ((verdicts.filter (·.2 = v)).map Prod.fst) id
  rw [List.foldl_map] at hmem
  rw [vacuumIds, Std.ExtTreeSet.mem_toList, hmem, List.mem_map]
  constructor
  · rintro (hid | ⟨p, hp, rfl⟩)
    · exact absurd hid Std.ExtTreeSet.not_mem_empty
    · obtain ⟨hp, hv⟩ := List.mem_filter.mp hp
      rwa [← of_decide_eq_true hv]
  · intro hid
    exact .inr ⟨_, List.mem_filter.mpr ⟨hid, decide_eq_true rfl⟩, rfl⟩

theorem nodup_vacuumIds (verdicts : List (Int64 × VacuumVerdict)) (v : VacuumVerdict) :
    (vacuumIds verdicts v).Nodup := by
  refine Std.ExtTreeSet.distinct_toList.imp fun {a b} hne he => hne ?_
  rw [he]
  exact Std.ReflCmp.compare_self

theorem length_vacuumIds_le (verdicts : List (Int64 × VacuumVerdict)) (v : VacuumVerdict) :
    (vacuumIds verdicts v).length ≤ verdicts.length := by
  have hsubset : vacuumIds verdicts v ⊆ verdicts.map Prod.fst := fun id hid =>
    List.mem_map.mpr ⟨(id, v), mem_vacuumIds.mp hid, rfl⟩
  have hlength := (List.subperm_of_subset (nodup_vacuumIds verdicts v) hsubset).length_le
  rwa [List.length_map] at hlength

/-- A table whose versions are made one by one from those of another, under the same row ids. -/
theorem scanAll_eq_filterMap (h : m.SingleVersion) (h' : m'.SingleVersion)
    (hname : m'.name = m.name) {g : Tuple → Option Tuple}
    (hg : ∀ t ∈ m.scanAll, ∀ t', g t = some t' → t'.hdr.rowId = t.hdr.rowId)
    (hmem : ∀ t', t' ∈ m'.scanAll ↔ ∃ t ∈ m.scanAll, g t = some t') :
    m'.scanAll = m.scanAll.filterMap g := by
  have hsorted' := h'.sorted_scanAll
  rw [hname] at hsorted'
  have hsorted : (m.scanAll.filterMap g).Pairwise fun t t' =>
      compare (makeUserKey m.name t.hdr.rowId.toInt64)
        (makeUserKey m.name t'.hdr.rowId.toInt64) = .lt := by
    refine List.pairwise_filterMap.mpr (h.sorted_scanAll.imp_of_mem ?_)
    intro a b ha hb hab a' ha' b' hb'
    rwa [hg a ha a' ha', hg b hb b' hb']
  have hnodup : (m.scanAll.filterMap g).Nodup := by
    refine hsorted.imp fun {a b} hab (he : a = b) => ?_
    subst he
    exact OrderedMap.lt_irrefl _ hab
  have hperm := (List.perm_ext_iff_of_nodup h'.nodup_scanAll hnodup).mpr fun t' => by
    rw [hmem, List.mem_filterMap]
  refine hperm.eq_of_pairwise (fun a b _ _ hab hba => ?_) hsorted' hsorted
  exact absurd (Std.TransCmp.lt_trans hab hba) (OrderedMap.lt_irrefl _)

/-- The verdicts on the rows of a table are those on its versions. -/
theorem mem_verdicts {c : CLog} {rows : RowSet} (hrows : materializeAll m = .ok rows) {id : Int64}
    {v : VacuumVerdict} :
    (id, v) ∈ rows.map (fun row => (rowIdOf row, vacuumVerdict c oldest
      (headerField row (str "_xmin")) (headerField row (str "_xmax")))) ↔
        ∃ t ∈ m.scanAll, t.hdr.rowId.toInt64 = id ∧
          vacuumVerdict c oldest t.hdr.xmin t.hdr.xmax = v := by
  have hverdict {t : Tuple} {row : Row} (h : toRow t = .ok row) : (rowIdOf row, vacuumVerdict c oldest
      (headerField row (str "_xmin")) (headerField row (str "_xmax"))) =
        (t.hdr.rowId.toInt64, vacuumVerdict c oldest t.hdr.xmin t.hdr.xmax) := by
    obtain ⟨-, hmin, hmax, -⟩ := header_of_toRow h
    simp only [rowIdOf_of_toRow h, headerField, hmin, hmax, toUInt32_widened]
  rw [List.mem_map]
  constructor
  · rintro ⟨row, hrow, he⟩
    obtain ⟨t, ht, hread⟩ := (ExceptList.mem_of_mapM_ok hrows).mp hrow
    rw [hverdict hread] at he
    obtain ⟨hid, hv⟩ := Prod.mk.inj he
    exact ⟨t, ht, hid, hv⟩
  · rintro ⟨t, ht, hid, hv⟩
    obtain ⟨row, hrow, hread⟩ := ExceptList.ok_of_mapM_ok hrows ht
    refine ⟨row, hrow, ?_⟩
    rw [hverdict hread, hid, hv]

/-- The versions of a table before and after, when all of them could be read. -/
structure Vacuumed (c : CLog) (oldest : TransactionId) (q : Str) (m m' : MemTable) : Prop where
  read : ∃ rows, materializeAll m = .ok rows
  scan : m'.scanAll = m.scanAll.filterMap (vacuumed c oldest q)

/-- A version that is frozen reads without a business column. -/
def Loses (c : CLog) (oldest : TransactionId) (m : MemTable) : Prop :=
  ∃ t ∈ m.scanAll, vacuumVerdict c oldest t.hdr.xmin t.hdr.xmax = .freeze ∧
    ∃ row, toRow t = .ok row ∧ business row = ∅

/-- One table is vacuumed; of the rest only the counter and what no scan looks at have changed. -/
structure Passed (oldest : TransactionId) (q : Str) (m : MemTable) (e₀ e : StorageEngine) :
    Prop where
  txnMgr : e.txnMgr = e₀.txnMgr
  catalog : e.catalog = e₀.catalog
  others : ∀ q' : Str, q' ≠ q → e.data[q']? = e₀.data[q']?
  counter : e.walSeq.toInt ≤ e₀.walSeq.toInt + m.size
  table : ∃ m', e.data[q]? = some m' ∧ Vacuumed e₀.txnMgr.clog oldest q m m'

theorem rowId_of_vacuumed {c : CLog} {t t' : Tuple} {row : Row} (hrow : toRow t = .ok row)
    (h : vacuumed c oldest q t = some t') : t'.hdr.rowId = t.hdr.rowId := by
  rcases vacuumed_eq_some.mp h with ⟨-, rfl⟩ | ⟨-, ht'⟩
  · rfl
  · obtain ⟨t₁, ht₁, hid, -⟩ := exists_refrozen hrow q
    obtain rfl := Except.ok.inj (ht₁.symm.trans ht')
    exact hid

theorem toRow_of_vacuumed {c : CLog} {t t' : Tuple} {row : Row} (hrow : toRow t = .ok row)
    (hcols : vacuumVerdict c oldest t.hdr.xmin t.hdr.xmax = .freeze → business row ≠ ∅)
    (h : vacuumed c oldest q t = some t') : ∃ row', toRow t' = .ok row' := by
  rcases vacuumed_eq_some.mp h with ⟨-, rfl⟩ | ⟨hv, ht'⟩
  · exact ⟨row, hrow⟩
  · exact ⟨_, toRow_refrozen hrow (hcols hv) ht'⟩

/-- Without a business column the version that is stored cannot be read. -/
theorem toRow_refrozen_empty {t t' : Tuple} {row : Row} (hrow : toRow t = .ok row)
    (hempty : business row = ∅) (ht' : refrozen q t = .ok t') (row' : Row) :
    toRow t' ≠ .ok row' := by
  intro hread
  obtain ⟨t₁, ht₁, -, -, -, hbs, -⟩ := exists_refrozen hrow q
  obtain rfl := Except.ok.inj (ht₁.symm.trans ht')
  obtain ⟨cols, hcols, -⟩ := toRow_eq_ok.mp hread
  rw [decode_encode_empty hbs hempty] at hcols
  cases hcols

theorem materializeAll_of_vacuumed {c : CLog} (h : Vacuumed c oldest q m m')
    (hlose : ¬ Loses c oldest m) : ∃ rows, materializeAll m' = .ok rows := by
  obtain ⟨rows, hrows⟩ := h.read
  refine ExceptList.exists_mapM_ok fun t' ht' => ?_
  rw [h.scan, List.mem_filterMap] at ht'
  obtain ⟨t, ht, ht'⟩ := ht'
  obtain ⟨row, -, hrow⟩ := ExceptList.ok_of_mapM_ok hrows ht
  exact toRow_of_vacuumed hrow (fun hv hempty => hlose ⟨t, ht, hv, row, hrow, hempty⟩) ht'

theorem not_materializeAll_of_loses {c : CLog} (h : Vacuumed c oldest q m m')
    (hlose : Loses c oldest m) (rows : RowSet) : materializeAll m' ≠ .ok rows := by
  intro hrows
  obtain ⟨t, ht, hv, row, hrow, hempty⟩ := hlose
  obtain ⟨t', ht', -⟩ := exists_refrozen hrow q
  have hmem : t' ∈ m'.scanAll := by
    rw [h.scan, List.mem_filterMap]
    exact ⟨t, ht, vacuumed_eq_some.mpr (.inr ⟨hv, ht'⟩)⟩
  obtain ⟨row', -, hread⟩ := ExceptList.ok_of_mapM_ok hrows hmem
  exact toRow_refrozen_empty hrow hempty ht' row' hread

theorem Stage.passed {n : Int} {e₀ : StorageEngine} {rows : RowSet} (h : Stage q m.name e₀ n
      (fun t' => ∃ t ∈ m.scanAll, vacuumed e₀.txnMgr.clog oldest q t = some t') e)
    (hn : n ≤ e₀.walSeq.toInt + m.size) (hsingle : m.SingleVersion)
    (hrows : materializeAll m = .ok rows) : Passed oldest q m e₀ e := by
  obtain ⟨m', hm', hname, hsingle', hmem⟩ := h.table
  have hcounter := h.counter
  refine ⟨h.txnMgr, h.catalog, h.others, by omega, m', hm', ⟨rows, hrows⟩,
    scanAll_eq_filterMap hsingle hsingle' hname (fun t ht t' ht' => ?_) hmem⟩
  obtain ⟨row, -, hrow⟩ := ExceptList.ok_of_mapM_ok hrows ht
  exact rowId_of_vacuumed hrow ht'

theorem wp_rebuildIf {affected : Bool} {rows : RowSet} (hm : e.data[q]? = some m)
    (hrows : materializeAll m = .ok rows) {Q : Unit → StorageEngine → Prop}
    {E : Failure → StorageEngine → Prop} (hQ : ∀ indexes, Q () { e with indexes := indexes }) :
    (rebuildIf affected q).wp Q E e := by
  unfold rebuildIf
  split
  · exact Prog.wp_of_ok (run_rebuildIndexes hm hrows) (hQ _)
  · exact hQ e.indexes

/-- The table is vacuumed, and what can fail with numbers left is that an index is built from it. -/
theorem wp_vacuumTable {rows : RowSet} (hm : e.data[q]? = some m) (hsingle : m.SingleVersion)
    (hrows : materializeAll m = .ok rows) :
    (vacuumTable oldest q).wp (fun _ => Passed oldest q m e)
      (fun _ e' => 2 ^ 63 ≤ e.walSeq.toInt + m.size ∨
        Passed oldest q m e e' ∧ Loses e.txnMgr.clog oldest m) e := by
  rw [vacuumTable, Prog.wp_bind, Prog.wp_get, hm]
  dsimp only
  rw [hrows, Prog.wp_bind, Prog.wp_ofExcept_ok]
  set verdicts := rows.map fun row => (rowIdOf row, vacuumVerdict e.txnMgr.clog oldest
    (headerField row (str "_xmin")) (headerField row (str "_xmax"))) with hverdicts
  have hids {t : Tuple} (ht : t ∈ m.scanAll) (v : VacuumVerdict) :
      t.hdr.rowId.toInt64 ∈ vacuumIds verdicts v ↔
        vacuumVerdict e.txnMgr.clog oldest t.hdr.xmin t.hdr.xmax = v := by
    rw [mem_vacuumIds, hverdicts, mem_verdicts hrows]
    constructor
    · rintro ⟨u, hu, hid, hv⟩
      rwa [hsingle.eq_of_rowId hu ht (toInt64_injective hid)] at hv
    · exact fun hv => ⟨t, ht, rfl, hv⟩
  have hlength : (vacuumIds verdicts .freeze).length ≤ m.size := by
    have hle := length_vacuumIds_le verdicts .freeze
    rwa [hverdicts, List.length_map, ← (ExceptList.mapM_ok_iff.mp hrows).length_eq,
      m.length_scanAll] at hle
  have hstart : Stage q m.name e e.walSeq.toInt (· ∈ m.scanAll) e :=
    ⟨rfl, rfl, fun _ _ => rfl, rfl, m, hm, rfl, hsingle, fun _ => Iff.rfl⟩
  rw [Prog.wp_bind]
  refine Prog.wp_mono (hstart.wp_eraseEach (vacuumIds verdicts .erase)) (fun _ e₁ h₁ => ?_)
    fun _ _ hf => hf.elim
  rw [Prog.wp_bind]
  refine Prog.wp_mono (h₁.wp_freezeEach (nodup_vacuumIds verdicts .freeze) ?_ ?_ ?_)
    (fun _ e₂ h₂ => ?_) fun _ _ hfull => .inl (by omega)
  · intro id hid
    obtain ⟨t, ht, rfl, hv⟩ := (mem_verdicts hrows).mp (mem_vacuumIds.mp hid)
    refine ⟨t, ⟨ht, fun herase => ?_⟩, rfl⟩
    rw [(hids ht .erase).mp herase] at hv
    cases hv
  · exact fun t u ht hu => hsingle.eq_of_rowId ht.1 hu.1
  · intro t ht
    obtain ⟨row, -, hrow⟩ := ExceptList.ok_of_mapM_ok hrows ht.1
    exact ⟨row, hrow⟩
  have hstage : Stage q m.name e (e.walSeq.toInt + (vacuumIds verdicts .freeze).length)
      (fun t' => ∃ t ∈ m.scanAll, vacuumed e.txnMgr.clog oldest q t = some t') e₂ := by
    refine h₂.congr fun u => ?_
    simp only [vacuumed_eq_some]
    constructor
    · rintro (⟨⟨hu, herase⟩, hfreeze⟩ | ⟨t, ⟨ht, -⟩, hfreeze, hu⟩)
      · rw [hids hu] at herase hfreeze
        refine ⟨u, hu, .inl ⟨?_, rfl⟩⟩
        cases hv : vacuumVerdict e.txnMgr.clog oldest u.hdr.xmin u.hdr.xmax with
        | keep => rfl
        | erase => exact absurd hv herase
        | freeze => exact absurd hv hfreeze
      · exact ⟨t, ht, .inr ⟨(hids ht .freeze).mp hfreeze, hu⟩⟩
    · rintro ⟨t, ht, ⟨hv, rfl⟩ | ⟨hv, hu⟩⟩
      · refine .inl ⟨⟨ht, fun herase => ?_⟩, fun hfreeze => ?_⟩
        · rw [(hids ht .erase).mp herase] at hv
          cases hv
        · rw [(hids ht .freeze).mp hfreeze] at hv
          cases hv
      · refine .inr ⟨t, ⟨ht, fun herase => ?_⟩, (hids ht .freeze).mpr hv, hu⟩
        rw [(hids ht .erase).mp herase] at hv
        cases hv
  rw [Prog.wp_bind, Prog.wp_modify, Prog.wp_bind, Prog.wp_get, Prog.wp_bind]
  have hcounted := hstage.setRowCount q
  have hpassed {e₃ : StorageEngine} (h₃ : Stage q m.name e
      (e.walSeq.toInt + (vacuumIds verdicts .freeze).length)
      (fun t' => ∃ t ∈ m.scanAll, vacuumed e.txnMgr.clog oldest q t = some t') e₃) :
      Passed oldest q m e e₃ := h₃.passed (by omega) hsingle hrows
  by_cases hlose : Loses e.txnMgr.clog oldest m
  · exact Prog.wp_mono (Stage.keeps_rebuildIf _ q _ hcounted) (fun _ _ h₃ => hpassed h₃)
      fun _ _ h₃ => .inr ⟨hpassed h₃, hlose⟩
  · obtain ⟨m', hm', hvac⟩ := (hpassed hcounted).table
    obtain ⟨rows', hrows'⟩ := materializeAll_of_vacuumed hvac hlose
    exact wp_rebuildIf hm' hrows' fun indexes => hpassed (hcounted.frame rfl rfl rfl rfl)

end Table

/-! ### All tables -/

/-- The number of versions in the tables. -/
def versionsIn (e : StorageEngine) : List Str → Nat
  | [] => 0
  | q :: qs => (e.data[q]?).elim 0 MemTable.size + versionsIn e qs

/-- There are numbers left for all versions. -/
def HasNumbers (e : StorageEngine) : Prop :=
  e.walSeq.toInt + versionsIn e e.data.keys < 2 ^ 63

theorem versionsIn_append (e : StorageEngine) (qs qs' : List Str) :
    versionsIn e (qs ++ qs') = versionsIn e qs + versionsIn e qs' := by
  induction qs with
  | nil => simp [versionsIn]
  | cons q qs ih =>
    rw [List.cons_append, versionsIn, versionsIn, ih]
    omega

/-- The tables in `done` are vacuumed. -/
structure Tidied (oldest : TransactionId) (done : List Str) (e₀ e : StorageEngine) : Prop where
  txnMgr : e.txnMgr = e₀.txnMgr
  catalog : e.catalog = e₀.catalog
  passed : ∀ q : Str, q ∈ done → ∃ m m', e₀.data[q]? = some m ∧ e.data[q]? = some m' ∧
    Vacuumed e₀.txnMgr.clog oldest q m m'
  others : ∀ q : Str, q ∉ done → e.data[q]? = e₀.data[q]?
  counter : e.walSeq.toInt ≤ e₀.walSeq.toInt + versionsIn e₀ done

/-- Why vacuum stops before the tables in `rest`: the first of them cannot be read, or the last that
is done cannot be read any more. -/
def Stops (oldest : TransactionId) (done rest : List Str) (e₀ : StorageEngine) : Prop :=
  (∃ q m f, rest.head? = some q ∧ e₀.data[q]? = some m ∧ materializeAll m = .error f) ∨
    ∃ q m, q ∈ done ∧ e₀.data[q]? = some m ∧ Loses e₀.txnMgr.clog oldest m

/-- What vacuum leaves: of the tables in `done` it has changed the versions, of the others none. -/
structure AfterVacuum (done rest : List Str) (e₀ e : StorageEngine) : Prop where
  keys : e₀.data.keys = done ++ rest
  manager : ∃ c, e₀.txnMgr.GivesUp c ∧ e.txnMgr = { e₀.txnMgr with clog := c }
  catalog : e.catalog = e₀.catalog
  passed : ∀ q : Str, q ∈ done → ∃ m m', e₀.data[q]? = some m ∧ e.data[q]? = some m' ∧
    Vacuumed e₀.txnMgr.clog e₀.txnMgr.getOldestActiveXid q m m'
  others : ∀ q : Str, q ∉ done → e.data[q]? = e₀.data[q]?
  stops : rest = [] ∨ Stops e₀.txnMgr.getOldestActiveXid done rest e₀

section Vacuum
variable {oldest : TransactionId} {done rest : List Str} {e₀ e : StorageEngine} {q : Str}

theorem Tidied.concat (h : Tidied oldest done e₀ e) (hq : q ∉ done) {m : MemTable}
    {e' : StorageEngine} (hm : e₀.data[q]? = some m) (h' : Passed oldest q m e e') :
    Tidied oldest (done ++ [q]) e₀ e' := by
  refine ⟨h'.txnMgr.trans h.txnMgr, h'.catalog.trans h.catalog, fun q' hq' => ?_,
    fun q' hq' => ?_, ?_⟩
  · rcases List.mem_append.mp hq' with hdone | hsame
    · obtain ⟨m₁, m₂, hm₁, hm₂, hv⟩ := h.passed q' hdone
      refine ⟨m₁, m₂, hm₁, ?_, hv⟩
      rw [h'.others q' fun he => hq (he ▸ hdone)]
      exact hm₂
    · obtain rfl := List.mem_singleton.mp hsame
      obtain ⟨m', hm', hv⟩ := h'.table
      rw [h.txnMgr] at hv
      exact ⟨m, m', hm, hm', hv⟩
  · rw [List.mem_append, List.mem_singleton, not_or] at hq'
    exact (h'.others q' hq'.2).trans (h.others q' hq'.1)
  · have hcounter := h.counter
    have hcounter' := h'.counter
    rw [versionsIn_append, versionsIn, versionsIn, hm, Option.elim_some]
    omega

theorem Tidied.wp_next (h : Tidied oldest done e₀ e) (hkeys : e₀.data.keys = done ++ q :: rest)
    (hsingle : ∀ m, e₀.data[q]? = some m → m.SingleVersion) :
    (vacuumTable oldest q).wp (fun _ => Tidied oldest (done ++ [q]) e₀)
      (fun _ e' => 2 ^ 63 ≤ e₀.walSeq.toInt + versionsIn e₀ (done ++ [q]) ∨
        ∃ done rest, e₀.data.keys = done ++ rest ∧ Tidied oldest done e₀ e' ∧
          Stops oldest done rest e₀) e := by
  have hq : q ∉ done := by
    have hnodup := Std.ExtTreeMap.nodup_keys (t := e₀.data)
    rw [hkeys, List.nodup_append] at hnodup
    exact fun hmem => hnodup.2.2 _ hmem _ List.mem_cons_self rfl
  obtain ⟨m, hm₀⟩ : ∃ m, e₀.data[q]? = some m := by
    have hmem : q ∈ e₀.data := Std.ExtTreeMap.mem_keys.mp (by simp [hkeys])
    exact ⟨_, Std.ExtTreeMap.getElem?_eq_some_getElem hmem⟩
  have hm : e.data[q]? = some m := (h.others q hq).trans hm₀
  cases hrows : materializeAll m with
  | error f =>
    rw [vacuumTable, Prog.wp_bind, Prog.wp_get, hm]
    dsimp only
    rw [hrows, Prog.wp_bind, Prog.wp_ofExcept_error]
    exact .inr ⟨done, q :: rest, hkeys, h, .inl ⟨q, m, f, rfl, hm₀, hrows⟩⟩
  | ok rows =>
    have hcounter := h.counter
    refine Prog.wp_mono (wp_vacuumTable hm (hsingle m hm₀) hrows)
      (fun _ e' h' => h.concat hq hm₀ h') fun _ e' h' => ?_
    rcases h' with hfull | h'
    · refine .inl ?_
      rw [versionsIn_append, versionsIn, versionsIn, hm₀, Option.elim_some]
      omega
    · refine .inr ⟨done ++ [q], rest, ?_, h.concat hq hm₀ h'.1,
        .inr ⟨q, m, ?_, hm₀, h.txnMgr ▸ h'.2⟩⟩
      · rw [hkeys, List.append_assoc, List.singleton_append]
      · exact List.mem_append_right _ List.mem_cons_self

/-- A vacuum that ends normally has been through all tables. -/
theorem wp_vacuum (h : Sound e) :
    vacuum.wp (fun _ e' => AfterVacuum e.data.keys [] e e')
      (fun _ e' => ¬ HasNumbers e ∨ ∃ done rest, AfterVacuum done rest e e') e := by
  rw [vacuum, Prog.wp_bind, Prog.wp_get, Prog.wp_bind]
  set oldest := e.txnMgr.getOldestActiveXid with holdest
  have hloop : (Prog.sumEach (vacuumTable oldest) e.data.keys).wp
      (fun _ => Tidied oldest e.data.keys e)
      (fun _ e' => ¬ HasNumbers e ∨ ∃ done rest, e.data.keys = done ++ rest ∧
        Tidied oldest done e e' ∧ Stops oldest done rest e) e := by
    refine Prog.wp_sumEach (fun done _ => Tidied oldest done e) ?_ ?_
    · intro done q rest hsplit _ e' h'
      refine Prog.wp_mono (h'.wp_next hsplit (h.tables.single q)) (fun _ _ h'' => h'')
        fun _ _ h'' => h''.imp_left fun hfull => ?_
      have hall : versionsIn e e.data.keys = versionsIn e (done ++ [q]) + versionsIn e rest := by
        rw [← versionsIn_append, hsplit, List.append_assoc, List.singleton_append]
      unfold HasNumbers
      omega
    · refine ⟨rfl, rfl, fun q hq => ?_, fun _ _ => rfl, ?_⟩
      · cases hq
      · simp [versionsIn]
  refine Prog.wp_mono hloop (fun _ e' h' => ?_) fun _ e' h' => h'.imp_right fun h' => ?_
  · rw [Prog.wp_bind, inTxn, Prog.wp_zoom, Prog.wp_modify]
    obtain ⟨c, hm, hc⟩ := e.txnMgr.exists_maybeAntiWraparound
    refine ⟨(List.append_nil _).symm, ⟨c, hc, ?_⟩, h'.catalog, h'.passed, h'.others, .inl rfl⟩
    change e'.txnMgr.maybeAntiWraparound = _
    rw [h'.txnMgr, hm]
  · obtain ⟨done, rest, hkeys, h', hstops⟩ := h'
    exact ⟨done, rest, hkeys, ⟨e.txnMgr.clog, fun _ => .inl rfl, h'.txnMgr⟩, h'.catalog, h'.passed,
      h'.others, .inr hstops⟩

end Vacuum

end JiaMiaoDB
