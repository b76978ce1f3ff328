import JiaMiaoDB.Storage.VacuumView

/-!
# Dead versions that vacuum leaves

A version is dead when its deleter committed and lies below the oldest active transaction. Vacuum
asks the commit log about the inserter as well, and the log has no entry for the frozen id: a version
that an earlier vacuum froze is never recognised as dead.
-/

set_option autoImplicit false

namespace JiaMiaoDB
open StorageEngine BinaryRowCodec TransactionManager

/-- The version is in one of the tables. -/
def StorageEngine.StoresVersion (e : StorageEngine) (t : Tuple) : Prop :=
  ∃ (q : Str) (m : MemTable), e.data[q]? = some m ∧ t ∈ m.scanAll

namespace Tuple
variable (m : TransactionManager) (t : Tuple)

/-- The deleter has committed and no transaction that is active can have overlapped with it. -/
def Dead : Prop :=
  t.hdr.xmax ≠ InvalidTransactionId ∧ m.clog.getStatus t.hdr.xmax = .committed ∧
    t.hdr.xmax < m.getOldestActiveXid

/-- The inserter has an outcome in the commit log and lies below the oldest active transaction. -/
def InserterEnded : Prop :=
  (m.clog.getStatus t.hdr.xmin = .committed ∨ m.clog.getStatus t.hdr.xmin = .aborted) ∧
    t.hdr.xmin < m.getOldestActiveXid

instance : Decidable (t.Dead m) := inferInstanceAs (Decidable (_ ∧ _ ∧ _))

instance : Decidable (t.InserterEnded m) := inferInstanceAs (Decidable (_ ∧ _))

end Tuple

/-- Vacuum has reclaimed every dead version. -/
def StorageEngine.NoneDead (e : StorageEngine) : Prop := ∀ t, e.StoresVersion t → ¬ t.Dead e.txnMgr

section
variable {m : TransactionManager} {t t' : Tuple}

theorem Tuple.Dead.erase_iff (h : t.Dead m) (hm : Settled m) :
    vacuumVerdict m.clog m.getOldestActiveXid t.hdr.xmin t.hdr.xmax = .erase ↔
      t.InserterEnded m := by
  obtain ⟨hne, hstatus, hlt⟩ := h
  have hfrozen : m.clog.getStatus FrozenTransactionId = .inProgress := hm.special _ (by decide)
  have hbelow : ¬ (t.hdr.xmax ≠ 0 ∧ m.getOldestActiveXid ≤ t.hdr.xmax) := fun hle =>
    absurd hlt (UInt32.not_lt.2 hle.2)
  unfold vacuumVerdict Tuple.InserterEnded
  by_cases hmin : m.getOldestActiveXid ≤ t.hdr.xmin ∧ t.hdr.xmin ≠ FrozenTransactionId
  · rw [if_pos hmin]
    exact ⟨fun h => VacuumVerdict.noConfusion h, fun h => absurd h.2 (UInt32.not_lt.2 hmin.1)⟩
  · rw [if_neg hmin, if_neg hbelow]
    have hordinary (hout : m.clog.getStatus t.hdr.xmin ≠ .inProgress) :
        t.hdr.xmin < m.getOldestActiveXid := by
      refine UInt32.not_le.1 fun hle => hmin ⟨hle, fun he => hout ?_⟩
      rw [he, hfrozen]
    cases hxmin : m.clog.getStatus t.hdr.xmin with
    | committed =>
      rw [if_neg TransactionStatus.noConfusion, if_pos ⟨rfl, hne, hstatus⟩]
      exact ⟨fun _ => ⟨.inl rfl, hordinary (by rw [hxmin]; exact TransactionStatus.noConfusion)⟩,
        fun _ => rfl⟩
    | aborted =>
      rw [if_pos rfl]
      exact ⟨fun _ => ⟨.inr rfl, hordinary (by rw [hxmin]; exact TransactionStatus.noConfusion)⟩,
        fun _ => rfl⟩
    | inProgress => simp
    | subCommitted => simp

/-- A version that is stored again keeps its deleter. -/
theorem xmax_of_vacuumed {c : CLog} {oldest : TransactionId} {q : Str} {row : Row}
    (hrow : toRow t = .ok row) (h : vacuumed c oldest q t = some t') :
    t'.hdr.xmax = t.hdr.xmax := by
  rcases vacuumed_eq_some.1 h with ⟨-, rfl⟩ | ⟨-, ht'⟩
  · rfl
  · obtain ⟨t₁, ht₁, -, -, hxmax, -⟩ := exists_refrozen hrow q
    obtain rfl := Except.ok.inj (ht₁.symm.trans ht')
    exact hxmax

/-- Giving up old transactions commits none. -/
theorem dead_of_givesUp {c : CLog} (hc : m.GivesUp c) :
    t.Dead { m with clog := c } ↔ t.Dead m := by
  have hstatus : c.getStatus t.hdr.xmax = .committed ↔
      m.clog.getStatus t.hdr.xmax = .committed := by
    rcases hc t.hdr.xmax with hsame | ⟨-, -, hopen, haborted⟩
    · rw [hsame]
    · rw [hopen, haborted]
      exact ⟨TransactionStatus.noConfusion, TransactionStatus.noConfusion⟩
  exact ⟨fun ⟨hne, hcommitted, hlt⟩ => ⟨hne, hstatus.1 hcommitted, hlt⟩,
    fun ⟨hne, hcommitted, hlt⟩ => ⟨hne, hstatus.2 hcommitted, hlt⟩⟩

end

section
variable {e₀ e : StorageEngine}

theorem forall_stored_of_all {p : Tuple → Bool}
    (h : (e.data.keys.all fun q => (e.data[q]?).all fun m => m.scanAll.all p) = true) {t : Tuple}
    (ht : e.StoresVersion t) : p t = true := by
  obtain ⟨q, m, hm, ht⟩ := ht
  have hq : q ∈ e.data.keys := by
    rw [Std.ExtTreeMap.mem_keys, Std.ExtTreeMap.mem_iff_isSome_getElem?, hm]
    rfl
  have htable := List.all_eq_true.1 h q hq
  rw [hm] at htable
  exact List.all_eq_true.1 htable t ht

/-- The versions after a vacuum that went through all tables. -/
theorem AfterVacuum.stored_iff (h : AfterVacuum e₀.data.keys [] e₀ e) {t' : Tuple} :
    e.StoresVersion t' ↔ ∃ (q : Str) (m : MemTable) (t : Tuple) (row : Row), e₀.data[q]? = some m ∧
      t ∈ m.scanAll ∧ toRow t = .ok row ∧
      vacuumed e₀.txnMgr.clog e₀.txnMgr.getOldestActiveXid q t = some t' := by
  have hdone {q : Str} {m : MemTable} (hm : e₀.data[q]? = some m) : q ∈ e₀.data.keys := by
    rw [Std.ExtTreeMap.mem_keys, Std.ExtTreeMap.mem_iff_isSome_getElem?, hm]
    rfl
  constructor
  · rintro ⟨q, m', hm', ht'⟩
    by_cases hq : q ∈ e₀.data.keys
    · obtain ⟨m, m₁, hm, hm₁, hv⟩ := h.passed q hq
      obtain rfl := Option.some.inj (hm₁.symm.trans hm')
      rw [hv.scan, List.mem_filterMap] at ht'
      obtain ⟨t, ht, hvac⟩ := ht'
      obtain ⟨rows, hrows⟩ := hv.read
      obtain ⟨row, -, hrow⟩ := ExceptList.ok_of_mapM_ok hrows ht
      exact ⟨q, m, t, row, hm, ht, hrow, hvac⟩
    · rw [h.others q hq] at hm'
      exact absurd (hdone hm') hq
  · rintro ⟨q, m, t, row, hm, ht, -, hvac⟩
    obtain ⟨m₁, m', hm₁, hm', hv⟩ := h.passed q (hdone hm)
    obtain rfl := Option.some.inj (hm₁.symm.trans hm)
    refine ⟨q, m', hm', ?_⟩
    rw [hv.scan, List.mem_filterMap]
    exact ⟨t, ht, hvac⟩

theorem AfterVacuum.noneDead_iff (h : AfterVacuum e₀.data.keys [] e₀ e) (hm : Settled e₀.txnMgr) :
    e.NoneDead ↔ ∀ t, e₀.StoresVersion t → t.Dead e₀.txnMgr → t.InserterEnded e₀.txnMgr := by
  obtain ⟨c, hc, hmgr⟩ := h.manager
  unfold NoneDead
  rw [hmgr]
  simp only [dead_of_givesUp hc]
  constructor
  · rintro hnone t ⟨q, m, hq, ht⟩ hdead
    refine (hdead.erase_iff hm).1 ?_
    have hq' : q ∈ e₀.data.keys := by
      rw [Std.ExtTreeMap.mem_keys, Std.ExtTreeMap.mem_iff_isSome_getElem?, hq]
      rfl
    obtain ⟨m₁, -, hm₁, -, ⟨rows, hrows⟩, -⟩ := h.passed q hq'
    obtain rfl := Option.some.inj (hm₁.symm.trans hq)
    obtain ⟨row, -, hrow⟩ := ExceptList.ok_of_mapM_ok hrows ht
    have hgone {t' : Tuple} :
        vacuumed e₀.txnMgr.clog e₀.txnMgr.getOldestActiveXid q t ≠ some t' := by
      intro hvac
      refine hnone t' (h.stored_iff.2 ⟨q, _, t, row, hq, ht, hrow, hvac⟩) ?_
      unfold Tuple.Dead at hdead ⊢
      rwa [xmax_of_vacuumed hrow hvac]
    cases hv : vacuumVerdict e₀.txnMgr.clog e₀.txnMgr.getOldestActiveXid t.hdr.xmin t.hdr.xmax with
    | erase => rfl
    | keep => exact absurd (vacuumed_eq_some.2 (.inl ⟨hv, rfl⟩)) hgone
    | freeze =>
      obtain ⟨t', ht', -⟩ := exists_refrozen hrow q
      exact absurd (vacuumed_eq_some.2 (.inr ⟨hv, ht'⟩)) hgone
  · intro hended t' hstored hdead
    obtain ⟨q, m, t, row, hq, ht, hrow, hvac⟩ := h.stored_iff.1 hstored
    have hdead₀ : t.Dead e₀.txnMgr := by
      unfold Tuple.Dead at hdead ⊢
      rwa [← xmax_of_vacuumed hrow hvac]
    have herase := (hdead₀.erase_iff hm).2 (hended t ⟨q, m, hq, ht⟩ hdead₀)
    rw [vacuumed, herase] at hvac
    cases hvac

end

/-- After a vacuum of a run of transactions no dead version is left if and only if the inserter of
every dead version had an outcome in the commit log below the oldest active transaction. -/
theorem vacuum_complete_iff {s : Session} (h : Session.Reached Session.Transactional s) {n : Nat}
    {e : StorageEngine} (hrun : vacuum.run s.engine = (.ok n, e)) :
    e.NoneDead ↔ ∀ t, s.engine.StoresVersion t → t.Dead s.engine.txnMgr →
      t.InserterEnded s.engine.txnMgr := by
  have hsound := sound_of_reached h
  have hafter := wp_vacuum hsound
  unfold Prog.wp at hafter
  rw [hrun] at hafter
  exact AfterVacuum.noneDead_iff hafter hsound.manager

/-- The row is deleted by the next transaction. -/
def expiredEngine : StorageEngine :=
  [Call.removeWithTxn (str "t") (fun _ => true),
    .txn ManagerCall.commitTransaction.run].foldl (fun e c => (c.exec.run e).2) transactedEngine

theorem transactional_expiredEngine :
    Session.Reached Session.Transactional ⟨expiredEngine, [], false⟩ :=
  .step (a := .call (.txn ManagerCall.commitTransaction.run)) (.step
    (a := .call (.removeWithTxn (str "t") fun _ => true)) transactional_transactedEngine trivial rfl)
    ⟨.commitTransaction, rfl, rfl⟩ rfl

/-- The vacuum reclaims its only version. -/
theorem vacuum_complete_expired : (vacuum.run expiredEngine).1 = .ok 1 ∧
    (vacuum.run expiredEngine).2.NoneDead := by
  have h : (vacuum.run expiredEngine).1 = .ok 1 ∧
      (expiredEngine.data.keys.all fun q => (expiredEngine.data[q]?).all fun m =>
        m.scanAll.all fun t => decide (t.InserterEnded expiredEngine.txnMgr)) = true := by
    decide +kernel
  refine ⟨h.1, (vacuum_complete_iff transactional_expiredEngine (Prod.ext h.1 rfl)).2 ?_⟩
  exact fun t ht _ => of_decide_eq_true (forall_stored_of_all h.2 ht)

/-- The row is frozen by a vacuum, and deleted by the next transaction. -/
def deletedEngine : StorageEngine :=
  [Call.vacuum, .removeWithTxn (str "t") (fun _ => true),
    .txn ManagerCall.commitTransaction.run].foldl (fun e c => (c.exec.run e).2) transactedEngine

theorem transactional_deletedEngine :
    Session.Reached Session.Transactional ⟨deletedEngine, [], false⟩ :=
  .step (a := .call (.txn ManagerCall.commitTransaction.run)) (.step
    (a := .call (.removeWithTxn (str "t") fun _ => true)) (.step (a := .call .vacuum)
    transactional_transactedEngine trivial rfl) trivial rfl) ⟨.commitTransaction, rfl, rfl⟩ rfl

/-- The second vacuum leaves the row: its inserter is the frozen id, its deleter 4 has committed and
no transaction is active. -/
theorem not_vacuum_complete : ¬ ∀ s, Session.Reached Session.Transactional s → ∀ n e,
    vacuum.run s.engine = (.ok n, e) → e.NoneDead := by
  intro hall
  have h : (vacuum.run deletedEngine).1 = .ok 0 ∧
      ((vacuum.run deletedEngine).2.data[str "defaultdb.public.t"]?).any (fun m =>
        m.scanAll.any fun t => decide (t.Dead (vacuum.run deletedEngine).2.txnMgr)) = true := by
    decide +kernel
  obtain ⟨m, hm, hdead⟩ := (Option.any_eq_true _ _).1 h.2
  obtain ⟨t, ht, hdead⟩ := List.any_eq_true.1 hdead
  exact hall _ transactional_deletedEngine _ _ (Prod.ext h.1 rfl) t ⟨_, m, hm, ht⟩
    (of_decide_eq_true hdead)

end JiaMiaoDB
