import JiaMiaoDB.Storage.ConflictEdges
import JiaMiaoDB.Storage.ManagerEffects
import JiaMiaoDB.Storage.ManagerFrame

/-! What the transaction manager keeps from call to call while it runs, outside a recovery: its
active set, commit log, id counter, read set and conflict edges agree. -/

set_option autoImplicit false

namespace JiaMiaoDB
namespace TransactionManager

/-! ### Invariants of every call -/

/-- Closed under the few changes that the calls are made of. -/
structure Closed (I : TransactionManager → Prop) : Prop where
  context : ∀ {m}, I m → ∀ c : TransactionContext,
    c.xid = m.context.xid ∨ c.xid = InvalidTransactionId → I (m.setContext c)
  giveUp : ∀ {m}, I m → ∀ c, m.GivesUp c → I { m with clog := c }
  assign : ∀ {m}, I m → ∀ c, m.GivesUp c → m.nextXid.toNat < XIDEmergencyStop →
    m.context.xid = InvalidTransactionId → I (m.assign c)
  finish : ∀ {m}, I m → ∀ status, status = .committed ∨ status = .aborted →
    m.context.xid ≠ InvalidTransactionId → I (m.finish m.context.xid status)
  finishEmpty : ∀ {m}, I m → I { m with activeXids := m.activeXids.erase InvalidTransactionId }
  read : ∀ {m}, I m → ∀ key, I (m.registerSiread key)
  write : ∀ {m}, I m → ∀ key, I (m.registerWrite key)
  cleanup : ∀ {m}, I m → ∀ xid, I (m.cleanupTransactionState xid)

namespace Closed
variable {I : TransactionManager → Prop}

theorem abortTransaction (hI : Closed I) {m : TransactionManager} (h : I m) :
    I m.abortTransaction := by
  unfold TransactionManager.abortTransaction
  dsimp only
  split
  · rename_i hxid
    exact hI.finish h .aborted (.inr rfl) hxid
  · exact hI.context h _ (.inr rfl)

theorem keeps_commitTransaction (hI : Closed I) :
    Prog.Keeps I TransactionManager.commitTransaction := by
  refine Prog.Keeps.get_bind fun m h => ?_
  dsimp only
  split
  · rename_i hxid
    rw [hxid]
    exact hI.context (hI.finishEmpty h) _ (.inr rfl)
  · rename_i hxid
    split
    · exact h
    · exact hI.finish h .committed (.inl rfl) hxid

theorem keeps_commandCounterIncrement (hI : Closed I) :
    Prog.Keeps I TransactionManager.commandCounterIncrement := by
  refine Prog.Keeps.get_bind fun m h => ?_
  split
  · exact h
  · exact hI.context h _ (.inl rfl)

theorem keeps_commitTransactionCommand (hI : Closed I) :
    Prog.Keeps I TransactionManager.commitTransactionCommand := by
  have hcommit := hI.keeps_commitTransaction.bind fun _ =>
    Prog.Keeps.modify (ε := Failure) (f := fun m => m.setBlockState .default)
      fun m h => hI.context h { m.context with blockState := .default } (.inl rfl)
  refine Prog.Keeps.get_bind fun m h => ?_
  split
  · exact hcommit m h
  · exact hcommit m h
  · exact hI.context h _ (.inl rfl)
  · exact hI.keeps_commandCounterIncrement m h
  · exact hI.context (hI.abortTransaction h) _ (.inl rfl)
  · exact h

theorem keeps_assignXid (hI : Closed I) : Prog.Keeps I TransactionManager.assignXid := by
  intro m h
  by_cases hxid : m.context.xid = InvalidTransactionId
  · obtain ⟨c, hc, ⟨-, f, hrun⟩ | ⟨hstop, hrun⟩⟩ := run_assignXid_cases hxid
    · exact Prog.wp_of_error hrun (hI.giveUp h c hc)
    · exact Prog.wp_of_ok hrun (hI.assign h c hc hstop hxid)
  · exact Prog.wp_of_ok (run_assignXid_of_ne hxid) h

end Closed
end TransactionManager

open TransactionManager

/-- The calls outside a recovery that leave the id counter alone. -/
def ManagerCall.regular : ManagerCall → Bool
  | .setNextXid _ | .rebuildActiveFromClog => false
  | _ => true

theorem TransactionManager.Closed.keeps_run {I : TransactionManager → Prop} (hI : Closed I)
    {c : ManagerCall} (hc : c.regular = true) : Prog.Keeps I c.run := by
  have discard {α : Type} {p : TxnM α} (hp : Prog.Keeps I p) :
      Prog.Keeps I (ManagerCall.discard p) := hp.bind fun _ => Prog.Keeps.pure ()
  cases c with
  | startTransactionCommand =>
    refine Prog.Keeps.modify fun m h => ?_
    unfold TransactionManager.startTransactionCommand
    split
    · exact hI.context h _ (.inr rfl)
    · exact h
  | commitTransactionCommand => exact hI.keeps_commitTransactionCommand
  | beginTransactionBlock =>
    refine Prog.Keeps.get_bind fun m h => ?_
    split
    · exact hI.context h _ (.inr rfl)
    · exact hI.context h _ (.inl rfl)
    · exact h
  | commitTransaction => exact hI.keeps_commitTransaction
  | abortTransaction => exact Prog.Keeps.modify fun m h => hI.abortTransaction h
  | setIsolationLevel level => exact Prog.Keeps.modify fun m h => hI.context h _ (.inl rfl)
  | assignXid => exact discard hI.keeps_assignXid
  | setNextXid xid => cases hc
  | freezeOldXids =>
    exact Prog.Keeps.modify fun m h => hI.giveUp h _ m.givesUp_freezeOldXids
  | maybeAntiWraparound =>
    refine Prog.Keeps.modify fun m h => ?_
    obtain ⟨c, hm, hc⟩ := m.exists_maybeAntiWraparound
    rw [hm]
    exact hI.giveUp h c hc
  | commandCounterIncrement => exact hI.keeps_commandCounterIncrement
  | getTransactionSnapshot =>
    refine discard (Prog.Keeps.get_bind fun m h => ?_)
    split
    · exact h
    · exact hI.context h _ (.inl rfl)
  | addUndoRecord r => exact Prog.Keeps.modify fun m h => hI.context h _ (.inl rfl)
  | savepoint name => exact Prog.Keeps.modify fun m h => hI.context h _ (.inl rfl)
  | rollbackToSavepoint name =>
    refine discard (Prog.Keeps.get_bind fun m h => ?_)
    split
    · exact h
    · exact hI.context h _ (.inl rfl)
  | releaseSavepoint name =>
    refine Prog.Keeps.get_bind fun m h => ?_
    split
    · exact h
    · exact hI.context h _ (.inl rfl)
  | registerSiread key => exact Prog.Keeps.modify fun m h => hI.read h key
  | registerWrite key => exact Prog.Keeps.modify fun m h => hI.write h key
  | cleanupTransactionState xid => exact Prog.Keeps.modify fun m h => hI.cleanup h xid
  | rebuildActiveFromClog => cases hc
  | resetContext => exact Prog.Keeps.modify fun m h => hI.context h _ (.inr rfl)

/-- What every call of the manager keeps, the statements of the engine keep too. -/
theorem TransactionManager.Closed.managerInvariant {I : TransactionManager → Prop} (hI : Closed I) :
    ManagerInvariant I where
  assignXid := hI.keeps_assignXid
  registerSiread _ key h := hI.read h key
  registerWrite _ key h := hI.write h key
  addUndoRecord _ _ h := hI.context h _ (.inl rfl)
  maybeAntiWraparound m h := by
    obtain ⟨c, hm, hc⟩ := m.exists_maybeAntiWraparound
    rw [hm]
    exact hI.giveUp h c hc

/-! ### The parts of the manager agree -/

namespace TransactionManager

/-- The ids in use: the active ones are open and below the next one, and only they are on record as
readers or at an end of a conflict edge. -/
structure Tracked (m : TransactionManager) : Prop where
  next : FirstNormalTransactionId ≤ m.nextXid
  stop : m.nextXid.toNat ≤ XIDEmergencyStop
  active : ∀ x ∈ m.activeXids,
    FirstNormalTransactionId ≤ x ∧ x < m.nextXid ∧ m.clog.getStatus x = .inProgress
  current : m.context.xid ≠ InvalidTransactionId → m.context.xid ∈ m.activeXids
  entries : ∀ (key : RowKey) readers, m.sireadMap[key]? = some readers → readers.isEmpty = false
  readers : ∀ x key, m.HasRead x key → x ∈ m.activeXids
  sources : ∀ x ∈ m.inConflict, x ∈ m.activeXids
  edges : ∀ x y, m.HasEdge x y → y ∈ m.activeXids

namespace Tracked
variable {m : TransactionManager}

theorem initial : Tracked TransactionManager.initial where
  next := by decide
  stop := by decide
  active x hx := absurd hx Std.ExtTreeSet.not_mem_empty
  current h := absurd rfl h
  entries key readers h := by cases h
  readers x key h := absurd h Std.ExtTreeSet.not_mem_empty
  sources x h := absurd h Std.ExtTreeMap.not_mem_empty
  edges x y h := absurd h Std.ExtTreeSet.not_mem_empty

theorem ne_of_active (h : Tracked m) {x : TransactionId} (hx : x ∈ m.activeXids) :
    x ≠ InvalidTransactionId := by
  rintro rfl
  exact absurd (h.active _ hx).1 (by decide)

theorem setContext (h : Tracked m) (c : TransactionContext)
    (hc : c.xid = m.context.xid ∨ c.xid = InvalidTransactionId) : Tracked (m.setContext c) where
  next := h.next
  stop := h.stop
  active := h.active
  current hxid := by
    rcases hc with hc | hc
    · change c.xid ∈ m.activeXids
      rw [hc]
      apply h.current
      rw [← hc]
      exact hxid
    · exact absurd hc hxid
  entries := h.entries
  readers := h.readers
  sources := h.sources
  edges := h.edges

theorem setClog (h : Tracked m) (c : CLog) (hc : m.GivesUp c) : Tracked { m with clog := c } where
  next := h.next
  stop := h.stop
  active x hx := by
    obtain ⟨hnormal, hnext, hopen⟩ := h.active x hx
    refine ⟨hnormal, hnext, ?_⟩
    rcases hc x with hsame | ⟨-, hold, -⟩
    · exact hsame.trans hopen
    · exact absurd (Consistent.getOldestActiveXid_le hx) (UInt32.not_le.mpr hold)
  current := h.current
  entries := h.entries
  readers := h.readers
  sources := h.sources
  edges := h.edges

theorem erase_invalid (h : Tracked m) :
    Tracked { m with activeXids := m.activeXids.erase InvalidTransactionId } := by
  have hsame : m.activeXids.erase InvalidTransactionId = m.activeXids := by
    apply Std.ExtTreeSet.ext_mem
    intro x
    rw [Std.ExtTreeSet.mem_erase]
    constructor
    · exact And.right
    · intro hx
      exact ⟨fun heq => h.ne_of_active hx (Std.LawfulEqCmp.eq_of_compare heq).symm, hx⟩
  rw [hsame]
  exact h

theorem assign (h : Tracked m) (c : CLog) (hc : m.GivesUp c)
    (hstop : m.nextXid.toNat < XIDEmergencyStop) : Tracked (m.assign c) := by
  have hlt := lt_nextXid_succ hstop
  have hold := h.setClog c hc
  have hmem {x : TransactionId} (hx : x ∈ m.activeXids) : x ∈ m.activeXids.insert m.nextXid :=
    Std.ExtTreeSet.mem_insert.mpr (.inr hx)
  constructor
  · exact UInt32.le_trans h.next (UInt32.le_of_lt hlt)
  · change (m.nextXid + 1).toNat ≤ _
    rw [UInt32.toNat_add]
    have hone : (1 : UInt32).toNat = 1 := rfl
    omega
  · intro x hx
    rcases Std.ExtTreeSet.mem_insert.mp hx with heq | hx
    · obtain rfl := Std.LawfulEqCmp.eq_of_compare heq
      exact ⟨h.next, hlt, CLog.getStatus_setStatus_self _ _ _⟩
    · obtain ⟨hnormal, hnext, hopen⟩ := hold.active x hx
      refine ⟨hnormal, UInt32.lt_trans hnext hlt, ?_⟩
      exact (CLog.getStatus_setStatus_of_ne c _ (UInt32.ne_of_lt hnext).symm).trans hopen
  · intro _
    exact Std.ExtTreeSet.mem_insert_self
  · exact h.entries
  · exact fun x key hx => hmem (h.readers x key hx)
  · exact fun x hx => hmem (h.sources x hx)
  · exact fun x y hxy => hmem (h.edges x y hxy)

theorem cleanup (h : Tracked m) (z : TransactionId) : Tracked (m.cleanupTransactionState z) where
  next := h.next
  stop := h.stop
  active := h.active
  current := h.current
  entries _ readers hkey := ((getElem?_sireadMap_cleanup readers).mp hkey).1
  readers x _ hx := h.readers x _ (hasRead_cleanup.mp hx).1
  sources x hx :=
    h.sources x (Std.ExtTreeMap.mem_of_mem_erase (Std.ExtTreeMap.mem_map.mp hx))
  edges x y hxy := h.edges x y (hasEdge_cleanup.mp hxy).1

/-- The transaction leaves the active set together with all its traces. -/
theorem finish (h : Tracked m) (xid : TransactionId) (status : TransactionStatus) :
    Tracked (m.finish xid status) := by
  have hmem {x : TransactionId} (hne : x ≠ xid) (hx : x ∈ m.activeXids) :
      x ∈ m.activeXids.erase xid :=
    Std.ExtTreeSet.mem_erase.mpr ⟨fun heq => hne (Std.LawfulEqCmp.eq_of_compare heq).symm, hx⟩
  have hclean := h.cleanup xid
  constructor
  · exact h.next
  · exact h.stop
  · intro x hx
    obtain ⟨hne, hx⟩ := Std.ExtTreeSet.mem_erase.mp hx
    obtain ⟨hnormal, hnext, hopen⟩ := h.active x hx
    have hxid : xid ≠ x := fun heq => hne (Std.compare_eq_iff_eq.mpr heq)
    exact ⟨hnormal, hnext, (CLog.getStatus_setStatus_of_ne m.clog status hxid).trans hopen⟩
  · exact fun hne => absurd rfl hne
  · exact hclean.entries
  · intro x key hx
    obtain ⟨hx, hne⟩ := (hasRead_cleanup (m := m)).mp hx
    exact hmem hne (h.readers x key hx)
  · intro x hx
    obtain ⟨hne, hx⟩ := Std.ExtTreeMap.mem_erase.mp (Std.ExtTreeMap.mem_map.mp hx)
    exact hmem (fun heq => hne (Std.compare_eq_iff_eq.mpr heq.symm)) (h.sources x hx)
  · intro x y hxy
    obtain ⟨hxy, -, hne⟩ := (hasEdge_cleanup (m := m)).mp hxy
    exact hmem hne (h.edges x y hxy)

theorem entry_registerSiread (h : Tracked m) {key other : RowKey} {readers : XidSet}
    (hr : (m.registerSiread key).sireadMap[other]? = some readers) : readers.isEmpty = false := by
  unfold TransactionManager.registerSiread at hr
  split at hr
  · rw [Std.ExtTreeMap.getElem?_insert] at hr
    split at hr
    · obtain rfl := Option.some.inj hr
      exact Std.ExtTreeSet.isEmpty_eq_false_iff.mpr Std.ExtTreeSet.insert_ne_empty
    · exact h.entries other readers hr
  · exact h.entries other readers hr

theorem registerSiread (h : Tracked m) (key : RowKey) : Tracked (m.registerSiread key) := by
  obtain ⟨hnext, hactive, hclog, hcontext, hedges⟩ := m.frame_registerSiread key
  constructor
  · rw [hnext]
    exact h.next
  · rw [hnext]
    exact h.stop
  · rw [hnext, hactive, hclog]
    exact h.active
  · rw [hcontext, hactive]
    exact h.current
  · intro other readers hr
    exact h.entry_registerSiread hr
  · intro x other hx
    rw [hactive]
    rcases hasRead_registerSiread.mp hx with hx | ⟨ht, -, rfl⟩
    · exact h.readers x other hx
    · exact h.current (xid_of_tracksConflicts ht)
  · rw [hedges, hactive]
    exact h.sources
  · intro x y hxy
    rw [hactive]
    exact h.edges x y (hasEdge_registerSiread.mp hxy)

theorem registerWrite (h : Tracked m) (key : RowKey) : Tracked (m.registerWrite key) := by
  obtain ⟨hnext, hactive, hclog, hcontext, hreads⟩ := m.frame_registerWrite key
  constructor
  · rw [hnext]
    exact h.next
  · rw [hnext]
    exact h.stop
  · rw [hnext, hactive, hclog]
    exact h.active
  · rw [hcontext, hactive]
    exact h.current
  · rw [hreads]
    exact h.entries
  · intro x other hx
    rw [hactive]
    exact h.readers x other (hasRead_registerWrite.mp hx)
  · intro x hx
    rw [hactive]
    rcases mem_inConflict_registerWrite hx with hx | hx
    · exact h.sources x hx
    · exact h.readers x key hx
  · intro x y hxy
    rw [hactive]
    rcases hasEdge_registerWrite.mp hxy with hxy | ⟨ht, -, -, rfl⟩
    · exact h.edges x y hxy
    · exact h.current (xid_of_tracksConflicts ht)

theorem closed : Closed Tracked where
  context h c hc := h.setContext c hc
  giveUp h c hc := h.setClog c hc
  assign h c hc hstop _ := h.assign c hc hstop
  finish h status _ _ := h.finish _ status
  finishEmpty h := h.erase_invalid
  read h key := h.registerSiread key
  write h key := h.registerWrite key
  cleanup h xid := h.cleanup xid

end Tracked

end TransactionManager

/-! ### Runs -/

namespace ManagerCall

/-- The ids that the call takes from the counter. -/
def allocated (c : ManagerCall) (m : TransactionManager) : List TransactionId :=
  match c with
  | .assignXid =>
    if m.context.xid = InvalidTransactionId then
      match TransactionManager.allocateXid.run m with
      | (.ok xid, _) => [xid]
      | (.error _, _) => []
    else []
  | _ => []

end ManagerCall

/-- The managers reached from a new one outside a recovery, with the ids allocated so far. A call that
throws counts with what it has done. -/
inductive TransactionManager.Issues : TransactionManager → List TransactionId → Prop
  | initial : Issues TransactionManager.initial []
  | call {m : TransactionManager} {ids : List TransactionId} (h : Issues m ids) (c : ManagerCall)
      (hc : c.regular = true) : Issues (c.run.run m).2 (ids ++ c.allocated m)

theorem closed_le_nextXid (n : TransactionId) :
    Closed fun m => n ≤ m.nextXid where
  context h _ _ := h
  giveUp h _ _ := h
  assign h _ _ hstop _ := UInt32.le_trans h (UInt32.le_of_lt (lt_nextXid_succ hstop))
  finish h _ _ _ := h
  finishEmpty h := h
  read {m} h key := by
    unfold TransactionManager.registerSiread
    split <;> exact h
  write {m} h key := by
    unfold TransactionManager.registerWrite
    split <;> exact h
  cleanup h _ := h

/-- A call takes no id, or the next one and then only below the stop. -/
theorem ManagerCall.allocated_cases (c : ManagerCall) (m : TransactionManager) :
    c.allocated m = [] ∨ c.allocated m = [m.nextXid] ∧ m.nextXid.toNat < XIDEmergencyStop ∧
      (c.run.run m).2.nextXid = m.nextXid + 1 := by
  cases c with
  | assignXid =>
    by_cases hxid : m.context.xid = InvalidTransactionId
    · obtain ⟨c, -, ⟨-, f, hrun⟩ | ⟨hstop, hrun⟩⟩ := m.run_allocateXid_cases
      · left
        simp only [allocated, if_pos hxid, hrun]
      · right
        have hassign : TransactionManager.assignXid.run m = (.ok m.nextXid,
            (m.issue c).setContext { (m.issue c).context with xid := m.nextXid }) := by
          rw [TransactionManager.assignXid, Prog.bind_ok (Prog.run_get m), if_pos hxid,
            Prog.bind_ok hrun]
          rfl
        refine ⟨by simp only [allocated, if_pos hxid, hrun], hstop, ?_⟩
        rw [run, ManagerCall.discard, Prog.bind_ok hassign]
        rfl
    · left
      simp only [allocated, if_neg hxid]
  | _ => exact .inl rfl

theorem TransactionManager.Issues.tracked {m : TransactionManager} {ids : List TransactionId}
    (h : Issues m ids) : Tracked m := by
  induction h with
  | initial => exact Tracked.initial
  | call _ c hc ih => exact (Tracked.closed.keeps_run hc).final ih

/-- The ids come in increasing order, all of them below the counter and below the stop. -/
theorem TransactionManager.Issues.increasing {m : TransactionManager} {ids : List TransactionId}
    (h : Issues m ids) :
    ids.Pairwise (· < ·) ∧ ∀ x ∈ ids, x < m.nextXid ∧ x.toNat < XIDEmergencyStop := by
  induction h with
  | initial => exact ⟨.nil, fun x hx => by cases hx⟩
  | @call m ids h c hc ih =>
    obtain ⟨hsorted, hbelow⟩ := ih
    have hle : m.nextXid ≤ (c.run.run m).2.nextXid :=
      ((closed_le_nextXid m.nextXid).keeps_run hc).final (UInt32.le_refl _)
    have hold (x : TransactionId) (hx : x ∈ ids) :
        x < (c.run.run m).2.nextXid ∧ x.toNat < XIDEmergencyStop :=
      ⟨UInt32.lt_of_lt_of_le (hbelow x hx).1 hle, (hbelow x hx).2⟩
    rcases c.allocated_cases m with hnone | ⟨hone, hstop, hnext⟩
    · rw [hnone, List.append_nil]
      exact ⟨hsorted, hold⟩
    · rw [hone]
      constructor
      · rw [List.pairwise_append]
        refine ⟨hsorted, List.pairwise_singleton _ _, ?_⟩
        intro x hx y hy
        rw [List.mem_singleton.mp hy]
        exact (hbelow x hx).1
      · intro x hx
        rcases List.mem_append.mp hx with hx | hx
        · exact hold x hx
        · rw [List.mem_singleton.mp hx, hnext]
          exact ⟨lt_nextXid_succ hstop, hstop⟩

/-- Giving up changes the status of no transaction that is active or has an outcome. -/
theorem TransactionManager.GivesUp.getStatus {m : TransactionManager} {c : CLog} (hc : m.GivesUp c)
    {x : TransactionId} (hx : x ∈ m.activeXids ∨ m.clog.getStatus x ≠ .inProgress) :
    c.getStatus x = m.clog.getStatus x := by
  rcases hc x with hsame | ⟨-, hold, hopen, -⟩
  · exact hsame
  · rcases hx with hx | hx
    · exact absurd (Consistent.getOldestActiveXid_le hx) (UInt32.not_le.mpr hold)
    · exact absurd hopen hx

/-- In every state of a run the parts of the manager agree: on the active ids, the current one, the
ids handed out, freezing, and the reads and conflict edges on record. -/
theorem TransactionManager.parts_agree {m : TransactionManager} {ids : List TransactionId}
    (h : Issues m ids) :
    (∀ x ∈ m.activeXids,
      FirstNormalTransactionId ≤ x ∧ x < m.nextXid ∧ m.clog.getStatus x = .inProgress) ∧
    (m.context.xid ≠ InvalidTransactionId → m.context.xid ∈ m.activeXids) ∧
    (ids.Pairwise (· < ·) ∧ ∀ x ∈ ids, x.toNat < XIDEmergencyStop) ∧
    (∀ x, x ∈ m.activeXids ∨ m.clog.getStatus x = .committed ∨ m.clog.getStatus x = .aborted →
      m.freezeOldXids.clog.getStatus x = m.clog.getStatus x ∧
        m.maybeAntiWraparound.clog.getStatus x = m.clog.getStatus x) ∧
    (∀ (key : RowKey) readers, m.sireadMap[key]? = some readers →
      readers.isEmpty = false ∧ ∀ x ∈ readers, x ∈ m.activeXids) ∧
    (∀ (x : TransactionId) writers, m.inConflict[x]? = some writers →
      x ∈ m.activeXids ∧ ∀ y ∈ writers, y ∈ m.activeXids) := by
  have ht := h.tracked
  refine ⟨ht.active, ht.current, ⟨h.increasing.1, fun x hx => (h.increasing.2 x hx).2⟩, ?_, ?_, ?_⟩
  · intro x hx
    have hx : x ∈ m.activeXids ∨ m.clog.getStatus x ≠ .inProgress := by
      rcases hx with hx | hx | hx
      · exact .inl hx
      · exact .inr (by rw [hx]; decide)
      · exact .inr (by rw [hx]; decide)
    obtain ⟨c, hm, hc⟩ := m.exists_maybeAntiWraparound
    rw [hm]
    exact ⟨m.givesUp_freezeOldXids.getStatus hx, hc.getStatus hx⟩
  · intro key readers hreaders
    exact ⟨ht.entries key readers hreaders,
      fun x hx => ht.readers x key (hasRead_iff.mpr ⟨readers, hreaders, hx⟩)⟩
  · intro x writers hwriters
    refine ⟨ht.sources x ?_, fun y hy => ht.edges x y (hasEdge_iff.mpr ⟨writers, hwriters, hy⟩)⟩
    exact Std.ExtTreeMap.mem_iff_isSome_getElem?.mpr (by rw [hwriters]; rfl)

theorem oneActive_agrees : oneActive.context.xid ∈ oneActive.activeXids ∧
    oneActive.maybeAntiWraparound.clog.getStatus oneActive.context.xid = .inProgress := by
  have h := parts_agree (.call .initial .assignXid rfl)
  have hactive : oneActive.context.xid ∈ oneActive.activeXids := h.2.1 (by decide)
  exact ⟨hactive, (h.2.2.2.1 _ (.inl hactive)).2.trans (h.1 _ hactive).2.2⟩

end JiaMiaoDB
