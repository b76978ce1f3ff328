import JiaMiaoDB.Storage.Transaction

/-! The reads and the conflict edges that the transaction manager has recorded, as relations, and what
each of its calls does to them. -/

set_option autoImplicit false

namespace JiaMiaoDB
namespace TransactionManager

/-- `x` is on record as a reader of the row. -/
def HasRead (m : TransactionManager) (x : TransactionId) (key : RowKey) : Prop :=
  x ∈ m.sireadMap.getD key ∅

/-- An edge from a reader to the transaction that wrote what it had read. -/
def HasEdge (m : TransactionManager) (x y : TransactionId) : Prop :=
  y ∈ m.inConflict.getD x ∅

variable {m : TransactionManager} {x y z : TransactionId} {key other : RowKey}

theorem hasRead_iff : m.HasRead x key ↔ ∃ readers, m.sireadMap[key]? = some readers ∧ x ∈ readers := by
  unfold HasRead
  rw [Std.ExtTreeMap.getD_eq_getD_getElem?]
  cases m.sireadMap[key]? with
  | none => simp
  | some readers => simp

theorem hasEdge_iff : m.HasEdge x y ↔ ∃ writers, m.inConflict[x]? = some writers ∧ y ∈ writers := by
  unfold HasEdge
  rw [Std.ExtTreeMap.getD_eq_getD_getElem?]
  cases m.inConflict[x]? with
  | none => simp
  | some writers => simp

theorem ssiIsPivot_iff : m.ssiIsPivot x = true ↔ ∃ y, y ≠ x ∧ m.HasEdge x y ∧ m.HasEdge y x := by
  unfold ssiIsPivot HasEdge
  rw [List.any_eq_true]
  constructor
  · rintro ⟨y, hy, h⟩
    obtain ⟨hne, hyx⟩ := of_decide_eq_true h
    exact ⟨y, hne, Std.ExtTreeSet.mem_toList.mp hy, hyx⟩
  · rintro ⟨y, hne, hxy, hyx⟩
    exact ⟨y, Std.ExtTreeSet.mem_toList.mpr hxy, decide_eq_true ⟨hne, hyx⟩⟩

theorem xid_of_tracksConflicts (h : m.tracksConflicts = true) :
    m.context.xid ≠ InvalidTransactionId := by
  unfold tracksConflicts at h
  exact (of_decide_eq_true h).2

/-- Only the reads on record change. -/
theorem frame_registerSiread (m : TransactionManager) (key : RowKey) :
    (m.registerSiread key).nextXid = m.nextXid ∧ (m.registerSiread key).activeXids = m.activeXids ∧
      (m.registerSiread key).clog = m.clog ∧ (m.registerSiread key).context = m.context ∧
      (m.registerSiread key).inConflict = m.inConflict := by
  unfold registerSiread
  split <;> exact ⟨rfl, rfl, rfl, rfl, rfl⟩

/-- Only the edges change. -/
theorem frame_registerWrite (m : TransactionManager) (key : RowKey) :
    (m.registerWrite key).nextXid = m.nextXid ∧ (m.registerWrite key).activeXids = m.activeXids ∧
      (m.registerWrite key).clog = m.clog ∧ (m.registerWrite key).context = m.context ∧
      (m.registerWrite key).sireadMap = m.sireadMap := by
  unfold registerWrite
  split <;> exact ⟨rfl, rfl, rfl, rfl, rfl⟩

/-! ### Reads -/

theorem hasRead_registerSiread : (m.registerSiread key).HasRead x other ↔
    m.HasRead x other ∨ m.tracksConflicts = true ∧ other = key ∧ x = m.context.xid := by
  unfold registerSiread
  split
  · rename_i htracks
    unfold HasRead
    rw [Std.ExtTreeMap.getD_insert]
    by_cases hkey : key = other
    · subst other
      rw [if_pos Std.ReflCmp.compare_self, Std.ExtTreeSet.mem_insert,
        Std.LawfulEqCmp.compare_eq_iff_eq]
      simp only [htracks, true_and]
      exact ⟨fun h => h.elim (fun h => .inr h.symm) .inl, fun h => h.elim .inr fun h => .inl h.symm⟩
    · rw [if_neg fun h => hkey (Std.LawfulEqCmp.eq_of_compare h)]
      simp only [Ne.symm hkey, false_and, and_false, or_false]
  · rename_i htracks
    simp only [htracks, Bool.false_eq_true, false_and, or_false]

theorem hasEdge_registerSiread : (m.registerSiread key).HasEdge x y ↔ m.HasEdge x y := by
  unfold registerSiread
  split <;> exact Iff.rfl

/-! ### Writes -/

/-- What the loop over the readers of a row adds to the edges. -/
theorem mem_addEdges (current : TransactionId) (readers : List TransactionId)
    (edges : Std.ExtTreeMap TransactionId XidSet compare) :
    y ∈ (readers.foldl (fun edges reader =>
        if reader = current then edges
        else edges.insert reader ((edges.getD reader ∅).insert current)) edges).getD x ∅ ↔
      y ∈ edges.getD x ∅ ∨ x ∈ readers ∧ x ≠ current ∧ y = current := by
  induction readers generalizing edges with
  | nil => simp
  | cons reader rest ih =>
    rw [List.foldl_cons, ih]
    by_cases hcur : reader = current
    · rw [if_pos hcur]
      constructor
      · rintro (h | ⟨hx, hne, hy⟩)
        · exact .inl h
        · exact .inr ⟨List.mem_cons_of_mem _ hx, hne, hy⟩
      · rintro (h | ⟨hx, hne, hy⟩)
        · exact .inl h
        · rcases List.mem_cons.mp hx with rfl | hx
          · exact absurd hcur hne
          · exact .inr ⟨hx, hne, hy⟩
    · rw [if_neg hcur, Std.ExtTreeMap.getD_insert]
      by_cases hx : reader = x
      · subst x
        rw [if_pos Std.ReflCmp.compare_self, Std.ExtTreeSet.mem_insert,
          Std.LawfulEqCmp.compare_eq_iff_eq]
        constructor
        · rintro ((h | h) | ⟨-, -, h⟩)
          · exact .inr ⟨List.mem_cons_self, hcur, h.symm⟩
          · exact .inl h
          · exact .inr ⟨List.mem_cons_self, hcur, h⟩
        · rintro (h | ⟨-, -, h⟩)
          · exact .inl (.inr h)
          · exact .inl (.inl h.symm)
      · rw [if_neg fun h => hx (Std.LawfulEqCmp.eq_of_compare h), List.mem_cons]
        simp only [Ne.symm hx, false_or]

theorem hasEdge_registerWrite : (m.registerWrite key).HasEdge x y ↔ m.HasEdge x y ∨
    m.tracksConflicts = true ∧ m.HasRead x key ∧ x ≠ m.context.xid ∧ y = m.context.xid := by
  unfold registerWrite
  split
  · rename_i htracks
    unfold HasEdge HasRead
    rw [mem_addEdges, Std.ExtTreeSet.mem_toList]
    simp only [htracks, true_and]
  · rename_i htracks
    simp only [htracks, Bool.false_eq_true, false_and, or_false]

theorem hasRead_registerWrite : (m.registerWrite key).HasRead x other ↔ m.HasRead x other := by
  unfold registerWrite
  split <;> exact Iff.rfl

theorem mem_inConflict_registerWrite (h : x ∈ (m.registerWrite key).inConflict) :
    x ∈ m.inConflict ∨ m.HasRead x key := by
  unfold registerWrite at h
  split at h
  · refine List.foldlRecOn (motive := fun edges : Std.ExtTreeMap TransactionId XidSet compare =>
      x ∈ edges → x ∈ m.inConflict ∨ m.HasRead x key) _ _ .inl ?_ h
    intro edges ih reader hreader hx
    split at hx
    · exact ih hx
    · rcases Std.ExtTreeMap.mem_insert.mp hx with heq | hx
      · obtain rfl := Std.LawfulEqCmp.eq_of_compare heq
        exact .inr (Std.ExtTreeSet.mem_toList.mp hreader)
      · exact ih hx
  · exact .inl h

/-! ### The end of a transaction -/

/-- Every entry that a cleanup leaves is a former one without `z`, and it is not empty. -/
theorem getElem?_sireadMap_cleanup (readers : XidSet) :
    (m.cleanupTransactionState z).sireadMap[key]? = some readers ↔ readers.isEmpty = false ∧
      ∃ before, m.sireadMap[key]? = some before ∧ readers = before.erase z := by
  unfold cleanupTransactionState
  rw [Std.ExtTreeMap.getElem?_filter', Std.ExtTreeMap.getElem?_map, Option.filter_eq_some_iff,
    Option.map_eq_some_iff]
  constructor
  · rintro ⟨⟨before, hbefore, rfl⟩, hempty⟩
    exact ⟨by simpa using hempty, before, hbefore, rfl⟩
  · rintro ⟨hempty, before, hbefore, rfl⟩
    exact ⟨⟨before, hbefore, rfl⟩, by simpa using hempty⟩

theorem hasRead_cleanup :
    (m.cleanupTransactionState z).HasRead x key ↔ m.HasRead x key ∧ x ≠ z := by
  rw [hasRead_iff, hasRead_iff]
  constructor
  · rintro ⟨readers, hreaders, hx⟩
    obtain ⟨-, before, hbefore, rfl⟩ := (getElem?_sireadMap_cleanup readers).mp hreaders
    obtain ⟨hne, hx⟩ := Std.ExtTreeSet.mem_erase.mp hx
    exact ⟨⟨before, hbefore, hx⟩, fun h => hne (Std.compare_eq_iff_eq.mpr h.symm)⟩
  · rintro ⟨⟨before, hbefore, hx⟩, hne⟩
    have hmem : x ∈ before.erase z := Std.ExtTreeSet.mem_erase.mpr
      ⟨fun h => hne (Std.LawfulEqCmp.eq_of_compare h).symm, hx⟩
    refine ⟨before.erase z, (getElem?_sireadMap_cleanup _).mpr ⟨?_, before, hbefore, rfl⟩, hmem⟩
    rw [Std.ExtTreeSet.isEmpty_eq_false_iff]
    intro hempty
    rw [hempty] at hmem
    exact Std.ExtTreeSet.not_mem_empty hmem

theorem hasEdge_cleanup :
    (m.cleanupTransactionState z).HasEdge x y ↔ m.HasEdge x y ∧ x ≠ z ∧ y ≠ z := by
  have hmap : (m.cleanupTransactionState z).inConflict[x]? =
      (if z = x then none else m.inConflict[x]?).map (·.erase z) := by
    unfold cleanupTransactionState
    rw [Std.ExtTreeMap.getElem?_map, Std.ExtTreeMap.getElem?_erase]
    simp only [Std.compare_eq_iff_eq]
  rw [hasEdge_iff, hasEdge_iff, hmap]
  by_cases hx : z = x
  · subst x
    simp
  · rw [if_neg hx]
    constructor
    · rintro ⟨writers, hwriters, hy⟩
      obtain ⟨before, hbefore, rfl⟩ := Option.map_eq_some_iff.mp hwriters
      obtain ⟨hne, hy⟩ := Std.ExtTreeSet.mem_erase.mp hy
      exact ⟨⟨before, hbefore, hy⟩, Ne.symm hx, fun h => hne (Std.compare_eq_iff_eq.mpr h.symm)⟩
    · rintro ⟨⟨before, hbefore, hy⟩, -, hne⟩
      exact ⟨before.erase z, Option.map_eq_some_iff.mpr ⟨before, hbefore, rfl⟩,
        Std.ExtTreeSet.mem_erase.mpr ⟨fun h => hne (Std.LawfulEqCmp.eq_of_compare h).symm, hy⟩⟩

end TransactionManager
end JiaMiaoDB
