import Std.Data.DTreeMap.Internal.WF.Lemmas
import Std.Data.ExtTreeMap
import Std.Data.ExtTreeSet
import Mathlib.Data.List.Basic
import Mathlib.Tactic.Tauto

/-! Facts about ordered maps and their sorted entry lists. -/

set_option autoImplicit false

namespace OrderedMap
variable {κ ν : Type} {cmp : κ → κ → Ordering} [Std.TransCmp cmp]

abbrev Map (κ ν : Type) (cmp : κ → κ → Ordering) := Std.ExtTreeMap κ ν cmp

/-- Entries inserted one by one, in order. -/
theorem foldl_insert_eq_ofList (l : List (κ × ν)) :
    l.foldl (fun (m : Map κ ν cmp) p => m.insert p.1 p.2) ∅ = Std.ExtTreeMap.ofList l cmp := by
  rw [Std.ExtTreeMap.ofList_eq_foldl]

theorem lt_irrefl (a : κ) : ¬ cmp a a = .lt := by
  have h : cmp a a = .eq := Std.ReflCmp.compare_self
  rw [h]
  exact Ordering.noConfusion

theorem nodup_of_sorted {l : List (κ × ν)} (sorted : l.Pairwise fun a b => cmp a.1 b.1 = .lt) :
    l.Nodup := by
  refine List.Pairwise.imp (fun {a b} (h : cmp a.1 b.1 = .lt) (e : a = b) => ?_) sorted
  subst e
  exact lt_irrefl a.1 h

/-- Two lists sorted by key with the same entries are equal. -/
theorem eq_of_sorted {l l' : List (κ × ν)} (sorted : l.Pairwise fun a b => cmp a.1 b.1 = .lt)
    (sorted' : l'.Pairwise fun a b => cmp a.1 b.1 = .lt) (h : ∀ p, p ∈ l ↔ p ∈ l') : l = l' := by
  have hperm : l.Perm l' :=
    (List.perm_ext_iff_of_nodup (nodup_of_sorted sorted) (nodup_of_sorted sorted')).2 h
  refine hperm.eq_of_pairwise (fun a b _ _ hab hba => ?_) sorted sorted'
  exact absurd (Std.TransCmp.lt_trans hab hba) (lt_irrefl a.1)

/-- Building a map from entries with distinct keys, by any operation that inserts new keys. -/
theorem foldl_eq_ofList {f : Map κ ν cmp → κ × ν → Map κ ν cmp}
    (fresh : ∀ m p, p.1 ∉ m → f m p = m.insert p.1 p.2) {l : List (κ × ν)}
    (distinct : l.Pairwise fun a b => ¬ cmp a.1 b.1 = .eq) :
    l.foldl f ∅ = Std.ExtTreeMap.ofList l cmp := by
  rw [← foldl_insert_eq_ofList]
  suffices H : ∀ (l : List (κ × ν)) (m : Map κ ν cmp),
      (l.Pairwise fun a b => ¬ cmp a.1 b.1 = .eq) → (∀ p ∈ l, p.1 ∉ m) →
      l.foldl f m = l.foldl (fun (m : Map κ ν cmp) p => m.insert p.1 p.2) m from
    H l ∅ distinct (by simp)
  intro l
  induction l with
  | nil => intros; rfl
  | cons p l ih =>
    intro m hd hm
    obtain ⟨hp, hl⟩ := List.pairwise_cons.1 hd
    rw [List.foldl_cons, List.foldl_cons, fresh m p (hm p (by simp))]
    refine ih _ hl fun q hq => ?_
    rw [Std.ExtTreeMap.mem_insert, not_or]
    exact ⟨hp q hq, hm q (by simp [hq])⟩

open Std.DTreeMap.Internal in
theorem values_eq (m : Map κ ν cmp) : m.values = m.toList.map Prod.snd := by
  rcases m with ⟨m⟩
  induction m using Std.ExtDTreeMap.inductionOn with
  | mk m =>
    change m.inner.values = (Impl.Const.toList m.inner).map Prod.snd
    rw [Impl.values_eq_map_snd, Impl.Const.toList_eq_toListModel_map, List.map_map]
    rfl

variable [Std.LawfulEqCmp cmp]

theorem mem_values {m : Map κ ν cmp} {k : κ} {v : ν} (h : m[k]? = some v) : v ∈ m.values := by
  rw [values_eq, List.mem_map]
  exact ⟨(k, v), Std.ExtTreeMap.mem_toList_iff_getElem?_eq_some.2 h, rfl⟩

theorem forall_getElem?_iff {m : Map κ ν cmp} {p : κ → ν → Prop} :
    (∀ k v, m[k]? = some v → p k v) ↔ ∀ q ∈ m.toList, p q.1 q.2 :=
  ⟨fun h q hq => h q.1 q.2 (Std.ExtTreeMap.mem_toList_iff_getElem?_eq_some.1 hq),
    fun h k v hv => h (k, v) (Std.ExtTreeMap.mem_toList_iff_getElem?_eq_some.2 hv)⟩

theorem insert_insert (m : Map κ ν cmp) (k : κ) (v w : ν) :
    (m.insert k v).insert k w = m.insert k w := by
  refine Std.ExtTreeMap.ext_getElem? fun k' => ?_
  simp only [Std.ExtTreeMap.getElem?_insert]
  split <;> rfl

theorem insert_self {m : Map κ ν cmp} {k : κ} {v : ν} (h : m[k]? = some v) : m.insert k v = m := by
  refine Std.ExtTreeMap.ext_getElem? fun k' => ?_
  rw [Std.ExtTreeMap.getElem?_insert]
  split
  · rw [← Std.LawfulEqCmp.eq_of_compare (by assumption : cmp k k' = .eq), h]
  · rfl

theorem getElem?_ofList {l : List (κ × ν)}
    (distinct : l.Pairwise fun a b => ¬ cmp a.1 b.1 = .eq) {k : κ} {v : ν} :
    (Std.ExtTreeMap.ofList l cmp)[k]? = some v ↔ (k, v) ∈ l := by
  classical
  have hbeq : Std.LawfulBEqCmp cmp := ⟨fun {a b} => by simp⟩
  constructor
  · intro h
    by_cases hk : k ∈ l.map Prod.fst
    · obtain ⟨⟨k', v'⟩, hmem, rfl⟩ := List.mem_map.1 hk
      rw [Std.ExtTreeMap.getElem?_ofList_of_mem Std.ReflCmp.compare_self distinct hmem] at h
      cases h
      exact hmem
    · rw [Std.ExtTreeMap.getElem?_ofList_of_contains_eq_false (by simpa using hk)] at h
      cases h
  · exact fun h => Std.ExtTreeMap.getElem?_ofList_of_mem Std.ReflCmp.compare_self distinct h

@[simp] theorem ofList_toList (m : Map κ ν cmp) : Std.ExtTreeMap.ofList m.toList cmp = m := by
  refine Std.ExtTreeMap.ext_getElem? fun k => Option.ext fun v => ?_
  rw [getElem?_ofList Std.ExtTreeMap.distinct_keys_toList,
    Std.ExtTreeMap.mem_toList_iff_getElem?_eq_some]

/-- The same for the entry list of a map, which gives the map back. -/
theorem foldl_toList {f : Map κ ν cmp → κ × ν → Map κ ν cmp}
    (fresh : ∀ m p, p.1 ∉ m → f m p = m.insert p.1 p.2) (m : Map κ ν cmp) :
    m.toList.foldl f ∅ = m := by
  rw [foldl_eq_ofList fresh Std.ExtTreeMap.distinct_keys_toList, ofList_toList]

/-- An insertion among the sorted entries: what had the key goes, the others stay around it. -/
theorem toList_insert {m : Map κ ν cmp} {k : κ} {v : ν} {A M B : List (κ × ν)}
    (h : m.toList = A ++ M ++ B) (hA : ∀ p ∈ A, cmp p.1 k = .lt) (hM : ∀ p ∈ M, p.1 = k)
    (hB : ∀ p ∈ B, cmp k p.1 = .lt) : (m.insert k v).toList = A ++ (k, v) :: B := by
  have hm := Std.ExtTreeMap.ordered_keys_toList (t := m)
  rw [h, List.append_assoc, List.pairwise_append, List.pairwise_append] at hm
  obtain ⟨hsA, ⟨-, hsB, -⟩, hAB⟩ := hm
  have hsorted : (A ++ (k, v) :: B).Pairwise fun a b => cmp a.1 b.1 = .lt := by
    refine List.pairwise_append.mpr ⟨hsA, List.pairwise_cons.mpr ⟨hB, hsB⟩, fun a ha b hb => ?_⟩
    rcases List.mem_cons.mp hb with rfl | hb
    · exact hA a ha
    · exact hAB a ha b (List.mem_append_right M hb)
  refine eq_of_sorted Std.ExtTreeMap.ordered_keys_toList hsorted fun ⟨k', v'⟩ => ?_
  rw [Std.ExtTreeMap.mem_toList_iff_getElem?_eq_some, Std.ExtTreeMap.getElem?_insert]
  by_cases hk : cmp k k' = .eq
  · obtain rfl := Std.LawfulEqCmp.eq_of_compare hk
    rw [if_pos hk]
    constructor
    · intro hv
      obtain rfl := Option.some.inj hv
      simp
    · intro hmem
      rcases List.mem_append.mp hmem with hp | hp
      · exact absurd (hA _ hp) (lt_irrefl k)
      · rcases List.mem_cons.mp hp with hp | hp
        · rw [(Prod.mk.inj hp).2]
        · exact absurd (hB _ hp) (lt_irrefl k)
  · have hM' : (k', v') ∉ M := fun hp => by
      obtain rfl := hM _ hp
      exact hk Std.ReflCmp.compare_self
    have hne : (k', v') ≠ (k, v) := fun he => by
      rw [(Prod.mk.inj he).1] at hk
      exact hk Std.ReflCmp.compare_self
    rw [if_neg hk, ← Std.ExtTreeMap.mem_toList_iff_getElem?_eq_some, h]
    simp only [List.mem_append, List.mem_cons]
    tauto

/-- The keys are determined by which they are. -/
theorem keys_ext {ν' : Type} {m : Map κ ν cmp} {m' : Map κ ν' cmp} (h : ∀ k, k ∈ m ↔ k ∈ m') :
    m.keys = m'.keys := by
  have hperm : m.keys.Perm m'.keys :=
    (List.perm_ext_iff_of_nodup Std.ExtTreeMap.nodup_keys Std.ExtTreeMap.nodup_keys).2 fun k => by
      rw [Std.ExtTreeMap.mem_keys, Std.ExtTreeMap.mem_keys, h]
  refine hperm.eq_of_pairwise (fun a b _ _ hab hba => ?_) Std.ExtTreeMap.ordered_keys
    Std.ExtTreeMap.ordered_keys
  exact absurd (Std.TransCmp.lt_trans hab hba) (lt_irrefl a)

theorem filterMap_keys (m : Map κ ν cmp) : m.keys.filterMap (fun k => m[k]?) = m.values := by
  rw [values_eq, ← Std.ExtTreeMap.map_fst_toList_eq_keys, List.filterMap_map,
    ← List.filterMap_eq_map]
  refine List.filterMap_congr fun p hp => ?_
  exact Std.ExtTreeMap.mem_toList_iff_getElem?_eq_some.1 hp

/-- Inserting, for each key of a list, the value that the key has. -/
theorem getElem?_foldl_insert [DecidableEq κ] (g : κ → Option ν) (l : List κ) (m : Map κ ν cmp)
    (k : κ) :
    (l.foldl (fun (m : Map κ ν cmp) a => (g a).elim m (m.insert a)) m)[k]? =
      if k ∈ l then (g k <|> m[k]?) else m[k]? := by
  induction l generalizing m with
  | nil => simp
  | cons a l ih =>
    rw [List.foldl_cons, ih]
    by_cases hk : a = k
    · subst hk
      cases g a <;> simp
    · have hget : ((g a).elim m (m.insert a))[k]? = m[k]? := by
        cases g a with
        | none => rfl
        | some v => simp [Std.ExtTreeMap.getElem?_insert, hk]
      have hmem : k ∈ a :: l ↔ k ∈ l := by simp [Ne.symm hk]
      rw [hget]
      simp only [hmem]

/-- Of several entries under one key the last one stays. -/
theorem getElem?_foldl_entries [DecidableEq κ] (l : List (κ × ν))
    (m : Map κ ν cmp) (k : κ) : (l.foldl (fun (m : Map κ ν cmp) p => m.insert p.1 p.2) m)[k]? =
      ((l.findRev? (·.1 = k)).map Prod.snd).or m[k]? := by
  induction l generalizing m with
  | nil => rfl
  | cons p l ih =>
    rw [List.foldl_cons, ih, List.findRev?]
    cases l.findRev? (·.1 = k) with
    | some p' => rfl
    | none =>
      rw [Std.ExtTreeMap.getElem?_insert]
      by_cases hk : p.1 = k
      · simp [hk]
      · simp [hk]

/-- The entries change nothing when the map has, for each of their keys, the last of them. -/
theorem foldl_entries_eq_self_iff [DecidableEq κ] (l : List (κ × ν)) (m : Map κ ν cmp) :
    l.foldl (fun (m : Map κ ν cmp) p => m.insert p.1 p.2) m = m ↔
      ∀ k p, l.findRev? (·.1 = k) = some p → m[k]? = some p.2 := by
  constructor
  · intro h k p hp
    rw [← h, getElem?_foldl_entries, hp]
    rfl
  · intro h
    apply Std.ExtTreeMap.ext_getElem?
    intro k
    rw [getElem?_foldl_entries]
    cases hp : l.findRev? (·.1 = k) with
    | none => rfl
    | some p => exact (h k p hp).symm

theorem mem_toList_insert {m : Map κ ν cmp} {p q : κ × ν}
    (h : q ∈ (m.insert p.1 p.2).toList) : q ∈ m.toList ∨ q = p := by
  rw [Std.ExtTreeMap.mem_toList_iff_getElem?_eq_some, Std.ExtTreeMap.getElem?_insert] at h
  split at h
  · next hk =>
    exact .inr (Prod.ext (Std.LawfulEqCmp.eq_of_compare hk).symm (Option.some.inj h).symm)
  · exact .inl (Std.ExtTreeMap.mem_toList_iff_getElem?_eq_some.2 h)

theorem mem_toList_insertIfNew {m : Map κ ν cmp} {p q : κ × ν}
    (h : q ∈ (m.insertIfNew p.1 p.2).toList) : q ∈ m.toList ∨ q = p := by
  rw [Std.ExtTreeMap.mem_toList_iff_getElem?_eq_some, Std.ExtTreeMap.getElem?_insertIfNew] at h
  split at h
  · next hk =>
    exact .inr (Prod.ext (Std.LawfulEqCmp.eq_of_compare hk.1).symm (Option.some.inj h).symm)
  · exact .inl (Std.ExtTreeMap.mem_toList_iff_getElem?_eq_some.2 h)

/-- Entries put in one by one: nothing else comes in. -/
theorem mem_toList_foldl {f : Map κ ν cmp → κ × ν → Map κ ν cmp}
    (hf : ∀ m p q, q ∈ (f m p).toList → q ∈ m.toList ∨ q = p) {l : List (κ × ν)} {q : κ × ν}
    (h : q ∈ (l.foldl f ∅).toList) : q ∈ l := by
  suffices H : ∀ m : Map κ ν cmp, q ∈ (l.foldl f m).toList → q ∈ m.toList ∨ q ∈ l by
    refine (H ∅ h).resolve_left fun hempty => ?_
    rw [Std.ExtTreeMap.mem_toList_iff_getElem?_eq_some, Std.ExtTreeMap.getElem?_empty] at hempty
    cases hempty
  clear h
  induction l with
  | nil => exact fun m h => .inl h
  | cons p l ih =>
    intro m h
    rcases ih (f m p) h with h | h
    · rcases hf m p q h with h | rfl
      · exact .inl h
      · exact .inr List.mem_cons_self
    · exact .inr (List.mem_cons_of_mem p h)

theorem size_foldl_le {α : Type} {f : Map κ ν cmp → α → Map κ ν cmp}
    (hf : ∀ m a, (f m a).size ≤ m.size + 1) (l : List α) : (l.foldl f ∅).size ≤ l.length := by
  suffices H : ∀ m : Map κ ν cmp, (l.foldl f m).size ≤ m.size + l.length by
    have hle := H ∅
    rwa [Std.ExtTreeMap.size_empty, Nat.zero_add] at hle
  induction l with
  | nil => exact fun m => Nat.le_refl _
  | cons a l ih =>
    intro m
    have hstep := hf m a
    have hrest := ih (f m a)
    rw [List.foldl_cons, List.length_cons]
    omega

/-- Inserting the elements of a list into a set. -/
theorem mem_foldl_insert (s : Std.ExtTreeSet κ cmp) (l : List κ) (k : κ) :
    k ∈ l.foldl (fun (s : Std.ExtTreeSet κ cmp) a => s.insert a) s ↔ k ∈ s ∨ k ∈ l := by
  induction l generalizing s with
  | nil => simp
  | cons a l ih =>
    rw [List.foldl_cons, ih, Std.ExtTreeSet.mem_insert, List.mem_cons,
      Std.LawfulEqCmp.compare_eq_iff_eq]
    constructor
    · rintro ((rfl | h) | h)
      exacts [.inr (.inl rfl), .inl h, .inr (.inr h)]
    · rintro (h | rfl | h)
      exacts [.inl (.inr h), .inl (.inl rfl), .inr h]

/-- The elements of a set inserted into a subset give the set back. -/
theorem foldl_insert_toList {s t : Std.ExtTreeSet κ cmp} (h : ∀ k ∈ s, k ∈ t) :
    t.toList.foldl (fun (s : Std.ExtTreeSet κ cmp) a => s.insert a) s = t := by
  refine Std.ExtTreeSet.ext_mem fun k => ?_
  rw [mem_foldl_insert, Std.ExtTreeSet.mem_toList]
  exact ⟨fun hk => hk.elim (h k) id, .inr⟩

end OrderedMap
