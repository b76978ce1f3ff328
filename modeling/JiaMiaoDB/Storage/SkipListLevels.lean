import JiaMiaoDB.Lib.OrderedMap
import JiaMiaoDB.Storage.SkipList
import Mathlib.Data.List.Perm.Subperm

/-!
# The levels of the skip list

Each level is a list that ends, its keys increase, and the list above is a part of it. Relinking
behind a predecessor changes one level only, so a call is followed level by level.
-/

set_option autoImplicit false

namespace JiaMiaoDB.SkipList

variable {K V : Type} [Inhabited K] [Inhabited V]
variable {s s' : SkipList K V} {lists : Nat → List Ptr} {p : Ptr} {q : Option Ptr} {i : Nat}

/-! ### Fields of the nodes -/

theorem node_modifyNode (f : Node K V → Node K V) (hp : p < s.nodes.length) (x : Ptr) :
    (s.modifyNode p f).node x = if x = p then f (s.node p) else s.node x := by
  simp only [node, modifyNode, List.getD_eq_getElem?_getD, List.getElem?_modify]
  by_cases hx : x = p
  · subst hx
    simp [List.getElem?_eq_getElem hp]
  · have hne : ¬ p = x := fun h => hx h.symm
    simp [hx, hne]

/-- The two stores have the same nodes but for the links. -/
structure SameNodes (s s' : SkipList K V) : Prop where
  length : s'.nodes.length = s.nodes.length
  key : ∀ p, s'.key p = s.key p
  value : ∀ p, s'.value p = s.value p
  links : ∀ p, (s'.node p).next.length = (s.node p).next.length
  level : s'.level = s.level
  size : s'.size = s.size

theorem SameNodes.refl (s : SkipList K V) : SameNodes s s :=
  ⟨rfl, fun _ => rfl, fun _ => rfl, fun _ => rfl, rfl, rfl⟩

theorem SameNodes.trans {s'' : SkipList K V} (h : SameNodes s s') (h' : SameNodes s' s'') :
    SameNodes s s'' where
  length := h'.length.trans h.length
  key p := (h'.key p).trans (h.key p)
  value p := (h'.value p).trans (h.value p)
  links p := (h'.links p).trans (h.links p)
  level := h'.level.trans h.level
  size := h'.size.trans h.size

theorem sameNodes_setNext (hp : p < s.nodes.length) : SameNodes s (s.setNext p i q) where
  length := by simp [setNext, modifyNode]
  key x := by
    rw [SkipList.key, setNext, node_modifyNode _ hp]
    split
    · subst x
      rfl
    · rfl
  value x := by
    rw [SkipList.value, setNext, node_modifyNode _ hp]
    split
    · subst x
      rfl
    · rfl
  links x := by
    rw [setNext, node_modifyNode _ hp]
    split
    · subst x
      exact List.length_set
    · rfl
  level := rfl
  size := rfl

theorem nextAt_setNext (hp : p < s.nodes.length) (hi : i < (s.node p).next.length) (j : Nat)
    (x : Ptr) :
    (s.setNext p i q).nextAt j x = if x = p ∧ j = i then q else s.nextAt j x := by
  rw [nextAt, setNext, node_modifyNode _ hp]
  by_cases hx : x = p
  · subst hx
    by_cases hj : j = i
    · subst hj
      simp [List.getElem?_set_self hi]
    · have hne : ¬ i = j := fun h => hj h.symm
      simp [hj, hne, nextAt]
  · simp [hx, nextAt]

/-! ### Lists of links -/

/-- The level is the list `lists i`, and its nodes have a link on this level. -/
structure Links (s : SkipList K V) (lists : Nat → List Ptr) : Prop where
  chain : ∀ i ≤ kMaxLevel, Chain (s.nextAt i) (s.nextAt i header) (lists i) none
  node : ∀ i, ∀ p ∈ lists i, p ≠ header ∧ p < s.nodes.length ∧ i < (s.node p).next.length
  head : header < s.nodes.length ∧ (s.node header).next.length = kMaxLevel + 1

/-- The last of the nodes, or the header. -/
def lastOf (T : List Ptr) : Ptr := T.getLast?.getD header

theorem lastOf_mem (T : List Ptr) : lastOf T ∈ header :: T := by
  rw [lastOf]
  rcases T.eq_nil_or_concat' with rfl | ⟨T, t, rfl⟩
  · exact List.mem_cons_self
  · simp

section Links
variable {T M X : List Ptr}

theorem Links.nodup (h : Links s lists) (hi : i ≤ kMaxLevel) : (header :: lists i).Nodup :=
  List.nodup_cons.mpr ⟨fun hmem => (h.node i header hmem).1 rfl, (h.chain i hi).nodup⟩

/-- The header and the nodes of a level have a link to write to. -/
theorem Links.room (h : Links s lists) (hi : i ≤ kMaxLevel) (hp : p ∈ header :: lists i) :
    p < s.nodes.length ∧ i < (s.node p).next.length := by
  rcases List.mem_cons.mp hp with rfl | hp
  · exact ⟨h.head.1, by rw [h.head.2]; omega⟩
  · exact (h.node i p hp).2

/-- The level goes on from the header as from any of its nodes. -/
theorem Links.chain_from (h : Links s lists) (hi : i ≤ kMaxLevel)
    (hsplit : header :: lists i = T ++ p :: X) : Chain (s.nextAt i) (s.nextAt i p) X none := by
  have hall : Chain (s.nextAt i) (some header) (header :: lists i) none := ⟨rfl, h.chain i hi⟩
  rw [hsplit] at hall
  obtain ⟨r, -, hr⟩ := Chain.append_iff.mp hall
  exact hr.2

/-- Behind the last node of a first part of a level, another list is linked in. -/
theorem Links.relink (h : Links s lists) (hi : i ≤ kMaxLevel) (hsplit : lists i = T ++ M)
    (hX : Chain (s.nextAt i) q X none)
    (hnew : ∀ x ∈ X, x ∉ T ∧ x ≠ header ∧ x < s.nodes.length ∧ i < (s.node x).next.length) :
    Links (s.setNext (lastOf T) i q) (Function.update lists i (T ++ X)) := by
  have hmem : lastOf T ∈ header :: lists i := by
    rw [hsplit]
    exact List.mem_append_left M (lastOf_mem T)
  obtain ⟨hroom, hlink⟩ := h.room hi hmem
  have hsame : SameNodes s (s.setNext (lastOf T) i q) := sameNodes_setNext hroom
  have hnext := nextAt_setNext (q := q) hroom hlink
  have hnodup := h.nodup hi
  rw [hsplit] at hnodup
  refine ⟨fun j hj => ?_, fun j x hx => ?_, ?_⟩
  · by_cases hji : j = i
    · subst hji
      rw [Function.update_self]
      have htail : Chain ((s.setNext (lastOf T) j q).nextAt j) q X none := by
        refine hX.congr fun x hx => ?_
        have hne : x ≠ lastOf T := by
          rintro rfl
          rcases List.mem_cons.mp (lastOf_mem T) with he | he
          · exact (hnew _ hx).2.1 he
          · exact (hnew _ hx).1 he
        rw [hnext, if_neg fun hc => hne hc.1]
      have hstart := h.chain j hj
      rw [hsplit] at hstart
      rcases T.eq_nil_or_concat' with rfl | ⟨T, t, rfl⟩
      · rw [List.nil_append, hnext, if_pos ⟨rfl, rfl⟩]
        exact htail
      · have hlast : lastOf (T ++ [t]) = t := by simp [lastOf]
        rw [hlast] at hnext htail
        have hother : ∀ x ∈ header :: T, (s.setNext t j q).nextAt j x = s.nextAt j x := by
          intro x hx
          rw [hnext, if_neg]
          rintro ⟨rfl, -⟩
          rw [List.append_assoc, ← List.cons_append, List.nodup_append] at hnodup
          exact hnodup.2.2 x hx x (by simp) rfl
        rw [hlast, hother header List.mem_cons_self]
        rw [List.append_assoc] at hstart
        obtain ⟨r, hT, ht⟩ := Chain.append_iff.mp hstart
        rw [List.append_assoc]
        refine Chain.append (hT.congr fun x hx => hother x (List.mem_cons_of_mem header hx)) ?_
        refine ⟨ht.1, ?_⟩
        rw [hnext, if_pos ⟨rfl, rfl⟩]
        exact htail
    · rw [Function.update_of_ne hji]
      have hother (x : Ptr) : (s.setNext (lastOf T) i q).nextAt j x = s.nextAt j x := by
        rw [hnext, if_neg fun hc => hji hc.2]
      rw [hother]
      exact (h.chain j hj).congr fun x _ => hother x
  · rw [hsame.length, hsame.links]
    by_cases hji : j = i
    · subst hji
      rw [Function.update_self] at hx
      rcases List.mem_append.mp hx with hx | hx
      · exact h.node j x (by rw [hsplit]; exact List.mem_append_left M hx)
      · exact (hnew x hx).2
    · rw [Function.update_of_ne hji] at hx
      exact h.node j x hx
  · rw [hsame.length, hsame.links]
    exact h.head

/-- The links of a node that is not on the level do not matter. -/
theorem Links.setNext_of_not_mem (h : Links s lists) (hp : p < s.nodes.length)
    (hlink : i < (s.node p).next.length) (hne : p ≠ header) (hout : p ∉ lists i) :
    Links (s.setNext p i q) lists := by
  have hsame : SameNodes s (s.setNext p i q) := sameNodes_setNext hp
  have hnext := nextAt_setNext (q := q) hp hlink
  refine ⟨fun j hj => ?_, fun j x hx => ?_, ?_⟩
  · have hother : ∀ x ∈ header :: lists j, (s.setNext p i q).nextAt j x = s.nextAt j x := by
      intro x hx
      rw [hnext, if_neg]
      rintro ⟨rfl, rfl⟩
      rcases List.mem_cons.mp hx with rfl | hx
      · exact hne rfl
      · exact hout hx
    rw [hother header List.mem_cons_self]
    exact (h.chain j hj).congr fun x hx => hother x (List.mem_cons_of_mem header hx)
  · rw [hsame.length, hsame.links]
    exact h.node j x hx
  · rw [hsame.length, hsame.links]
    exact h.head

end Links

/-! ### Searching -/

theorem exists_lastOf (T : List Ptr) : ∃ A, header :: T = A ++ [lastOf T] := by
  rcases T.eq_nil_or_concat' with rfl | ⟨T, t, rfl⟩
  · exact ⟨[], rfl⟩
  · exact ⟨header :: T, by simp [lastOf]⟩

section Pass
variable {rest : List Ptr}

/-- A loop on a level passes the places up to the first one that fails its test. -/
theorem Links.pass_eq (h : Links s lists) {c : K → Bool} (hrest : Chain (s.nextAt i) q rest none)
    (hsub : rest ⊆ lists i) : s.pass i c q =
      (rest.takeWhile fun p => c (s.key p), (rest.dropWhile fun p => c (s.key p)).head?) := by
  refine walk_eq hrest ?_
  have hrange : rest ⊆ List.range s.nodes.length := fun p hp =>
    List.mem_range.mpr (h.node i p (hsub hp)).2.1
  have hlength := (List.subperm_of_subset hrest.nodup hrange).length_le
  rwa [List.length_range] at hlength

end Pass

/-! ### One level after another -/

/-- A loop over the levels that relinks each level by itself. -/
theorem Links.foldl_range (h : Links s lists) {f : SkipList K V → Nat → SkipList K V}
    {lists' : Nat → List Ptr} {n : Nat} (hn : n ≤ kMaxLevel + 1)
    (hstep : ∀ s₁ i l, i < n → SameNodes s s₁ → Links s₁ l → l i = lists i →
      SameNodes s₁ (f s₁ i) ∧ Links (f s₁ i) (Function.update l i (lists' i))) :
    SameNodes s ((List.range n).foldl f s) ∧
      Links ((List.range n).foldl f s) fun i => if i < n then lists' i else lists i := by
  induction n with
  | zero => exact ⟨SameNodes.refl s, h⟩
  | succ n ih =>
    obtain ⟨hsame, hlinks⟩ := ih (by omega) fun s₁ i l hi => hstep s₁ i l (by omega)
    obtain ⟨hsame', hlinks'⟩ := hstep _ n _ (by omega) hsame hlinks (if_neg (by omega))
    rw [List.range_succ, List.foldl_append]
    have hlists : (fun i => if i < n + 1 then lists' i else lists i) =
        Function.update (fun i => if i < n then lists' i else lists i) n (lists' n) := by
      funext i
      by_cases hi : i = n
      · subst hi
        simp
      · rw [Function.update_of_ne hi]
        have hiff : i < n + 1 ↔ i < n := by omega
        simp only [hiff]
    rw [hlists]
    exact ⟨hsame.trans hsame', hlinks'⟩

section Level
variable {T D M : List Ptr} {new : Ptr}

/-- Where the level goes on behind its first part. -/
theorem Links.chain_behind (h : Links s lists) (hi : i ≤ kMaxLevel) (hsplit : lists i = T ++ D) :
    Chain (s.nextAt i) (s.nextAt i (lastOf T)) D none := by
  obtain ⟨A, hA⟩ := exists_lastOf T
  apply h.chain_from hi
  rw [hsplit, ← List.cons_append, hA, List.append_assoc]
  rfl

theorem Links.splice (h : Links s lists) (hi : i ≤ kMaxLevel) (hsplit : lists i = T ++ D)
    (hnew : new < s.nodes.length) (hlink : i < (s.node new).next.length) (hne : new ≠ header)
    (hout : new ∉ lists i) : SameNodes s (s.splice (lastOf T) new i) ∧
      Links (s.splice (lastOf T) new i) (Function.update lists i (T ++ new :: D)) := by
  have hchain := h.chain_behind hi hsplit
  generalize hq : s.nextAt i (lastOf T) = q at hchain
  have hsame : SameNodes s (s.setNext new i q) := sameNodes_setNext hnew
  have hnext := nextAt_setNext (q := q) hnew hlink
  have h₁ := h.setNext_of_not_mem (q := q) hnew hlink hne hout
  have hlast : lastOf T < (s.setNext new i q).nodes.length :=
    (h₁.room hi (by rw [hsplit]; exact List.mem_append_left D (lastOf_mem T))).1
  have hX : Chain ((s.setNext new i q).nextAt i) (some new) (new :: D) none := by
    refine ⟨rfl, ?_⟩
    rw [hnext, if_pos ⟨rfl, rfl⟩]
    refine hchain.congr fun x hx => ?_
    rw [hnext, if_neg]
    rintro ⟨rfl, -⟩
    exact hout (by rw [hsplit]; exact List.mem_append_right T hx)
  have hsplice : s.splice (lastOf T) new i =
      (s.setNext new i q).setNext (lastOf T) i (some new) := by
    rw [SkipList.splice, hq]
  rw [hsplice]
  refine ⟨hsame.trans (sameNodes_setNext hlast), h₁.relink hi hsplit hX fun x hx => ?_⟩
  rcases List.mem_cons.mp hx with rfl | hx
  · refine ⟨fun hT => hout (by rw [hsplit]; exact List.mem_append_left D hT), hne, ?_⟩
    rw [hsame.length, hsame.links]
    exact ⟨hnew, hlink⟩
  · have hnodup := (List.nodup_cons.mp (h.nodup hi)).2
    have hnode := h₁.node i x (by rw [hsplit]; exact List.mem_append_right T hx)
    rw [hsplit] at hnodup
    exact ⟨fun hT => (List.nodup_append.mp hnodup).2.2 x hT x hx rfl, hnode⟩

/-- A node that is not linked in changes no level. -/
theorem Links.append_node (h : Links s lists) (n : Node K V) (level : Nat) :
    Links { s with nodes := s.nodes ++ [n], level := level } lists := by
  have hold (p : Ptr) (hp : p < s.nodes.length) :
      SkipList.node { s with nodes := s.nodes ++ [n], level := level } p = s.node p := by
    simp [SkipList.node, List.getD_eq_getElem?_getD, List.getElem?_append_left hp]
  have hnext (i : Nat) (p : Ptr) (hp : p < s.nodes.length) :
      SkipList.nextAt { s with nodes := s.nodes ++ [n], level := level } i p = s.nextAt i p := by
    rw [SkipList.nextAt, hold p hp, SkipList.nextAt]
  have hlen : (s.nodes ++ [n]).length = s.nodes.length + 1 := by simp
  refine ⟨fun i hi => ?_, fun i p hp => ?_, ?_⟩
  · rw [hnext i header h.head.1]
    exact (h.chain i hi).congr fun x hx => hnext i x (h.node i x hx).2.1
  · obtain ⟨hne, hlt, hlink⟩ := h.node i p hp
    exact ⟨hne, (Nat.lt_succ_of_lt hlt).trans_eq hlen.symm, by rw [hold p hlt]; exact hlink⟩
  · exact ⟨(Nat.lt_succ_of_lt h.head.1).trans_eq hlen.symm,
      by rw [hold header h.head.1]; exact h.head.2⟩

end Level

variable [Ord K] [Std.TransOrd K]

/-- The keys of the nodes increase. -/
def Sorted (s : SkipList K V) (ps : List Ptr) : Prop :=
  ps.Pairwise fun p q => compare (s.key p) (s.key q) = .lt

omit [Inhabited K] in
theorem below_of_lt {key a b : K} (hab : compare a b = .lt) (h : below key b = true) :
    below key a = true := by
  rw [below, Ordering.isLT_iff_eq_lt] at h ⊢
  exact Std.TransCmp.lt_trans hab h

omit [Inhabited K] in
theorem notAbove_of_lt {hi a b : K} (hab : compare a b = .lt) (h : notAbove hi b = true) :
    notAbove hi a = true := by
  rw [notAbove, Bool.not_eq_true', Bool.eq_false_iff, ne_eq, Ordering.isLT_iff_eq_lt] at h ⊢
  exact fun ha => h (Std.TransCmp.lt_trans ha hab)

/-- The nodes with a key below `key`, and the others. -/
def front (s : SkipList K V) (key : K) (ps : List Ptr) : List Ptr :=
  ps.filter fun p => below key (s.key p)

def back (s : SkipList K V) (key : K) (ps : List Ptr) : List Ptr :=
  ps.filter fun p => !below key (s.key p)

section Search
variable {key : K} {cur : Ptr} {ps : List Ptr}

theorem Sorted.takeWhile_below (h : Sorted s ps) (key : K) :
    (ps.takeWhile fun p => below key (s.key p)) = s.front key ps :=
  takeWhile_of_sorted h fun _ _ => below_of_lt

theorem Sorted.dropWhile_below (h : Sorted s ps) (key : K) :
    (ps.dropWhile fun p => below key (s.key p)) = s.back key ps :=
  dropWhile_of_sorted h fun _ _ => below_of_lt

theorem Sorted.front_append_back (h : Sorted s ps) (key : K) :
    s.front key ps ++ s.back key ps = ps := by
  rw [← h.takeWhile_below, ← h.dropWhile_below, List.takeWhile_append_dropWhile]

/-- From the header or from any node below `key`, the level leads to the last such node. -/
theorem Links.advance_eq (h : Links s lists) (hi : i ≤ kMaxLevel) (hs : Sorted s (lists i))
    (hcur : cur = header ∨ cur ∈ lists i ∧ below key (s.key cur) = true) :
    s.advance key i cur = lastOf (s.front key (lists i)) := by
  have hmem : cur ∈ header :: lists i := by
    rcases hcur with rfl | hcur
    · exact List.mem_cons_self
    · exact List.mem_cons_of_mem header hcur.1
  obtain ⟨A, rest, hsplit⟩ := List.append_of_mem hmem
  have hchain := h.chain_from hi hsplit
  rcases A with _ | ⟨a, A⟩
  · obtain ⟨rfl, hrest⟩ := List.cons.inj hsplit
    rw [advance, h.pass_eq hchain (by rw [hrest]; exact List.Subset.refl rest), ← hrest,
      hs.takeWhile_below]
    rfl
  · have hrest : lists i = A ++ cur :: rest := (List.cons.inj hsplit).2
    have hsub : rest.Sublist (lists i) := by
      rw [hrest]
      exact (List.sublist_cons_self cur rest).trans (List.sublist_append_right A _)
    have hbelow : below key (s.key cur) = true := by
      rcases hcur with rfl | hcur
      · have hnodup := h.nodup hi
        rw [hrest] at hnodup
        exact absurd (by simp) (List.nodup_cons.mp hnodup).1
      · exact hcur.2
    have hfront : s.front key (lists i) = s.front key A ++ cur :: s.front key rest := by
      have hhead : s.front key (cur :: rest) = cur :: s.front key rest :=
        List.filter_cons_of_pos hbelow
      rw [hrest, ← hhead]
      exact List.filter_append A (cur :: rest)
    rw [advance, h.pass_eq hchain hsub.subset, Sorted.takeWhile_below (hs.sublist hsub), hfront,
      lastOf]
    simp [List.getLast?_append, List.getLast?_cons]

omit [Std.TransOrd K] in
/-- The last node of the front, if any, is on the level and below `key`. -/
theorem lastOf_front (s : SkipList K V) (key : K) (ps : List Ptr) :
    lastOf (s.front key ps) = header ∨
      lastOf (s.front key ps) ∈ ps ∧ below key (s.key (lastOf (s.front key ps))) = true := by
  rcases List.mem_cons.mp (lastOf_mem (s.front key ps)) with h | h
  · exact .inl h
  · exact .inr (List.mem_filter.mp h)

theorem Links.descend_eq (h : Links s lists) (hs : ∀ i, Sorted s (lists i))
    (hsub : ∀ i, (lists (i + 1)).Sublist (lists i)) {n : Nat} (hn : n ≤ kMaxLevel + 1)
    (hcur : cur = header ∨ cur ∈ lists n ∧ below key (s.key cur) = true) :
    s.descend key n cur = (List.range n).map fun i => lastOf (s.front key (lists i)) := by
  induction n generalizing cur with
  | zero => rfl
  | succ n ih =>
    have hcur : cur = header ∨ cur ∈ lists n ∧ below key (s.key cur) = true :=
      hcur.imp id fun hc => ⟨(hsub n).subset hc.1, hc.2⟩
    rw [descend, h.advance_eq (by omega) (hs n) hcur, List.range_succ, List.map_append]
    exact congrArg (· ++ _) (ih (by omega) (lastOf_front s key (lists n)))

end Search

section Bypass
variable {T D : List Ptr} {hi : K}

/-- Behind its first part, the level is left without the keys up to `hi`. -/
theorem Links.bypass (h : Links s lists) (hle : i ≤ kMaxLevel) (hs : Sorted s (lists i))
    (hsplit : lists i = T ++ D) : SameNodes s (s.bypass hi (lastOf T) i) ∧
      Links (s.bypass hi (lastOf T) i)
        (Function.update lists i (T ++ D.filter fun p => !notAbove hi (s.key p))) := by
  have hD : D.Sublist (lists i) := by
    rw [hsplit]
    exact List.sublist_append_right T D
  have hchain := h.chain_behind hle hsplit
  have hpass := h.pass_eq (c := notAbove hi) hchain hD.subset
  have hdrop : (D.dropWhile fun p => notAbove hi (s.key p)) =
      D.filter fun p => !notAbove hi (s.key p) :=
    dropWhile_of_sorted (hs.sublist hD) fun _ _ => notAbove_of_lt
  rw [hdrop] at hpass
  -- The chain from the first node above `hi`.
  rw [← List.takeWhile_append_dropWhile (p := fun p => notAbove hi (s.key p)) (l := D), hdrop]
    at hchain
  obtain ⟨r, -, hr⟩ := Chain.append_iff.mp hchain
  have hstart : (D.filter fun p => !notAbove hi (s.key p)).head? = r := by
    rw [hr.start]
    cases (D.filter fun p => !notAbove hi (s.key p)).head? <;> rfl
  have hroom := h.room hle (p := lastOf T)
    (by rw [hsplit]; exact List.mem_append_left D (lastOf_mem T))
  rw [SkipList.bypass, hpass, hstart]
  refine ⟨sameNodes_setNext hroom.1, h.relink hle hsplit hr fun x hx => ?_⟩
  have hxD := (List.mem_filter.mp hx).1
  have hnodup := (List.nodup_cons.mp (h.nodup hle)).2
  rw [hsplit] at hnodup
  exact ⟨fun hT => (List.nodup_append.mp hnodup).2.2 x hT x hxD rfl, h.node i x (hD.subset hxD)⟩

end Bypass

/-! ### The invariant -/

/-- The lists end, their keys increase, and each is a part of the one below. -/
structure Levels (s : SkipList K V) (lists : Nat → List Ptr) : Prop extends Links s lists where
  sorted : Sorted s (lists 0)
  sub : ∀ i, (lists (i + 1)).Sublist (lists i)
  high : ∀ i, s.level < i → lists i = []
  level : s.level < kMaxLevel
  size : s.size = (lists 0).length

namespace Levels
variable {key : K}

omit [Std.TransOrd K] in
theorem sublist (h : Levels s lists) (i : Nat) : (lists i).Sublist (lists 0) := by
  induction i with
  | zero => exact List.Sublist.refl _
  | succ i ih => exact (h.sub i).trans ih

omit [Std.TransOrd K] in
theorem sorted_level (h : Levels s lists) (i : Nat) : Sorted s (lists i) :=
  h.sorted.sublist (h.sublist i)

/-- `update[i]` on every level, also above those in use. -/
theorem getD_predecessors (h : Levels s lists) (key : K) (n i : Nat) :
    (s.predecessors key ++ List.replicate n header).getD i header =
      lastOf (s.front key (lists i)) := by
  rw [predecessors, h.descend_eq h.sorted_level h.sub (by have := h.level; omega) (.inl rfl)]
  rw [List.getD_eq_getElem?_getD]
  by_cases hi : i ≤ s.level
  · rw [List.getElem?_append_left (by simp; omega)]
    simp [Nat.lt_succ_of_le hi]
  · rw [List.getElem?_append_right (by simp; omega), List.getElem?_replicate, h.high i (by omega)]
    split <;> rfl

end Levels

end JiaMiaoDB.SkipList
