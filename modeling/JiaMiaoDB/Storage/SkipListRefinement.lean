import JiaMiaoDB.Storage.SkipListLevels

/-!
# The skip list as a sorted map

The entries on level 0 are those of the map: a put inserts or replaces one of them, a range deletion
filters them, whatever heights are drawn.
-/

set_option autoImplicit false

namespace JiaMiaoDB.SkipList

variable {K V : Type} [Inhabited K] [Inhabited V]
variable {s s' : SkipList K V} {lists : Nat → List Ptr}

def entries (s : SkipList K V) (ps : List Ptr) : List (K × V) :=
  ps.map fun p => (s.key p, s.value p)

@[simp] theorem entries_append (s : SkipList K V) (ps qs : List Ptr) :
    s.entries (ps ++ qs) = s.entries ps ++ s.entries qs := List.map_append

@[simp] theorem entries_cons (s : SkipList K V) (p : Ptr) (ps : List Ptr) :
    s.entries (p :: ps) = (s.key p, s.value p) :: s.entries ps := rfl

theorem entries_congr {ps : List Ptr} (hkey : ∀ p ∈ ps, s'.key p = s.key p)
    (hvalue : ∀ p ∈ ps, s'.value p = s.value p) : s'.entries ps = s.entries ps :=
  List.map_congr_left fun p hp => by rw [hkey p hp, hvalue p hp]

theorem map_snd_entries (s : SkipList K V) (ps : List Ptr) :
    (s.entries ps).map Prod.snd = ps.map s.value := by
  rw [entries, List.map_map]
  rfl

variable [Ord K]

/-- The closed interval of keys. -/
def between (lo hi k : K) : Bool := (compare lo k).isLE && (compare k hi).isLE

theorem front_below {ps : List Ptr} {key : K} {p : Ptr} (hp : p ∈ s.front key ps) :
    compare (s.key p) key = .lt :=
  Ordering.isLT_iff_eq_lt.mp (List.mem_filter.mp hp).2

theorem back_subset (s : SkipList K V) (key : K) (ps : List Ptr) : s.back key ps ⊆ ps :=
  List.filter_subset_self _

variable [Std.TransOrd K]

/-- The levels are in order, and level 0 holds the entries of the map. -/
structure Represents (s : SkipList K V) (lists : Nat → List Ptr)
    (m : Std.ExtTreeMap K V compare) : Prop extends Levels s lists where
  toList : m.toList = s.entries (lists 0)

omit [Inhabited K] in
theorem not_below (lo k : K) : (!below lo k) = (compare lo k).isLE := by
  rw [below, @Std.OrientedCmp.eq_swap _ compare _ k]
  cases compare lo k <;> rfl

omit [Inhabited K] in
theorem notAbove_eq (hi k : K) : notAbove hi k = (compare k hi).isLE := by
  rw [notAbove, @Std.OrientedCmp.eq_swap _ compare _ hi]
  cases compare k hi <;> rfl

omit [Inhabited K] in
theorem between_eq (lo hi k : K) : between lo hi k = (!below lo k && notAbove hi k) := by
  rw [between, not_below, notAbove_eq]

/-- Unless the first key of the rest is the key searched for, the keys of the rest are above it. -/
theorem Sorted.back_above {ps : List Ptr} {key : K} (h : Sorted s ps)
    (hhead : ∀ p ∈ (s.back key ps).head?, compare (s.key p) key ≠ .eq) :
    ∀ p ∈ s.back key ps, compare key (s.key p) = .lt := by
  have hsorted : Sorted s (s.back key ps) := h.sublist List.filter_sublist
  have hback : ∀ p ∈ s.back key ps, (compare key (s.key p)).isLE = true := fun p hp => by
    rw [← not_below]
    exact (List.mem_filter.mp hp).2
  intro p hp
  cases hb : s.back key ps with
  | nil =>
    rw [hb] at hp
    cases hp
  | cons q rest =>
    rw [hb] at hp hhead hsorted hback
    have hq : compare key (s.key q) = .lt := by
      have hle := hback q List.mem_cons_self
      have hne := hhead q rfl
      rw [@Std.OrientedCmp.eq_swap _ compare] at hne
      cases hc : compare key (s.key q) with
      | lt => rfl
      | eq => simp [hc] at hne
      | gt => simp [hc] at hle
    rcases List.mem_cons.mp hp with rfl | hp
    · exact hq
    · exact Std.TransCmp.lt_trans hq (List.rel_of_pairwise_cons hsorted hp)

/-! ### The loops on level 0 -/

namespace Levels
variable {key : K}

theorem chain_back (h : Levels s lists) (key : K) :
    Chain (s.nextAt 0) (s.back key (lists 0)).head? (s.back key (lists 0)) none := by
  have hchain := h.chain_behind (Nat.zero_le _) (h.sorted.front_append_back key).symm
  have hstart := hchain.start
  rw [Option.or_none] at hstart
  rwa [hstart] at hchain

/-- The node that a writer finds behind its predecessor. -/
theorem found_eq (h : Levels s lists) (key : K) :
    s.nextAt 0 ((s.predecessors key).getD 0 header) = (s.back key (lists 0)).head? := by
  have hpred := h.getD_predecessors key 0 0
  rw [List.replicate_zero, List.append_nil] at hpred
  have hchain := h.chain_behind (Nat.zero_le _) (h.sorted.front_append_back key).symm
  rw [hpred, hchain.start, Option.or_none]

/-- The node that a reader finds from the header. -/
theorem pass_below (h : Levels s lists) (key : K) :
    (s.pass 0 (below key) (s.nextAt 0 header)).2 = (s.back key (lists 0)).head? := by
  rw [h.pass_eq (h.chain 0 (Nat.zero_le _)) (List.Subset.refl _), h.sorted.dropWhile_below]

/-- From there on, the nodes of the interval. -/
theorem pass_notAbove (h : Levels s lists) (lo hi : K) :
    (s.pass 0 (notAbove hi) (s.back lo (lists 0)).head?).1 =
      (lists 0).filter fun p => between lo hi (s.key p) := by
  have hsorted : Sorted s (s.back lo (lists 0)) := h.sorted.sublist List.filter_sublist
  rw [h.pass_eq (h.chain_back lo) (s.back_subset lo _)]
  simp only
  rw [takeWhile_of_sorted hsorted fun _ _ => notAbove_of_lt, back, List.filter_filter]
  simp only [between_eq, Bool.and_comm]

end Levels

/-! ### Writing -/

/-- The old nodes keep their entries, and one is added at the end of the store. -/
structure AddsNode (s s' : SkipList K V) (key : K) (value : V) : Prop where
  keyOld : ∀ p < s.nodes.length, s'.key p = s.key p
  valueOld : ∀ p < s.nodes.length, s'.value p = s.value p
  keyNew : s'.key s.nodes.length = key
  valueNew : s'.value s.nodes.length = value

section Insert
variable {key : K} {value : V} {newLevel : Nat}

/-- The lists after a node went between the keys below `key` and the others. -/
def inserted (s : SkipList K V) (lists : Nat → List Ptr) (key : K) (newLevel i : Nat) : List Ptr :=
  if i < newLevel + 1 then s.front key (lists i) ++ s.nodes.length :: s.back key (lists i)
  else lists i

theorem Levels.links_insertNode (h : Levels s lists) (hlevel : newLevel < kMaxLevel)
    (hs' : s.insertNode (s.predecessors key) key value newLevel = s') :
    Links s' (s.inserted lists key newLevel) ∧ AddsNode s s' key value ∧
      s'.level = max s.level newLevel ∧ s'.size = s.size + 1 := by
  set n : Node K V := ⟨key, value, newLevel, List.replicate (newLevel + 1) none⟩ with hn
  set s₁ : SkipList K V := { s with nodes := s.nodes ++ [n], level := max s.level newLevel } with hs₁
  have h₁ : Links s₁ lists := h.append_node n (max s.level newLevel)
  have hnode : s₁.node s.nodes.length = n := by
    simp [hs₁, SkipList.node, List.getD_eq_getElem?_getD]
  have hold (p : Ptr) (hp : p < s.nodes.length) : s₁.node p = s.node p := by
    simp [hs₁, SkipList.node, List.getD_eq_getElem?_getD, List.getElem?_append_left hp]
  have hlength : s₁.nodes.length = s.nodes.length + 1 := by simp [hs₁]
  obtain ⟨hsame, hlinks⟩ := @Links.foldl_range _ _ _ _ s₁ lists h₁
    (fun s' i => s'.splice
      ((s.predecessors key ++ List.replicate (newLevel - s.level) header).getD i header)
      s.nodes.length i)
    (fun i => s.front key (lists i) ++ s.nodes.length :: s.back key (lists i)) (newLevel + 1)
    (by omega) fun s₂ i l hi hsame hlinks hl => by
      have hsplit : l i = s.front key (lists i) ++ s.back key (lists i) := by
        rw [hl, (h.sorted_level i).front_append_back]
      rw [h.getD_predecessors]
      refine hlinks.splice (by omega) hsplit ?_ ?_ (Nat.ne_of_gt h.head.1) ?_
      · rw [hsame.length, hlength]
        exact Nat.lt_succ_self _
      · rw [hsame.links, hnode, hn]
        simpa using hi
      · rw [hl]
        intro hmem
        exact Nat.lt_irrefl _ (h.node i _ hmem).2.1
  subst hs'
  exact ⟨⟨hlinks.chain, hlinks.node, hlinks.head⟩,
    { keyOld := fun p hp => (hsame.key p).trans (congrArg Node.key (hold p hp))
      valueOld := fun p hp => (hsame.value p).trans (congrArg Node.value (hold p hp))
      keyNew := (hsame.key s.nodes.length).trans (congrArg Node.key hnode)
      valueNew := (hsame.value s.nodes.length).trans (congrArg Node.value hnode) },
    hsame.level, congrArg (· + 1) hsame.size⟩

theorem inserted_sublist (h : Levels s lists) (key : K) (newLevel i : Nat) :
    (s.inserted lists key newLevel (i + 1)).Sublist (s.inserted lists key newLevel i) := by
  have hfront : (s.front key (lists (i + 1))).Sublist (s.front key (lists i)) := (h.sub i).filter _
  have hback : (s.back key (lists (i + 1))).Sublist (s.back key (lists i)) := (h.sub i).filter _
  simp only [inserted]
  by_cases hi : i + 1 < newLevel + 1
  · rw [if_pos hi, if_pos (by omega)]
    exact hfront.append (hback.cons_cons _)
  · rw [if_neg hi]
    by_cases hi' : i < newLevel + 1
    · -- the topmost level of the new node
      rw [if_pos hi', ← (h.sorted_level (i + 1)).front_append_back key]
      exact hfront.append (hback.cons _)
    · rw [if_neg hi']
      exact h.sub i

/-- A node under a new key keeps the levels in order. -/
theorem Levels.insertNode (h : Levels s lists) (hlevel : newLevel < kMaxLevel)
    (hs' : s.insertNode (s.predecessors key) key value newLevel = s')
    (habove : ∀ p ∈ s.back key (lists 0), compare key (s.key p) = .lt) :
    Levels s' (s.inserted lists key newLevel) := by
  obtain ⟨hlinks, hadds, hlevel', hsize⟩ := h.links_insertNode hlevel hs'
  have hkey : ∀ p ∈ lists 0, s'.key p = s.key p := fun p hp => hadds.keyOld p (h.node 0 p hp).2.1
  have hzero : s.inserted lists key newLevel 0 =
      s.front key (lists 0) ++ s.nodes.length :: s.back key (lists 0) := if_pos (Nat.succ_pos _)
  refine ⟨hlinks, ?_, inserted_sublist h key newLevel, fun i hi => ?_, ?_, ?_⟩
  · have hfront : Sorted s (s.front key (lists 0)) := h.sorted.sublist List.filter_sublist
    have hback : Sorted s (s.back key (lists 0)) := h.sorted.sublist List.filter_sublist
    have hfront' : ∀ p ∈ s.front key (lists 0), s'.key p = s.key p := fun p hp =>
      hkey p (List.mem_of_mem_filter hp)
    have hback' : ∀ p ∈ s.back key (lists 0), s'.key p = s.key p := fun p hp =>
      hkey p (List.mem_of_mem_filter hp)
    rw [hzero, Sorted]
    refine List.pairwise_append.mpr ⟨?_, List.pairwise_cons.mpr ⟨fun q hq => ?_, ?_⟩, ?_⟩
    · exact hfront.imp_of_mem fun ha hb hab => by rwa [hfront' _ ha, hfront' _ hb]
    · rw [hadds.keyNew, hback' q hq]
      exact habove q hq
    · exact hback.imp_of_mem fun ha hb hab => by rwa [hback' _ ha, hback' _ hb]
    · intro p hp q hq
      rw [hfront' p hp]
      rcases List.mem_cons.mp hq with rfl | hq
      · rw [hadds.keyNew]
        exact front_below hp
      · rw [hback' q hq]
        exact Std.TransCmp.lt_trans (front_below hp) (habove q hq)
  · rw [hlevel'] at hi
    rw [inserted, if_neg (by omega)]
    exact h.high i (by omega)
  · rw [hlevel']
    have := h.level
    omega
  · have hlength := congrArg List.length (h.sorted.front_append_back key)
    rw [List.length_append] at hlength
    rw [hsize, h.size, hzero, List.length_append, List.length_cons]
    omega

end Insert

section SetValue
variable {key : K} {value : V} {found : Ptr} {m : Std.ExtTreeMap K V compare}

omit [Ord K] [Std.TransOrd K] in
theorem node_setValue (hroom : found < s.nodes.length) (x : Ptr) :
    (s.modifyNode found fun n => { n with value := value }).node x =
      { s.node x with value := if x = found then value else s.value x } := by
  rw [node_modifyNode _ hroom]
  split
  · subst x
    rfl
  · rfl

omit [Std.TransOrd K] in
theorem Levels.setValue (h : Levels s lists) (hroom : found < s.nodes.length) :
    Levels (s.modifyNode found fun n => { n with value := value }) lists := by
  have hlinks (x : Ptr) :
      ((s.modifyNode found fun n => { n with value := value }).node x).next = (s.node x).next := by
    rw [node_setValue hroom]
  have hkey (x : Ptr) : (s.modifyNode found fun n => { n with value := value }).key x = s.key x := by
    rw [SkipList.key, node_setValue hroom, SkipList.key]
  have hnext (i : Nat) (x : Ptr) :
      (s.modifyNode found fun n => { n with value := value }).nextAt i x = s.nextAt i x := by
    rw [nextAt, hlinks, nextAt]
  have hlength : (s.modifyNode found fun n => { n with value := value }).nodes.length =
      s.nodes.length := List.length_modify _ _ _
  refine ⟨⟨fun i hi => ?_, fun i p hp => ?_, ?_⟩, ?_, h.sub, h.high, h.level, h.size⟩
  · rw [hnext]
    exact (h.chain i hi).congr fun x _ => hnext i x
  · rw [hlength, hlinks]
    exact h.node i p hp
  · rw [hlength, hlinks]
    exact h.head
  · simp only [Sorted, hkey]
    exact h.sorted

end SetValue

section Put
variable [Std.LawfulEqOrd K] {m : Std.ExtTreeMap K V compare} {key : K}

omit [Std.TransOrd K] [Std.LawfulEqOrd K] in
theorem entries_front_below {ps : List Ptr} :
    ∀ e ∈ s.entries (s.front key ps), compare e.1 key = .lt := by
  intro e he
  obtain ⟨p, hp, rfl⟩ := List.mem_map.mp he
  exact front_below hp

theorem Represents.insertNode (h : Represents s lists m) (value : V) (height : Fin kMaxLevel)
    (habove : ∀ p ∈ s.back key (lists 0), compare key (s.key p) = .lt) :
    Represents (s.insertNode (s.predecessors key) key value height)
      (s.inserted lists key height) (m.insert key value) := by
  have hadds : AddsNode s (s.insertNode (s.predecessors key) key value height) key value :=
    (h.links_insertNode height.isLt rfl).2.1
  refine ⟨h.toLevels.insertNode height.isLt rfl habove, ?_⟩
  set s' := s.insertNode (s.predecessors key) key value height
  have hold (ps : List Ptr) (hps : ps ⊆ lists 0) : s'.entries ps = s.entries ps :=
    entries_congr (fun p hp => hadds.keyOld p (h.node 0 p (hps hp)).2.1)
      fun p hp => hadds.valueOld p (h.node 0 p (hps hp)).2.1
  have hzero : s.inserted lists key height 0 =
      s.front key (lists 0) ++ s.nodes.length :: s.back key (lists 0) := if_pos (Nat.succ_pos _)
  rw [hzero, entries_append, entries_cons, hadds.keyNew, hadds.valueNew,
    hold (s.front key (lists 0)) (List.filter_subset_self _), hold _ (s.back_subset key _)]
  refine OrderedMap.toList_insert (M := []) ?_ entries_front_below (by simp) fun e he => ?_
  · rw [h.toList, List.append_nil, ← entries_append, h.sorted.front_append_back]
  · obtain ⟨p, hp, rfl⟩ := List.mem_map.mp he
    exact habove p hp

theorem Represents.setValue (h : Represents s lists m) {found : Ptr} {rest : List Ptr}
    (hback : s.back key (lists 0) = found :: rest) (hkey : compare (s.key found) key = .eq)
    (value : V) : Represents (s.modifyNode found fun n => { n with value := value }) lists
      (m.insert key value) := by
  have hmem : found ∈ lists 0 := s.back_subset key _ (by rw [hback]; exact List.mem_cons_self)
  have hroom := (h.node 0 found hmem).2.1
  refine ⟨h.toLevels.setValue hroom, ?_⟩
  set s' := s.modifyNode found fun n => { n with value := value }
  have hkey' (x : Ptr) : s'.key x = s.key x := by
    rw [SkipList.key, node_setValue hroom, SkipList.key]
  have hvalue (x : Ptr) : s'.value x = if x = found then value else s.value x := by
    rw [SkipList.value, node_setValue hroom]
  have hsplit := h.sorted.front_append_back key
  rw [hback] at hsplit
  have hsorted : Sorted s (found :: rest) := by
    rw [← hback]
    exact h.sorted.sublist List.filter_sublist
  have hnodup := (h.chain 0 (Nat.zero_le _)).nodup
  rw [← hsplit] at hnodup
  obtain ⟨-, hnodupBack, hdisjoint⟩ := List.nodup_append.mp hnodup
  have hold (ps : List Ptr) (hps : found ∉ ps) : s'.entries ps = s.entries ps :=
    entries_congr (fun p _ => hkey' p) fun p hp => by
      rw [hvalue, if_neg]
      rintro rfl
      exact hps hp
  have hentries : s.entries (lists 0) = s.entries (s.front key (lists 0)) ++
      [(s.key found, s.value found)] ++ s.entries rest := by
    rw [← congrArg s.entries hsplit, entries_append, entries_cons, List.append_assoc]
    rfl
  rw [← congrArg s'.entries hsplit, entries_append, entries_cons, hkey', hvalue, if_pos rfl,
    hold _ fun hf => hdisjoint found hf found List.mem_cons_self rfl,
    hold _ (List.nodup_cons.mp hnodupBack).1, Std.LawfulEqOrd.eq_of_compare hkey]
  refine OrderedMap.toList_insert (h.toList.trans hentries) entries_front_below (fun e he => ?_)
    fun e he => ?_
  · rw [List.mem_singleton.mp he]
    exact Std.LawfulEqOrd.eq_of_compare hkey
  · obtain ⟨p, hp, rfl⟩ := List.mem_map.mp he
    rw [← Std.LawfulEqOrd.eq_of_compare hkey]
    exact List.rel_of_pairwise_cons hsorted hp

theorem Represents.put (h : Represents s lists m) (key : K) (value : V) (height : Fin kMaxLevel) :
    ∃ lists', Represents (s.put key value height) lists' (m.insert key value) := by
  rw [SkipList.put]
  simp only [h.found_eq key]
  cases hb : s.back key (lists 0) with
  | nil => exact ⟨_, h.insertNode value height fun p hp => by rw [hb] at hp; cases hp⟩
  | cons found rest =>
    simp only [List.head?_cons]
    split
    case isTrue hkey => exact ⟨lists, h.setValue hb hkey value⟩
    case isFalse hkey =>
      refine ⟨_, h.insertNode value height (h.sorted.back_above fun p hp => ?_)⟩
      rw [hb] at hp
      obtain rfl := Option.some.inj hp
      exact hkey

end Put

/-! ### Deleting an interval -/

section EraseRange
variable {m : Std.ExtTreeMap K V compare}

/-- The nodes of a level outside the interval. -/
def outside (s : SkipList K V) (lo hi : K) (ps : List Ptr) : List Ptr :=
  ps.filter fun p => !between lo hi (s.key p)

theorem Sorted.outside_eq {ps : List Ptr} (h : Sorted s ps) (lo hi : K) :
    s.front lo ps ++ (s.back lo ps).filter (fun p => !notAbove hi (s.key p)) =
      s.outside lo hi ps := by
  have hfront : s.outside lo hi (s.front lo ps) = s.front lo ps := by
    refine List.filter_eq_self.mpr fun p hp => ?_
    have hp : below lo (s.key p) = true := (List.mem_filter.mp hp).2
    rw [between_eq, hp]
    rfl
  have hback : s.outside lo hi (s.back lo ps) =
      (s.back lo ps).filter fun p => !notAbove hi (s.key p) := by
    refine List.filter_congr fun p hp => ?_
    have hp : (!below lo (s.key p)) = true := (List.mem_filter.mp hp).2
    rw [between_eq, hp, Bool.true_and]
  rw [← hfront, ← hback, outside, outside, ← List.filter_append, h.front_append_back]
  rfl

theorem Represents.eraseRange (h : Represents s lists m) (lo hi : K) :
    (s.eraseRange lo hi).1 = ((lists 0).filter fun p => between lo hi (s.key p)).length ∧
      Represents (s.eraseRange lo hi).2 (fun i => s.outside lo hi (lists i))
        (m.filter fun k _ => !between lo hi k) := by
  have herased : (s.eraseRange lo hi).1 =
      ((lists 0).filter fun p => between lo hi (s.key p)).length := by
    have hpass := congrArg List.length (h.pass_notAbove lo hi)
    rwa [← h.found_eq lo] at hpass
  refine ⟨herased, ?_⟩
  obtain ⟨hsame, hlinks⟩ := @Links.foldl_range _ _ _ _ s lists h.toLinks
    (fun s' i => s'.bypass hi ((s.predecessors lo).getD i header) i)
    (fun i => s.outside lo hi (lists i)) (s.level + 1) (by have := h.level; omega)
    fun s₁ i l hi' hsame hlinks hl => by
      have hsorted := h.sorted_level i
      have hpred := h.getD_predecessors lo 0 i
      rw [List.replicate_zero, List.append_nil] at hpred
      rw [hpred, ← hsorted.outside_eq]
      simp only [← hsame.key]
      refine hlinks.bypass (by have := h.level; omega) ?_ ?_
      · simp only [Sorted, hl, hsame.key]
        exact hsorted
      · rw [hl, hsorted.front_append_back]
  have hlists : (fun i => if i < s.level + 1 then s.outside lo hi (lists i) else lists i) =
      fun i => s.outside lo hi (lists i) := by
    funext i
    split
    · rfl
    · rw [h.high i (by omega)]
      rfl
  rw [hlists] at hlinks
  have hsub (ps : List Ptr) : (s.outside lo hi ps).Sublist ps := List.filter_sublist
  set s₁ := (List.range (s.level + 1)).foldl
    (fun s' i => s'.bypass hi ((s.predecessors lo).getD i header) i) s
  have herase : (s.eraseRange lo hi).2 = { s₁ with size := s₁.size - (s.eraseRange lo hi).1 } := rfl
  rw [herase]
  refine ⟨⟨⟨hlinks.chain, hlinks.node, hlinks.head⟩, ?_, fun i => (h.sub i).filter _, fun i hi' => ?_,
    ?_, ?_⟩, ?_⟩
  · have hsorted : Sorted s (s.outside lo hi (lists 0)) := h.sorted.sublist (hsub _)
    exact hsorted.imp fun hab => by rwa [← hsame.key, ← hsame.key] at hab
  · have hlevel : s.level < i := hsame.level ▸ hi'
    rw [h.high i hlevel]
    rfl
  · exact hsame.level.trans_lt h.level
  · have hlength := List.length_eq_length_filter_add (l := lists 0)
      fun p => between lo hi (s.key p)
    simp only [herased, hsame.size, h.size, outside]
    omega
  · rw [Std.ExtTreeMap.toList_filter, h.toList]
    have hentries : SkipList.entries { s₁ with size := s₁.size - (s.eraseRange lo hi).1 }
        (s.outside lo hi (lists 0)) = s.entries (s.outside lo hi (lists 0)) :=
      entries_congr (fun p _ => hsame.key p) fun p _ => hsame.value p
    rw [hentries, entries, entries, List.filter_map]
    rfl

end EraseRange

/-! ### Reading -/

section Read
variable {m : Std.ExtTreeMap K V compare}

theorem Represents.all_eq (h : Represents s lists m) : s.all = m.toList.map Prod.snd := by
  rw [all, h.pass_eq (h.chain 0 (Nat.zero_le _)) (List.Subset.refl _), h.toList, map_snd_entries,
    List.takeWhile_eq_self_iff.mpr fun _ _ => rfl]

theorem Represents.size_eq (h : Represents s lists m) : s.size = m.size := by
  rw [h.size, ← Std.ExtTreeMap.length_toList, h.toList, entries, List.length_map]

theorem Represents.range_eq (h : Represents s lists m) (lo hi : K) :
    s.range lo hi = (m.toList.filter fun e => between lo hi e.1).map Prod.snd := by
  rw [range, h.pass_below, h.pass_notAbove, h.toList, entries, List.filter_map, ← entries,
    map_snd_entries]
  rfl

theorem Represents.getExact_eq [Std.LawfulEqOrd K] (h : Represents s lists m) (key : K) :
    s.getExact key = m[key]? := by
  have hget (v : V) : m[key]? = some v ↔ ∃ p ∈ lists 0, s.key p = key ∧ s.value p = v := by
    rw [← Std.ExtTreeMap.mem_toList_iff_getElem?_eq_some, h.toList, entries, List.mem_map]
    simp only [Prod.mk.injEq]
  have hnone (habove : ∀ p ∈ s.back key (lists 0), compare key (s.key p) = .lt) :
      m[key]? = none := by
    refine Option.eq_none_iff_forall_ne_some.mpr fun v hv => ?_
    obtain ⟨p, hp, rfl, -⟩ := (hget v).mp hv
    rw [← h.sorted.front_append_back (s.key p)] at hp
    rcases List.mem_append.mp hp with hp | hp
    · exact OrderedMap.lt_irrefl _ (front_below hp)
    · exact OrderedMap.lt_irrefl _ (habove p hp)
  rw [getExact, h.pass_below]
  cases hb : s.back key (lists 0) with
  | nil => exact (hnone fun p hp => by rw [hb] at hp; cases hp).symm
  | cons p rest =>
    simp only [List.head?_cons]
    split
    case isTrue hkey =>
      have hp : p ∈ lists 0 := s.back_subset key _ (by rw [hb]; exact List.mem_cons_self)
      exact ((hget _).mpr ⟨p, hp, Std.LawfulEqOrd.eq_of_compare hkey, rfl⟩).symm
    case isFalse hkey =>
      refine (hnone (h.sorted.back_above fun q hq => ?_)).symm
      rw [hb] at hq
      obtain rfl := Option.some.inj hq
      exact hkey

end Read

/-! ### Runs -/

/-- A call of a writer, with the height that is drawn for a new node. -/
inductive Call (K V : Type) where
  | put (key : K) (value : V) (height : Fin kMaxLevel)
  | eraseRange (lo hi : K)

omit [Std.TransOrd K] in
def run (s : SkipList K V) : Call K V → SkipList K V
  | .put key value height => s.put key value height
  | .eraseRange lo hi => (s.eraseRange lo hi).2

omit [Inhabited K] [Inhabited V] in
def runMap (m : Std.ExtTreeMap K V compare) : Call K V → Std.ExtTreeMap K V compare
  | .put key value _ => m.insert key value
  | .eraseRange lo hi => m.filter fun k _ => !between lo hi k

/-- What the readers return, from the map. -/
structure Refines (s : SkipList K V) (m : Std.ExtTreeMap K V compare) : Prop where
  all : s.all = m.toList.map Prod.snd
  range : ∀ lo hi, s.range lo hi = (m.toList.filter fun e => between lo hi e.1).map Prod.snd
  getExact : ∀ key, s.getExact key = m[key]?
  size : s.size = m.size

/-- Every level is a sorted list from the header to null, a sublist of the level below. -/
def Ordered (s : SkipList K V) : Prop :=
  ∃ lists : Nat → List Ptr,
    (∀ i ≤ kMaxLevel, Chain (s.nextAt i) (s.nextAt i header) (lists i) none ∧ Sorted s (lists i)) ∧
      ∀ i, (lists (i + 1)).Sublist (lists i)

section Run
variable [Std.LawfulEqOrd K] {m : Std.ExtTreeMap K V compare}

omit [Std.LawfulEqOrd K] in
theorem represents_create : Represents (create : SkipList K V) (fun _ => []) ∅ where
  chain i hi := by
    simp only [Chain.nil_iff, nextAt, node, create, header, List.getD_cons_zero,
      List.getElem?_replicate, Nat.lt_succ_of_le hi, if_true, Option.join_some]
  node i p hp := by cases hp
  head := ⟨Nat.one_pos, by simp [node, create, header]⟩
  sorted := List.Pairwise.nil
  sub _ := List.Sublist.refl _
  high _ _ := rfl
  level := Nat.succ_pos 19
  size := rfl
  toList := rfl

theorem Represents.run (h : Represents s lists m) (c : Call K V) :
    ∃ lists', Represents (s.run c) lists' (runMap m c) := by
  cases c with
  | put key value height => exact h.put key value height
  | eraseRange lo hi => exact ⟨_, (h.eraseRange lo hi).2⟩

theorem Represents.foldl_run (h : Represents s lists m) (calls : List (Call K V)) :
    ∃ lists', Represents (calls.foldl SkipList.run s) lists' (calls.foldl runMap m) := by
  induction calls generalizing s lists m with
  | nil => exact ⟨lists, h⟩
  | cons c calls ih =>
    obtain ⟨lists', h'⟩ := h.run c
    exact ih h'

/-- Whatever heights are drawn, the skip list reads as the sorted map, and its levels are in order. -/
theorem refines_run (calls : List (Call K V)) :
    Refines (calls.foldl SkipList.run create) (calls.foldl runMap ∅) ∧
      Ordered (calls.foldl SkipList.run (create : SkipList K V)) := by
  obtain ⟨lists, h⟩ := (represents_create (K := K) (V := V)).foldl_run calls
  refine ⟨⟨h.all_eq, h.range_eq, h.getExact_eq, h.size_eq⟩, lists, fun i hi => ?_, h.sub⟩
  exact ⟨h.chain i hi, h.sorted_level i⟩

theorem refines_run_nat :
    let calls : List (Call Nat Nat) :=
      [.put 3 30 2, .put 1 10 0, .put 7 70 19, .put 3 31 4, .put 5 50 1, .eraseRange 4 6]
    (calls.foldl SkipList.run create).all = [10, 31, 70] ∧
      Refines (calls.foldl SkipList.run create) (calls.foldl runMap ∅) ∧
        Ordered (calls.foldl SkipList.run create) :=
  ⟨by decide +kernel, refines_run _⟩

end Run

end JiaMiaoDB.SkipList
