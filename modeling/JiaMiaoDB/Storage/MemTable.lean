import JiaMiaoDB.Storage.Tuple

/-! The memtable as a sorted map from user key and sequence number to tuples, with the newest
version of a row first. `SingleVersion` tables are those in which every row id has one version; on
them a table is determined by its set of tuples. -/

set_option autoImplicit false

namespace JiaMiaoDB
open ByteFormat

structure InternalKey where
  userKey : Str
  seq : UInt64
deriving DecidableEq

/-- Sequence numbers in descending order. -/
def compareSeqDesc (a b : UInt64) : Ordering := compare b a

instance : Std.TransCmp compareSeqDesc :=
  inferInstanceAs (Std.TransCmp fun a b : UInt64 => compare b a)

namespace InternalKey

/-- User keys ascending, sequence numbers descending. -/
instance : Ord InternalKey :=
  ⟨compareLex (compareOn InternalKey.userKey) fun a b => compareSeqDesc a.seq b.seq⟩

instance : Std.TransCmp fun a b : InternalKey => compareSeqDesc a.seq b.seq :=
  inferInstanceAs (Std.TransCmp fun a b : InternalKey => compareOn InternalKey.seq b a)

instance : Std.TransOrd InternalKey :=
  inferInstanceAs (Std.TransCmp
    (compareLex (compareOn InternalKey.userKey) fun a b => compareSeqDesc a.seq b.seq))

theorem compare_def (a b : InternalKey) :
    compare a b = (compare a.userKey b.userKey).then (compareSeqDesc a.seq b.seq) := rfl

instance : Std.LawfulEqOrd InternalKey where
  eq_of_compare {a b} h := by
    rw [compare_def, Ordering.then_eq_eq] at h
    rcases a with ⟨u, n⟩
    rcases b with ⟨v, m⟩
    rw [Std.LawfulEqOrd.eq_of_compare (a := u) (b := v) h.1,
      Std.LawfulEqOrd.eq_of_compare (a := m) (b := n) h.2]

end InternalKey

/-- `table ++ 0x1f ++ row id`, the row id in eight bytes, most significant first. -/
def makeUserKey (tableQualified : Str) (rowId : Int64) : Str :=
  tableQualified ++ [0x1f] ++ (putLE 8 rowId.toUInt64.toNat).reverse

theorem toInt64_injective {a b : UInt64} (h : a.toInt64 = b.toInt64) : a = b := by
  rw [← UInt64.toUInt64_toInt64 a, h, UInt64.toUInt64_toInt64]

theorem makeUserKey_injective {name : Str} {a b : Int64}
    (h : makeUserKey name a = makeUserKey name b) : a = b := by
  have hrev := List.append_cancel_left h
  have hnat := putLE_injective (n := 8) a.toUInt64.toNat_lt b.toUInt64.toNat_lt
    (List.reverse_injective hrev)
  rw [← Int64.toInt64_toUInt64 a, UInt64.toNat_inj.1 hnat, Int64.toInt64_toUInt64]

theorem compare_append_left (name a b : Bytes) : compare (name ++ a) (name ++ b) = compare a b := by
  induction name with
  | nil => rfl
  | cons c name ih =>
    have hc : compare c c = .eq := Std.ReflCmp.compare_self
    rw [List.cons_append, List.cons_append, List.compare_cons_cons, ih, hc]
    rfl

theorem compare_append_right {a b : Bytes} (h : a.length = b.length) (c d : UInt8) :
    compare (a ++ [c]) (b ++ [d]) = (compare a b).then (compare c d) := by
  induction a generalizing b with
  | nil =>
    rw [List.length_nil, eq_comm, List.length_eq_zero_iff] at h
    subst h
    have hnil : compare ([] : Bytes) [] = .eq := Std.ReflCmp.compare_self
    rw [List.nil_append, List.nil_append, List.compare_cons_cons, hnil]
    cases compare c d <;> rfl
  | cons x a ih =>
    cases b with
    | nil => cases h
    | cons y b =>
      rw [List.cons_append, List.cons_append, List.compare_cons_cons, List.compare_cons_cons,
        ih (by simpa using h)]
      cases compare x y <;> rfl

/-- Most significant byte first, strings of one length compare as the numbers. -/
theorem bigEndian_lt (n : Nat) {a b : Nat} (hb : b < 256 ^ n) (h : a < b) :
    compare (putLE n a).reverse (putLE n b).reverse = .lt := by
  induction n generalizing a b with
  | zero =>
    rw [Nat.pow_zero] at hb
    omega
  | succ n ih =>
    rw [Nat.pow_succ] at hb
    have hlen : (putLE n (a / 256)).reverse.length = (putLE n (b / 256)).reverse.length := by simp
    simp only [putLE, List.reverse_cons]
    rw [compare_append_right hlen, Ordering.then_eq_lt]
    rcases Nat.lt_or_ge (a / 256) (b / 256) with hlt | hge
    · exact .inl (ih (by omega) hlt)
    · have he : a / 256 = b / 256 := by omega
      have hmod : a % 256 < b % 256 := by omega
      refine .inr ⟨by rw [he]; exact Std.ReflCmp.compare_self, ?_⟩
      rw [Std.compare_eq_lt, UInt8.lt_iff_toNat_lt]
      simpa [UInt8.toNat_ofNat'] using hmod

theorem makeUserKey_lt {name : Str} {a b : Int64} (ha : 0 ≤ a) (h : a < b) :
    compare (makeUserKey name a) (makeUserKey name b) = .lt := by
  rw [makeUserKey, makeUserKey, compare_append_left]
  refine bigEndian_lt 8 b.toUInt64.toNat_lt ?_
  rw [Int64.lt_iff_toInt_lt] at h
  rw [Int64.le_iff_toInt_le, Int64.toInt_zero] at ha
  have hnat {i : Int64} (hi : 0 ≤ i.toInt) : (i.toUInt64.toNat : Int) = i.toInt := by
    rw [Int64.toNat_toUInt64_of_le (by rwa [Int64.le_iff_toInt_le, Int64.toInt_zero])]
    exact Int.toNat_of_nonneg hi
  have hna := hnat ha
  have hnb := hnat (i := b) (by omega)
  omega

/-- One table in memory. The name is part of every key. -/
structure MemTable where
  name : Str
  entries : Std.ExtTreeMap InternalKey Tuple compare

namespace MemTable

def create (name : Str) : MemTable := ⟨name, ∅⟩

def size (m : MemTable) : Nat := m.entries.size

/-- The payload length is set from the payload. -/
def normalize (t : Tuple) : Tuple :=
  { t with hdr := { t.hdr with payloadLen := UInt32.ofNat t.payload.length } }

def put (m : MemTable) (rowId : Int64) (t : Tuple) (seq : UInt64) : MemTable :=
  { m with entries := m.entries.insert ⟨makeUserKey m.name rowId, seq⟩ (normalize t) }

/-- The closed interval of the skip list's range operations. -/
def inRange (lo hi k : InternalKey) : Bool := (compare lo k).isLE && (compare k hi).isLE

/-- The bounds of all versions of a row: the greatest sequence number comes first. -/
def versionRange (m : MemTable) (rowId : Int64) : InternalKey × InternalKey :=
  let uk := makeUserKey m.name rowId
  (⟨uk, 0xFFFFFFFFFFFFFFFF⟩, ⟨uk, 0⟩)

def getVersions (m : MemTable) (rowId : Int64) : List Tuple :=
  let (lo, hi) := m.versionRange rowId
  (m.entries.toList.filter fun p => inRange lo hi p.1).map (·.2)

def getLatest (m : MemTable) (rowId : Int64) : Option Tuple := (m.getVersions rowId).head?

def scanAll (m : MemTable) : List Tuple := m.entries.toList.map (·.2)

def eraseAllFor (m : MemTable) (rowId : Int64) : MemTable :=
  let (lo, hi) := m.versionRange rowId
  { m with entries := m.entries.filter fun k _ => !inRange lo hi k }

/-! ### The interval of a row's versions -/

theorem inRange_versionRange (m : MemTable) (rowId : Int64) (k : InternalKey) :
    inRange (m.versionRange rowId).1 (m.versionRange rowId).2 k =
      decide (k.userKey = makeUserKey m.name rowId) := by
  simp only [versionRange, inRange, InternalKey.compare_def]
  generalize makeUserKey m.name rowId = uk
  rw [Bool.eq_iff_iff, Bool.and_eq_true, decide_eq_true_iff]
  constructor
  · rintro ⟨hlo, hhi⟩
    have h1 : (compare uk k.userKey).isLE := by
      revert hlo
      cases compare uk k.userKey <;> simp
    have h2 : (compare k.userKey uk).isLE := by
      revert hhi
      cases compare k.userKey uk <;> simp
    exact Std.LawfulEqOrd.eq_of_compare (Std.OrientedCmp.isLE_antisymm h2 h1)
  · rintro rfl
    have hmax : k.seq ≤ 0xFFFFFFFFFFFFFFFF := by
      rw [UInt64.le_iff_toNat_le]
      exact Nat.le_of_lt_succ k.seq.toNat_lt
    have hmin : (0 : UInt64) ≤ k.seq := UInt64.zero_le
    simp only [Std.ReflCmp.compare_self, Ordering.eq_then, compareSeqDesc]
    exact ⟨by rw [Std.isLE_compare]; exact hmax, by rw [Std.isLE_compare]; exact hmin⟩

theorem mem_getVersions {m : MemTable} {rowId : Int64} {t : Tuple} :
    t ∈ m.getVersions rowId ↔
      ∃ k : InternalKey, m.entries[k]? = some t ∧ k.userKey = makeUserKey m.name rowId := by
  simp only [getVersions, List.mem_map, List.mem_filter, inRange_versionRange, decide_eq_true_eq,
    Prod.exists, Std.ExtTreeMap.mem_toList_iff_getElem?_eq_some]
  constructor
  · rintro ⟨k, t', ⟨hk, hu⟩, rfl⟩
    exact ⟨k, hk, hu⟩
  · rintro ⟨k, hk, hu⟩
    exact ⟨k, t, ⟨hk, hu⟩, rfl⟩

theorem mem_scanAll {m : MemTable} {t : Tuple} :
    t ∈ m.scanAll ↔ ∃ k : InternalKey, m.entries[k]? = some t := by
  simp [scanAll]

@[simp] theorem put_name (m : MemTable) (rowId : Int64) (t : Tuple) (seq : UInt64) :
    (m.put rowId t seq).name = m.name := rfl

@[simp] theorem eraseAllFor_name (m : MemTable) (rowId : Int64) :
    (m.eraseAllFor rowId).name = m.name := rfl

@[simp] theorem scanAll_create (name : Str) : (create name).scanAll = [] := by
  simp [scanAll, create]

theorem length_scanAll (m : MemTable) : m.scanAll.length = m.size := by
  simp [scanAll, size]

theorem getElem?_eraseAllFor {m : MemTable} {rowId : Int64} {k : InternalKey} {t : Tuple} :
    (m.eraseAllFor rowId).entries[k]? = some t ↔
      m.entries[k]? = some t ∧ k.userKey ≠ makeUserKey m.name rowId := by
  simp only [eraseAllFor, inRange_versionRange, Std.ExtTreeMap.getElem?_filter',
    Option.filter_eq_some_iff, Bool.not_eq_eq_eq_not, Bool.not_true, decide_eq_false_iff_not, ne_eq]

theorem getElem?_put {m : MemTable} {rowId : Int64} {t t' : Tuple} {seq : UInt64}
    {k : InternalKey} :
    (m.put rowId t seq).entries[k]? = some t' ↔
      (k = ⟨makeUserKey m.name rowId, seq⟩ ∧ t' = normalize t) ∨
        (k ≠ ⟨makeUserKey m.name rowId, seq⟩ ∧ m.entries[k]? = some t') := by
  simp only [put, Std.ExtTreeMap.getElem?_insert, Std.LawfulEqCmp.compare_eq_iff_eq]
  split
  · subst k
    simp [eq_comm]
  · simp [Ne.symm ‹_›]

theorem getVersions_eq_filter (m : MemTable) (id : Int64) : m.getVersions id =
    (m.entries.toList.filter fun p => p.1.userKey = makeUserKey m.name id).map Prod.snd := by
  refine congrArg (List.map Prod.snd) (List.filter_congr fun p _ => ?_)
  exact inRange_versionRange m id p.1

theorem sorted_filter (m : MemTable) (p : InternalKey × Tuple → Bool) :
    (m.entries.toList.filter p).Pairwise fun a b => compare a.1 b.1 = .lt :=
  Std.ExtTreeMap.ordered_keys_toList.sublist List.filter_sublist

theorem getVersions_congr {m m' : MemTable} {id : Int64} (hname : m'.name = m.name) (h : ∀ k : InternalKey,
    k.userKey = makeUserKey m.name id → m'.entries[k]? = m.entries[k]?) :
    m'.getVersions id = m.getVersions id := by
  rw [getVersions_eq_filter, getVersions_eq_filter]
  refine congrArg (List.map Prod.snd) (OrderedMap.eq_of_sorted (sorted_filter _ _) (sorted_filter _ _) ?_)
  intro ⟨k, t⟩
  simp only [List.mem_filter, decide_eq_true_eq, Std.ExtTreeMap.mem_toList_iff_getElem?_eq_some, hname]
  constructor
  · rintro ⟨hk, hu⟩
    exact ⟨h k hu ▸ hk, hu⟩
  · rintro ⟨hk, hu⟩
    exact ⟨(h k hu).trans hk, hu⟩

theorem getVersions_replaced (m : MemTable) (id id' : Int64) (t : Tuple) (seq : UInt64) :
    ((m.eraseAllFor id).put id t seq).getVersions id' =
      if id' = id then [normalize t] else m.getVersions id' := by
  split
  · next hid =>
    subst hid
    have hone : [((⟨makeUserKey m.name id', seq⟩ : InternalKey), normalize t)].map Prod.snd =
        [normalize t] := rfl
    rw [← hone, getVersions_eq_filter]
    refine congrArg (List.map Prod.snd) (OrderedMap.eq_of_sorted (sorted_filter _ _)
      (List.pairwise_singleton _ _) ?_)
    intro ⟨k, t'⟩
    simp only [List.mem_filter, put_name, eraseAllFor_name,
      Std.ExtTreeMap.mem_toList_iff_getElem?_eq_some, getElem?_put, getElem?_eraseAllFor,
      List.mem_singleton, Prod.mk.injEq]
    constructor
    · rintro ⟨h | ⟨-, -, hne⟩, hu⟩
      · exact h
      · exact absurd (of_decide_eq_true hu) hne
    · rintro ⟨rfl, rfl⟩
      exact ⟨.inl ⟨rfl, rfl⟩, decide_eq_true rfl⟩
  · next hne =>
    refine getVersions_congr rfl fun k hu => ?_
    have hkey : k.userKey ≠ makeUserKey m.name id := fun he =>
      hne (makeUserKey_injective (hu.symm.trans he))
    apply Option.ext
    intro t'
    rw [getElem?_put, getElem?_eraseAllFor]
    constructor
    · rintro (⟨rfl, -⟩ | ⟨-, hk, -⟩)
      · exact absurd rfl hkey
      · exact hk
    · exact fun hk => .inr ⟨fun he => hkey (congrArg InternalKey.userKey he), hk, hkey⟩

theorem mem_getVersions_replaced {m : MemTable} {id id' : Int64} {t t' : Tuple} {seq : UInt64} :
    t' ∈ ((m.eraseAllFor id).put id t seq).getVersions id' ↔
      id' = id ∧ t' = normalize t ∨ id' ≠ id ∧ t' ∈ m.getVersions id' := by
  rw [getVersions_replaced]
  split <;> simp [*]

/-- A version under a key that was free. -/
theorem perm_put {m : MemTable} {rowId : Int64} {t : Tuple} {seq : UInt64}
    (hfree : m.entries[(⟨makeUserKey m.name rowId, seq⟩ : InternalKey)]? = none) :
    (m.put rowId t seq).scanAll.Perm (normalize t :: m.scanAll) := by
  set k : InternalKey := ⟨makeUserKey m.name rowId, seq⟩ with hk
  suffices h : (m.put rowId t seq).entries.toList.Perm ((k, normalize t) :: m.entries.toList) from
    h.map Prod.snd
  have hnodup {entries : Std.ExtTreeMap InternalKey Tuple compare} : entries.toList.Nodup :=
    OrderedMap.nodup_of_sorted Std.ExtTreeMap.ordered_keys_toList
  refine (List.perm_ext_iff_of_nodup hnodup (List.nodup_cons.2 ⟨fun hmem => ?_, hnodup⟩)).2
    fun ⟨k', t'⟩ => ?_
  · rw [Std.ExtTreeMap.mem_toList_iff_getElem?_eq_some, hfree] at hmem
    cases hmem
  · rw [List.mem_cons, Std.ExtTreeMap.mem_toList_iff_getElem?_eq_some,
      Std.ExtTreeMap.mem_toList_iff_getElem?_eq_some, getElem?_put, ← hk, Prod.mk.injEq]
    constructor
    · rintro (h | ⟨-, h⟩)
      exacts [.inl h, .inr h]
    · rintro (h | h)
      · exact .inl h
      · refine .inr ⟨fun he => ?_, h⟩
        rw [he, hfree] at h
        cases h

/-! ### Tables with one version per row -/

/-- Every key carries the row id of its tuple, and no row id has two versions. -/
structure SingleVersion (m : MemTable) : Prop where
  keyed : ∀ (k : InternalKey) (t : Tuple), m.entries[k]? = some t →
    k.userKey = makeUserKey m.name t.hdr.rowId.toInt64
  single : ∀ (k k' : InternalKey) (t t' : Tuple), m.entries[k]? = some t → m.entries[k']? = some t' →
    k.userKey = k'.userKey → k = k'

namespace SingleVersion
variable {m : MemTable}

theorem create (name : Str) : SingleVersion (create name) where
  keyed := by simp [MemTable.create]
  single := by simp [MemTable.create]

/-- Tuples of different rows have different row ids. -/
theorem eq_of_rowId (h : SingleVersion m) {t t' : Tuple} (ht : t ∈ m.scanAll)
    (ht' : t' ∈ m.scanAll) (hid : t.hdr.rowId = t'.hdr.rowId) : t = t' := by
  obtain ⟨k, hk⟩ := mem_scanAll.1 ht
  obtain ⟨k', hk'⟩ := mem_scanAll.1 ht'
  have : k = k' := h.single k k' t t' hk hk' (by rw [h.keyed k t hk, h.keyed k' t' hk', hid])
  subst this
  exact Option.some.inj (hk.symm.trans hk')

theorem userKey_ne_iff (h : SingleVersion m) {k : InternalKey} {t : Tuple}
    (hk : m.entries[k]? = some t) (rowId : Int64) :
    k.userKey ≠ makeUserKey m.name rowId ↔ t.hdr.rowId.toInt64 ≠ rowId := by
  rw [h.keyed k t hk]
  exact not_congr ⟨makeUserKey_injective, fun e => by rw [e]⟩

theorem eraseAllFor (h : SingleVersion m) (rowId : Int64) :
    SingleVersion (m.eraseAllFor rowId) where
  keyed k t hk := h.keyed k t (getElem?_eraseAllFor.1 hk).1
  single k k' t t' hk hk' := h.single k k' t t' (getElem?_eraseAllFor.1 hk).1
    (getElem?_eraseAllFor.1 hk').1

theorem mem_eraseAllFor (h : SingleVersion m) {rowId : Int64} {t : Tuple} :
    t ∈ (m.eraseAllFor rowId).scanAll ↔ t ∈ m.scanAll ∧ t.hdr.rowId.toInt64 ≠ rowId := by
  simp only [mem_scanAll, getElem?_eraseAllFor]
  constructor
  · rintro ⟨k, hk, hne⟩
    exact ⟨⟨k, hk⟩, (h.userKey_ne_iff hk rowId).1 hne⟩
  · rintro ⟨⟨k, hk⟩, hne⟩
    exact ⟨k, hk, (h.userKey_ne_iff hk rowId).2 hne⟩

/-- No version of the row is stored. -/
def Fresh (m : MemTable) (rowId : Int64) : Prop := ∀ t ∈ m.scanAll, t.hdr.rowId.toInt64 ≠ rowId

theorem fresh_eraseAllFor (h : SingleVersion m) (rowId : Int64) :
    Fresh (m.eraseAllFor rowId) rowId := fun _ ht => (h.mem_eraseAllFor.1 ht).2

theorem put (h : SingleVersion m) {rowId : Int64} {t : Tuple} (seq : UInt64)
    (hfresh : Fresh m rowId) (hid : t.hdr.rowId.toInt64 = rowId) :
    SingleVersion (m.put rowId t seq) where
  keyed k t' hk := by
    rcases getElem?_put.1 hk with ⟨rfl, rfl⟩ | ⟨-, hk⟩
    · exact congrArg (makeUserKey m.name) hid.symm
    · exact h.keyed k t' hk
  single k k' t₁ t₂ hk hk' hu := by
    have hold : ∀ (k : InternalKey) (t' : Tuple), m.entries[k]? = some t' →
        k.userKey ≠ makeUserKey m.name rowId := fun k t' hk =>
          (h.userKey_ne_iff hk rowId).2 (hfresh t' (mem_scanAll.2 ⟨k, hk⟩))
    rcases getElem?_put.1 hk with ⟨rfl, -⟩ | ⟨-, hk⟩ <;>
      rcases getElem?_put.1 hk' with ⟨rfl, -⟩ | ⟨-, hk'⟩
    · rfl
    · exact absurd hu.symm (hold k' t₂ hk')
    · exact absurd hu (hold k t₁ hk)
    · exact h.single k k' t₁ t₂ hk hk' hu

theorem mem_put (h : SingleVersion m) {rowId : Int64} {t t' : Tuple} {seq : UInt64}
    (hfresh : Fresh m rowId) :
    t' ∈ (m.put rowId t seq).scanAll ↔ t' = normalize t ∨ t' ∈ m.scanAll := by
  simp only [mem_scanAll, getElem?_put]
  constructor
  · rintro ⟨k, ⟨-, rfl⟩ | ⟨-, hk⟩⟩
    · exact .inl rfl
    · exact .inr ⟨k, hk⟩
  · rintro (rfl | ⟨k, hk⟩)
    · exact ⟨_, .inl ⟨rfl, rfl⟩⟩
    · refine ⟨k, .inr ⟨fun e => ?_, hk⟩⟩
      have hne := (h.userKey_ne_iff hk rowId).2 (hfresh t' (mem_scanAll.2 ⟨k, hk⟩))
      exact hne (by rw [e])

theorem getLatest_eq_some (h : SingleVersion m) {rowId : Int64} {t : Tuple} :
    m.getLatest rowId = some t ↔ t ∈ m.scanAll ∧ t.hdr.rowId.toInt64 = rowId := by
  have hmem : ∀ t', t' ∈ m.getVersions rowId ↔ t' ∈ m.scanAll ∧ t'.hdr.rowId.toInt64 = rowId := by
    intro t'
    rw [mem_getVersions, mem_scanAll]
    constructor
    · rintro ⟨k, hk, hu⟩
      exact ⟨⟨k, hk⟩, not_not.1 fun hne => (h.userKey_ne_iff hk rowId).2 hne hu⟩
    · rintro ⟨⟨k, hk⟩, hid⟩
      exact ⟨k, hk, not_not.1 fun hne => (h.userKey_ne_iff hk rowId).1 hne hid⟩
  rw [← hmem, getLatest]
  constructor
  · exact fun hhead => List.mem_of_head? hhead
  · intro ht
    cases hv : m.getVersions rowId with
    | nil => rw [hv] at ht; cases ht
    | cons t' rest =>
      have ht' : t' ∈ m.getVersions rowId := by simp [hv]
      obtain ⟨hs', hid'⟩ := (hmem t').1 ht'
      obtain ⟨hs, hid⟩ := (hmem t).1 ht
      have : t' = t := h.eq_of_rowId hs' hs (toInt64_injective (hid'.trans hid.symm))
      rw [List.head?_cons, this]

/-- The scan lists the tuples by increasing user key. -/
theorem sorted_scanAll (h : SingleVersion m) : m.scanAll.Pairwise fun t t' =>
    compare (makeUserKey m.name t.hdr.rowId.toInt64)
      (makeUserKey m.name t'.hdr.rowId.toInt64) = .lt := by
  rw [scanAll, List.pairwise_map]
  refine (Std.ExtTreeMap.ordered_keys_toList (t := m.entries)).imp_of_mem ?_
  rintro ⟨k, t⟩ ⟨k', t'⟩ hk hk' hlt
  rw [Std.ExtTreeMap.mem_toList_iff_getElem?_eq_some] at hk hk'
  simp only at hlt ⊢
  rw [← h.keyed k t hk, ← h.keyed k' t' hk']
  rw [InternalKey.compare_def, Ordering.then_eq_lt] at hlt
  refine hlt.resolve_right fun ⟨he, hs⟩ => ?_
  have : k = k' := h.single k k' t t' hk hk' (Std.LawfulEqOrd.eq_of_compare he)
  rw [this] at hs
  exact OrderedMap.lt_irrefl k'.seq hs

theorem nodup_scanAll (h : SingleVersion m) : m.scanAll.Nodup := by
  refine List.Pairwise.imp (fun {a b} hab (e : a = b) => ?_) h.sorted_scanAll
  subst e
  exact OrderedMap.lt_irrefl _ hab

/-- A row with a greater id than all others comes last. -/
theorem scanAll_put (h : SingleVersion m) {rowId : Int64} {t : Tuple} (seq : UInt64)
    (hid : t.hdr.rowId.toInt64 = rowId)
    (hlast : ∀ t' ∈ m.scanAll, 0 ≤ t'.hdr.rowId.toInt64 ∧ t'.hdr.rowId.toInt64 < rowId) :
    (m.put rowId t seq).scanAll = m.scanAll ++ [normalize t] := by
  have hfresh : Fresh m rowId := fun t' ht' he => by
    have := (hlast t' ht').2
    rw [he] at this
    exact Int64.lt_irrefl this
  have hsorted := (h.put seq hfresh hid).sorted_scanAll
  have hsorted' : (m.scanAll ++ [normalize t]).Pairwise fun t t' =>
      compare (makeUserKey m.name t.hdr.rowId.toInt64)
        (makeUserKey m.name t'.hdr.rowId.toInt64) = .lt := by
    refine List.pairwise_append.2 ⟨h.sorted_scanAll, List.pairwise_singleton _ _, ?_⟩
    intro t' ht' t'' ht''
    rw [List.mem_singleton.1 ht'']
    refine makeUserKey_lt (hlast t' ht').1 ?_
    rw [show (normalize t).hdr.rowId = t.hdr.rowId from rfl, hid]
    exact (hlast t' ht').2
  have hnodup : (m.scanAll ++ [normalize t]).Nodup := by
    refine List.Pairwise.imp (fun {a b} hab (e : a = b) => ?_) hsorted'
    subst e
    exact OrderedMap.lt_irrefl _ hab
  refine ((List.perm_ext_iff_of_nodup (h.put seq hfresh hid).nodup_scanAll hnodup).2
    fun t' => ?_).eq_of_pairwise (fun a b _ _ hab hba => ?_) hsorted hsorted'
  · rw [h.mem_put hfresh, List.mem_append, List.mem_singleton, or_comm]
  · exact absurd (Std.TransCmp.lt_trans hab hba) (OrderedMap.lt_irrefl _)

/-- Tables of one name with the same tuples scan alike. -/
theorem scanAll_ext {m' : MemTable} (h : SingleVersion m) (h' : SingleVersion m')
    (hname : m.name = m'.name) (hmem : ∀ t, t ∈ m.scanAll ↔ t ∈ m'.scanAll) :
    m.scanAll = m'.scanAll := by
  have hs := h.sorted_scanAll
  have hs' := h'.sorted_scanAll
  rw [← hname] at hs'
  have hperm := (List.perm_ext_iff_of_nodup h.nodup_scanAll h'.nodup_scanAll).2 hmem
  refine hperm.eq_of_pairwise (fun a b _ _ hab hba => ?_) hs hs'
  exact absurd (Std.TransCmp.lt_trans hab hba) (OrderedMap.lt_irrefl _)

end SingleVersion
end MemTable
end JiaMiaoDB
