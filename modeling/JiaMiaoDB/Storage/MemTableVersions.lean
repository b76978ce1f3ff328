import JiaMiaoDB.Storage.MemTable
import JiaMiaoDB.Storage.SkipListRefinement

/-!
# The memtable over the skip list

`LinkedMemTable` is the memtable with its skip list, and `MemTable` mirrors it. Of a run of puts and
erasures, the surviving versions are read row by row, the newest version of a row first.
-/

set_option autoImplicit false

namespace JiaMiaoDB

instance : Inhabited InternalKey := ⟨⟨[], 0⟩⟩

instance : Inhabited Tuple := ⟨⟨⟨0, 0, 0, 0, 0, 0, 0, 0⟩, []⟩⟩

structure LinkedMemTable where
  name : Str
  skiplist : SkipList InternalKey Tuple
  maxRowId : Int64

namespace LinkedMemTable

def create (name : Str) : LinkedMemTable := ⟨name, SkipList.create, 0⟩

def size (m : LinkedMemTable) : Nat := m.skiplist.size

def put (m : LinkedMemTable) (rowId : Int64) (t : Tuple) (seq : UInt64)
    (height : Fin SkipList.kMaxLevel) : LinkedMemTable :=
  let copy := { t with hdr := { t.hdr with payloadLen := UInt32.ofNat t.payload.length } }
  { m with
    skiplist := m.skiplist.put ⟨makeUserKey m.name rowId, seq⟩ copy height
    maxRowId := if m.maxRowId < rowId then rowId else m.maxRowId }

def getVersions (m : LinkedMemTable) (rowId : Int64) : List Tuple :=
  let uk := makeUserKey m.name rowId
  m.skiplist.range ⟨uk, 0xFFFFFFFFFFFFFFFF⟩ ⟨uk, 0⟩

def getLatest (m : LinkedMemTable) (rowId : Int64) : Option Tuple := (m.getVersions rowId).head?

def scanAll (m : LinkedMemTable) : List Tuple := m.skiplist.all

/-- The number of entries that are erased, and the table without them. -/
def eraseAllFor (m : LinkedMemTable) (rowId : Int64) : Nat × LinkedMemTable :=
  let uk := makeUserKey m.name rowId
  let (erased, skiplist) := m.skiplist.eraseRange ⟨uk, 0xFFFFFFFFFFFFFFFF⟩ ⟨uk, 0⟩
  (erased, { m with skiplist := skiplist })

end LinkedMemTable

/-! ### The map of the memtable -/

/-- The skip list of the table holds the entries of the map. -/
structure Mirrors (l : LinkedMemTable) (m : MemTable) : Prop where
  name : l.name = m.name
  entries : ∃ lists, l.skiplist.Represents lists m.entries

namespace Mirrors
variable {l : LinkedMemTable} {m : MemTable}

theorem create (name : Str) : Mirrors (.create name) (.create name) :=
  ⟨rfl, _, SkipList.represents_create⟩

theorem put (h : Mirrors l m) (rowId : Int64) (t : Tuple) (seq : UInt64)
    (height : Fin SkipList.kMaxLevel) : Mirrors (l.put rowId t seq height) (m.put rowId t seq) := by
  obtain ⟨hname, lists, hlists⟩ := h
  refine ⟨hname, ?_⟩
  rw [LinkedMemTable.put, hname]
  exact hlists.put _ _ height

theorem size_eq (h : Mirrors l m) : l.size = m.size := by
  obtain ⟨-, lists, hlists⟩ := h
  exact hlists.size_eq

theorem scanAll_eq (h : Mirrors l m) : l.scanAll = m.scanAll := by
  obtain ⟨-, lists, hlists⟩ := h
  exact hlists.all_eq

theorem getVersions_eq (h : Mirrors l m) (rowId : Int64) :
    l.getVersions rowId = m.getVersions rowId := by
  obtain ⟨hname, lists, hlists⟩ := h
  rw [LinkedMemTable.getVersions, hname]
  exact hlists.range_eq _ _

theorem getLatest_eq (h : Mirrors l m) (rowId : Int64) : l.getLatest rowId = m.getLatest rowId := by
  rw [LinkedMemTable.getLatest, h.getVersions_eq, MemTable.getLatest]

theorem eraseAllFor (h : Mirrors l m) (rowId : Int64) :
    (l.eraseAllFor rowId).1 = (m.getVersions rowId).length ∧
      Mirrors (l.eraseAllFor rowId).2 (m.eraseAllFor rowId) := by
  have hversions := h.getVersions_eq rowId
  obtain ⟨hname, lists, hlists⟩ := h
  obtain ⟨herased, hrest⟩ := hlists.eraseRange
    ⟨makeUserKey l.name rowId, 0xFFFFFFFFFFFFFFFF⟩ ⟨makeUserKey l.name rowId, 0⟩
  have hlength := congrArg List.length hversions
  rw [LinkedMemTable.getVersions, SkipList.range, hlists.pass_below, hlists.pass_notAbove,
    List.length_map, ← herased] at hlength
  have hentries : (m.eraseAllFor rowId).entries = m.entries.filter fun k _ => !SkipList.between
      ⟨makeUserKey l.name rowId, 0xFFFFFFFFFFFFFFFF⟩ ⟨makeUserKey l.name rowId, 0⟩ k := by
    rw [hname]
    rfl
  refine ⟨hlength, hname, ?_⟩
  rw [hentries]
  exact ⟨_, hrest⟩

end Mirrors

/-! ### Versions -/

structure Version where
  rowId : Int64
  seq : UInt64
  tuple : Tuple

namespace Version

def pair (v : Version) : Int64 × UInt64 := (v.rowId, v.seq)

def key (name : Str) (v : Version) : InternalKey := ⟨makeUserKey name v.rowId, v.seq⟩

/-- Rows in ascending order, the versions of a row in descending order. -/
def Before (v w : Version) : Prop := v.rowId < w.rowId ∨ v.rowId = w.rowId ∧ w.seq < v.seq

def beforeOrEqual (v w : Version) : Bool :=
  decide (v.rowId < w.rowId ∨ v.rowId = w.rowId ∧ w.seq ≤ v.seq)

theorem beforeOrEqual_iff (v w : Version) : v.beforeOrEqual w = true ↔
    v.rowId.toInt < w.rowId.toInt ∨
      v.rowId.toInt = w.rowId.toInt ∧ w.seq.toNat ≤ v.seq.toNat := by
  rw [beforeOrEqual, decide_eq_true_iff, Int64.lt_iff_toInt_lt, UInt64.le_iff_toNat_le,
    Int64.toInt_inj]

theorem before_of_beforeOrEqual {v w : Version} (h : v.beforeOrEqual w = true)
    (hne : v.pair ≠ w.pair) : v.Before w := by
  rcases of_decide_eq_true h with h | ⟨hrow, hseq⟩
  · exact .inl h
  · refine .inr ⟨hrow, UInt64.lt_of_le_of_ne hseq fun he => hne ?_⟩
    rw [pair, pair, hrow, he]

theorem Before.compare {v w : Version} (h : v.Before w) (hv : 0 ≤ v.rowId) (name : Str) :
    compare (v.key name) (w.key name) = .lt := by
  rw [InternalKey.compare_def, Ordering.then_eq_lt]
  rcases h with h | ⟨hrow, hseq⟩
  · exact .inl (makeUserKey_lt hv h)
  · refine .inr ⟨?_, ?_⟩
    · rw [key, key, hrow]
      exact Std.ReflCmp.compare_self
    · exact Std.compare_eq_lt.mpr hseq

theorem key_injective {name : Str} {v w : Version} (h : v.key name = w.key name) :
    v.pair = w.pair := by
  obtain ⟨hrow, hseq⟩ := InternalKey.mk.inj h
  rw [pair, pair, makeUserKey_injective hrow, hseq]

end Version

/-- The versions in the order of the table. -/
def inOrder (vs : List Version) : List Version := vs.mergeSort Version.beforeOrEqual

theorem inOrder_perm (vs : List Version) : (inOrder vs).Perm vs := List.mergeSort_perm vs _

theorem inOrder_sorted {vs : List Version} (h : (vs.map Version.pair).Nodup) :
    (inOrder vs).Pairwise Version.Before := by
  have hle : (inOrder vs).Pairwise fun v w => v.beforeOrEqual w = true := by
    refine List.pairwise_mergeSort (fun u v w huv hvw => ?_) (fun v w => ?_) vs
    · rw [Version.beforeOrEqual_iff] at *
      omega
    · rw [Bool.or_eq_true, Version.beforeOrEqual_iff, Version.beforeOrEqual_iff]
      omega
  have hnodup : ((inOrder vs).map Version.pair).Nodup :=
    ((inOrder_perm vs).map _).nodup_iff.mpr h
  exact (List.pairwise_map.mp hnodup).imp₂ (fun _ _ hne hle => Version.before_of_beforeOrEqual hle hne) hle

/-- The entries of the map are the versions. -/
structure Holds (m : MemTable) (vs : List Version) : Prop where
  entries : ∀ (k : InternalKey) (t : Tuple),
    m.entries[k]? = some t ↔ ∃ v ∈ vs, v.key m.name = k ∧ v.tuple = t
  distinct : (vs.map Version.pair).Nodup
  nonneg : ∀ v ∈ vs, 0 ≤ v.rowId

namespace Holds
variable {m : MemTable} {vs : List Version}

theorem create (name : Str) : Holds (.create name) [] where
  entries k t := by simp [MemTable.create]
  distinct := List.nodup_nil
  nonneg _ hv := by cases hv

theorem put (h : Holds m vs) {rowId : Int64} {t : Tuple} {seq : UInt64} (hrow : 0 ≤ rowId)
    (hnew : (rowId, seq) ∉ vs.map Version.pair) :
    Holds (m.put rowId t seq) (vs ++ [⟨rowId, seq, MemTable.normalize t⟩]) where
  entries k t' := by
    rw [MemTable.getElem?_put, h.entries]
    simp only [List.mem_append, List.mem_singleton, MemTable.put_name]
    constructor
    · rintro (⟨rfl, rfl⟩ | ⟨-, v, hv, hk, ht⟩)
      · exact ⟨_, .inr rfl, rfl, rfl⟩
      · exact ⟨v, .inl hv, hk, ht⟩
    · rintro ⟨v, hv | rfl, rfl, rfl⟩
      · refine .inr ⟨fun he => hnew ?_, v, hv, rfl, rfl⟩
        have hpair := Version.key_injective (v := v) (w := ⟨rowId, seq, MemTable.normalize t⟩) he
        exact List.mem_map.mpr ⟨v, hv, hpair⟩
      · exact .inl ⟨rfl, rfl⟩
  distinct := by
    rw [List.map_append, List.nodup_append]
    refine ⟨h.distinct, List.nodup_singleton _, fun p hp q hq he => hnew ?_⟩
    rw [List.map_singleton, List.mem_singleton] at hq
    rwa [← show q = (rowId, seq) from hq, ← he]
  nonneg v hv := by
    rcases List.mem_append.mp hv with hv | hv
    · exact h.nonneg v hv
    · rw [List.mem_singleton.mp hv]
      exact hrow

theorem eraseAllFor (h : Holds m vs) (rowId : Int64) :
    Holds (m.eraseAllFor rowId) (vs.filter fun v => v.rowId ≠ rowId) where
  entries k t := by
    rw [MemTable.getElem?_eraseAllFor, h.entries]
    simp only [List.mem_filter, decide_eq_true_eq, MemTable.eraseAllFor_name]
    have hkey (v : Version) :
        (v.key m.name).userKey = makeUserKey m.name rowId ↔ v.rowId = rowId :=
      ⟨makeUserKey_injective, fun he => congrArg (makeUserKey m.name) he⟩
    constructor
    · rintro ⟨⟨v, hv, rfl, rfl⟩, hne⟩
      exact ⟨v, ⟨hv, fun he => hne ((hkey v).mpr he)⟩, rfl, rfl⟩
    · rintro ⟨v, ⟨hv, hne⟩, rfl, rfl⟩
      exact ⟨⟨v, hv, rfl, rfl⟩, fun he => hne ((hkey v).mp he)⟩
  distinct := h.distinct.sublist (List.filter_sublist.map _)
  nonneg v hv := h.nonneg v (List.mem_of_mem_filter hv)

/-- The entry list is the list of the versions in order. -/
theorem toList_eq (h : Holds m vs) :
    m.entries.toList = (inOrder vs).map fun v => (v.key m.name, v.tuple) := by
  refine OrderedMap.eq_of_sorted Std.ExtTreeMap.ordered_keys_toList ?_ fun ⟨k, t⟩ => ?_
  · refine List.pairwise_map.mpr ((inOrder_sorted h.distinct).imp_of_mem fun hv _ hlt => ?_)
    exact hlt.compare (h.nonneg _ ((inOrder_perm vs).mem_iff.mp hv)) m.name
  · rw [Std.ExtTreeMap.mem_toList_iff_getElem?_eq_some, h.entries, List.mem_map]
    simp only [(inOrder_perm vs).mem_iff, Prod.mk.injEq]

theorem scanAll_eq (h : Holds m vs) : m.scanAll = (inOrder vs).map Version.tuple := by
  rw [MemTable.scanAll, h.toList_eq, List.map_map]
  rfl

theorem inRange_key (m : MemTable) (rowId : Int64) (v : Version) :
    MemTable.inRange (m.versionRange rowId).1 (m.versionRange rowId).2 (v.key m.name) =
      decide (v.rowId = rowId) := by
  rw [MemTable.inRange_versionRange, decide_eq_decide]
  exact ⟨makeUserKey_injective, fun he => congrArg (makeUserKey m.name) he⟩

theorem getVersions_eq (h : Holds m vs) (rowId : Int64) :
    m.getVersions rowId = ((inOrder vs).filter fun v => v.rowId = rowId).map Version.tuple := by
  have hversions : m.getVersions rowId = (m.entries.toList.filter fun p =>
      MemTable.inRange (m.versionRange rowId).1 (m.versionRange rowId).2 p.1).map Prod.snd := rfl
  rw [hversions, h.toList_eq, List.filter_map, List.map_map]
  simp only [Function.comp_def, inRange_key]

theorem scanAll_eraseAllFor (h : Holds m vs) (rowId : Int64) : (m.eraseAllFor rowId).scanAll =
    ((inOrder vs).filter fun v => v.rowId ≠ rowId).map Version.tuple := by
  have hscan : (m.eraseAllFor rowId).scanAll = (m.entries.filter fun k _ =>
      !MemTable.inRange (m.versionRange rowId).1 (m.versionRange rowId).2 k).toList.map Prod.snd :=
    rfl
  rw [hscan, Std.ExtTreeMap.toList_filter, h.toList_eq, List.filter_map, List.map_map]
  simp only [Function.comp_def, inRange_key, decide_not]

/-- The version of a row with the greatest sequence number comes first. -/
theorem getLatest_eq_some (h : Holds m vs) {v : Version} (hv : v ∈ vs)
    (hmax : ∀ w ∈ vs, w.rowId = v.rowId → w.seq ≤ v.seq) : m.getLatest v.rowId = some v.tuple := by
  have hmem : v ∈ (inOrder vs).filter fun w => w.rowId = v.rowId :=
    List.mem_filter.mpr ⟨(inOrder_perm vs).mem_iff.mpr hv, decide_eq_true rfl⟩
  have hsorted : ((inOrder vs).filter fun w => w.rowId = v.rowId).Pairwise Version.Before :=
    (inOrder_sorted h.distinct).sublist List.filter_sublist
  rw [MemTable.getLatest, h.getVersions_eq]
  obtain ⟨A, B, hsplit⟩ := List.append_of_mem hmem
  cases A with
  | nil =>
    rw [hsplit]
    rfl
  | cons a A =>
    have ha : a ∈ (inOrder vs).filter fun w => w.rowId = v.rowId := by
      rw [hsplit]
      exact List.mem_cons_self
    obtain ⟨ha, hrow⟩ := List.mem_filter.mp ha
    have hrow : a.rowId = v.rowId := of_decide_eq_true hrow
    have hle := hmax a ((inOrder_perm vs).mem_iff.mp ha) hrow
    rw [hsplit, List.cons_append] at hsorted
    rcases List.rel_of_pairwise_cons hsorted (List.mem_append_right A List.mem_cons_self) with
      hlt | ⟨-, hlt⟩
    · rw [hrow] at hlt
      exact absurd hlt (Int64.lt_irrefl)
    · exact absurd (UInt64.lt_of_lt_of_le hlt hle) (UInt64.lt_irrefl _)

theorem getLatest_eq_none (h : Holds m vs) {rowId : Int64} (hnone : ∀ v ∈ vs, v.rowId ≠ rowId) :
    m.getLatest rowId = none := by
  have hfilter : (inOrder vs).filter (fun v => v.rowId = rowId) = [] := by
    refine List.filter_eq_nil_iff.mpr fun v hv hrow => ?_
    exact hnone v ((inOrder_perm vs).mem_iff.mp hv) (of_decide_eq_true hrow)
  rw [MemTable.getLatest, h.getVersions_eq, hfilter]
  rfl

end Holds

/-! ### Runs -/

/-- A call of a writer, with the height that the skip list draws. -/
inductive VersionCall where
  | put (rowId : Int64) (t : Tuple) (seq : UInt64) (height : Fin SkipList.kMaxLevel)
  | eraseAllFor (rowId : Int64)

namespace VersionCall

def run (l : LinkedMemTable) : VersionCall → LinkedMemTable
  | put rowId t seq height => l.put rowId t seq height
  | eraseAllFor rowId => (l.eraseAllFor rowId).2

def runMap (m : MemTable) : VersionCall → MemTable
  | put rowId t seq _ => m.put rowId t seq
  | eraseAllFor rowId => m.eraseAllFor rowId

/-- The versions that are there after the call. -/
def surviving (vs : List Version) : VersionCall → List Version
  | put rowId t seq _ => vs ++ [⟨rowId, seq, MemTable.normalize t⟩]
  | eraseAllFor rowId => vs.filter fun v => v.rowId ≠ rowId

def pair : VersionCall → Option (Int64 × UInt64)
  | put rowId _ seq _ => some (rowId, seq)
  | eraseAllFor _ => none

variable {l : LinkedMemTable} {m : MemTable} {vs : List Version}

theorem mirrors_run (h : Mirrors l m) (c : VersionCall) : Mirrors (c.run l) (c.runMap m) := by
  cases c with
  | put rowId t seq height => exact h.put rowId t seq height
  | eraseAllFor rowId => exact (h.eraseAllFor rowId).2

theorem mirrors_foldl_run (h : Mirrors l m) (calls : List VersionCall) :
    Mirrors (calls.foldl run l) (calls.foldl runMap m) := by
  induction calls generalizing l m with
  | nil => exact h
  | cons c calls ih => exact ih (mirrors_run h c)

theorem holds_foldl_run (h : Holds m vs) {calls : List VersionCall}
    (hdistinct : (vs.map Version.pair ++ calls.filterMap pair).Nodup)
    (hnonneg : ∀ p ∈ calls.filterMap pair, 0 ≤ p.1) :
    Holds (calls.foldl runMap m) (calls.foldl surviving vs) := by
  induction calls generalizing m vs with
  | nil => exact h
  | cons c calls ih =>
    cases c with
    | put rowId t seq height =>
      have hcons : (put rowId t seq height :: calls).filterMap pair =
          (rowId, seq) :: calls.filterMap pair := rfl
      rw [hcons] at hdistinct hnonneg
      have hnew : (rowId, seq) ∉ vs.map Version.pair := fun hmem =>
        (List.nodup_append.mp hdistinct).2.2 _ hmem _ List.mem_cons_self rfl
      refine ih (h.put (hnonneg _ List.mem_cons_self) hnew) ?_ fun p hp =>
        hnonneg p (List.mem_cons_of_mem _ hp)
      rw [surviving, List.map_append, List.append_assoc]
      exact hdistinct
    | eraseAllFor rowId =>
      refine ih (h.eraseAllFor rowId) ?_ hnonneg
      exact hdistinct.sublist ((List.filter_sublist.map _).append_right _)

/-- The surviving versions, row by row and newest first, are what the table reads. -/
theorem reads_run (name : Str) (calls : List VersionCall)
    (hdistinct : (calls.filterMap pair).Nodup) (hnonneg : ∀ p ∈ calls.filterMap pair, 0 ≤ p.1) :
    ∃ vs : List Version, vs.Perm (calls.foldl surviving []) ∧ vs.Pairwise Version.Before ∧
      (calls.foldl run (.create name)).scanAll = vs.map Version.tuple ∧
      ∀ rowId,
        (calls.foldl run (.create name)).getVersions rowId =
            (vs.filter fun v => v.rowId = rowId).map Version.tuple ∧
          (∀ v ∈ vs, v.rowId = rowId → (∀ w ∈ vs, w.rowId = rowId → w.seq ≤ v.seq) →
            (calls.foldl run (.create name)).getLatest rowId = some v.tuple) ∧
          ((∀ v ∈ vs, v.rowId ≠ rowId) →
            (calls.foldl run (.create name)).getLatest rowId = none) ∧
          ((calls.foldl run (.create name)).eraseAllFor rowId).1 =
            (vs.filter fun v => v.rowId = rowId).length ∧
          ((calls.foldl run (.create name)).eraseAllFor rowId).2.scanAll =
            (vs.filter fun v => v.rowId ≠ rowId).map Version.tuple := by
  have hmirrors := mirrors_foldl_run (Mirrors.create name) calls
  have hholds : Holds _ (calls.foldl surviving []) :=
    holds_foldl_run (Holds.create name) hdistinct hnonneg
  set live := calls.foldl surviving []
  have hmem (v : Version) : v ∈ inOrder live ↔ v ∈ live := (inOrder_perm live).mem_iff
  refine ⟨inOrder live, inOrder_perm live, inOrder_sorted hholds.distinct, ?_, fun rowId =>
    ⟨?_, ?_, ?_, ?_, ?_⟩⟩
  · rw [hmirrors.scanAll_eq, hholds.scanAll_eq]
  · rw [hmirrors.getVersions_eq, hholds.getVersions_eq]
  · rintro v hv rfl hmax
    rw [hmirrors.getLatest_eq]
    exact hholds.getLatest_eq_some ((hmem v).mp hv) fun w hw => hmax w ((hmem w).mpr hw)
  · intro hnone
    rw [hmirrors.getLatest_eq]
    exact hholds.getLatest_eq_none fun v hv => hnone v ((hmem v).mpr hv)
  · rw [(hmirrors.eraseAllFor rowId).1, hholds.getVersions_eq, List.length_map]
  · rw [(hmirrors.eraseAllFor rowId).2.scanAll_eq, hholds.scanAll_eraseAllFor]

theorem reads_twoRows :
    let calls : List VersionCall :=
      [.put 7 default 1 ⟨2, by decide⟩, .put 3 default 2 ⟨0, by decide⟩,
        .put 7 default 18446744073709551615 ⟨19, by decide⟩, .eraseAllFor 3]
    ∃ vs : List Version, vs.Perm (calls.foldl surviving []) ∧ vs.Pairwise Version.Before ∧
      (calls.foldl run (.create [116])).scanAll = vs.map Version.tuple := by
  obtain ⟨vs, hperm, hsorted, hscan, -⟩ := reads_run [116]
    [.put 7 default 1 ⟨2, by decide⟩, .put 3 default 2 ⟨0, by decide⟩,
      .put 7 default 18446744073709551615 ⟨19, by decide⟩, .eraseAllFor 3]
    (by decide +kernel) (by simp [pair])
  exact ⟨vs, hperm, hsorted, hscan⟩

end VersionCall

end JiaMiaoDB
