import JiaMiaoDB.Storage.DdlReplay
import JiaMiaoDB.Storage.StoredRow
import JiaMiaoDB.Storage.XidReuse
import Mathlib.Data.List.Induction

/-! Which checkpoints come back from their bytes as they were. Whatever a decoder yields has counts
and lengths that fit their fields and columns without defaults; the converse is the round trip. -/

set_option autoImplicit false

namespace JiaMiaoDB
open ByteFormat

/-! ### What the decoders yield -/

section Yields
variable {α : Type} {P : α → Prop} {r : PayloadReader α}

theorem yields_counted (h : Yields P r) :
    Yields (fun as => as.length < 2 ^ 32 ∧ ∀ a ∈ as, P a) (readCounted r) :=
  (Yields.le 4 ()).bind fun n hn => (h.many n).mono fun _ has => ⟨has.1 ▸ hn, has.2⟩

theorem yields_named (h : Yields P r) :
    Yields (fun p : Str × α => p.1.length < 2 ^ 16 ∧ P p.2) (readNamed r) :=
  (Yields.prefixed 2 ()).bind fun _ hname => h.bind fun _ ha => Yields.pure ⟨hname, ha⟩

theorem yields_section (h : Yields P r) : Yields (SectionFits P) (readNamed (readCounted r)) :=
  yields_named (yields_counted h)

end Yields

theorem yields_columnDef : Yields ColumnDef.Logged readColumnDef :=
  (Yields.prefixed 2 ()).bind fun _ hname => (Yields.any _).bind fun _ _ =>
    (Yields.any _).bind fun _ _ => (Yields.any _).bind fun _ _ => Yields.pure ⟨hname, rfl⟩

theorem yields_table :
    Yields (fun t : TableSchema => t.Fits ∧ WithoutDefaults t.columns) readTable :=
  (Yields.prefixed 2 ()).bind fun _ hname => (yields_counted yields_columnDef).bind fun _ hcols =>
    (Yields.any _).bind fun _ _ => Yields.pure
      ⟨⟨hname, hcols.1, fun c hc => (hcols.2 c hc).1⟩, fun c hc => (hcols.2 c hc).2⟩

theorem yields_decodeRowFrom : Yields RowFits decodeRowFrom := by
  have hentry : Yields (fun p : Str × Value => p.1.length < 2 ^ 16 ∧ p.2.Fits) readEntry :=
    (Yields.prefixed 2 ()).bind fun _ hkey => (yields_value _).bind fun _ hv =>
      Yields.pure ⟨hkey, hv⟩
  refine (Yields.le 4 ()).bind fun n hn => (hentry.many n).bind fun entries hentries => ?_
  have hsize := OrderedMap.size_foldl_le
    (f := fun (row : Row) q => row.insertIfNew q.1 q.2)
    (fun _ _ => Std.ExtTreeMap.size_insertIfNew_le) entries
  refine Yields.pure ⟨by omega, fun p hp => hentries.2 p ?_⟩
  exact OrderedMap.mem_toList_foldl (fun _ _ _ => OrderedMap.mem_toList_insertIfNew) hp

theorem yields_rowEntry : Yields (fun p : Int64 × Row => RowFits p.2) readRowEntry :=
  (Yields.any _).bind fun _ _ => yields_decodeRowFrom.bind fun _ hrow => Yields.pure hrow

theorem yields_index : Yields IndexInfo.Fits readIndex := by
  have hentry : Yields (SectionFits fun _ : Int64 => True) (readNamed (readCounted readI64)) :=
    yields_section (Yields.any _)
  refine (Yields.prefixed 2 ()).bind fun column hcolumn =>
    (yields_counted hentry).bind fun entries hentries => ?_
  have hsize := OrderedMap.size_foldl_le
    (f := fun (m : StrMap (List Int64)) q => m.insert q.1 q.2)
    (fun _ _ => Std.ExtTreeMap.size_insert_le) entries
  refine Yields.pure ⟨hcolumn, by simp only; omega, fun p hp => ?_⟩
  have hmem := OrderedMap.mem_toList_foldl (fun _ _ _ => OrderedMap.mem_toList_insert) hp
  exact ⟨(hentries.2 p hmem).1, (hentries.2 p hmem).2.1⟩

/-! ### Joined sections -/

section Sections
variable {α β : Type}

theorem joinSections_concat (sections : List (Str × List α)) (p : Str × List α) :
    joinSections (sections ++ [p]) =
      (joinSections sections).insert p.1 ((joinSections sections).getD p.1 [] ++ p.2) := by
  rw [joinSections, List.foldl_append]
  rfl

theorem size_joinSections_le (sections : List (Str × List α)) :
    (joinSections sections).size ≤ sections.length :=
  OrderedMap.size_foldl_le (fun _ _ => Std.ExtTreeMap.size_insert_le) sections

/-- As many names as sections: no two sections were joined. -/
theorem mem_of_size_joinSections {sections : List (Str × List α)}
    (hsize : sections.length ≤ (joinSections sections).size) {q : Str × List α}
    (hq : q ∈ (joinSections sections).toList) : q ∈ sections := by
  induction sections using List.reverseRecOn with
  | nil =>
    rw [joinSections, List.foldl_nil, Std.ExtTreeMap.mem_toList_iff_getElem?_eq_some,
      Std.ExtTreeMap.getElem?_empty] at hq
    cases hq
  | append_singleton sections p ih =>
    have hle := size_joinSections_le sections
    rw [joinSections_concat] at hsize hq
    rw [List.length_append, List.length_singleton, Std.ExtTreeMap.size_insert] at hsize
    split at hsize
    · omega
    · next hfresh =>
      rw [Std.ExtTreeMap.getD_eq_fallback hfresh, List.nil_append] at hq
      rw [List.mem_append, List.mem_singleton]
      exact (OrderedMap.mem_toList_insert hq).imp_left (ih (by omega))

/-- The count of a section is cut to four bytes, and as many items are read. -/
theorem length_of_counted {r : PayloadReader α} {w : β → Bytes} {items : List β} {as : List α}
    {rest s' : Bytes} (h : (readCounted r).run (putCounted w items ++ rest) = (.ok as, s')) :
    as.length = items.length % 2 ^ 32 := by
  rw [putCounted, List.append_assoc, readCounted,
    Prog.bind_ok (Reads.leMod 4 items.length () _)] at h
  exact ((Yields.any r).many _ |>.of_run h).1

/-- A map that is its own sections joined was written with all its counts. -/
theorem fits_of_joinSections {P : α → Prop} {sections : List (Str × List α)}
    {m : StrMap (List α)} (hjoin : joinSections sections = m)
    (hlen : sections.length = m.toList.length % 2 ^ 32) (h : ∀ p ∈ sections, SectionFits P p) :
    m.size < 2 ^ 32 ∧ ∀ p ∈ m.toList, SectionFits P p := by
  have hle := size_joinSections_le sections
  rw [hjoin] at hle
  rw [Std.ExtTreeMap.length_toList] at hlen
  refine ⟨by omega, fun p hp => h p ?_⟩
  refine mem_of_size_joinSections ?_ (hjoin ▸ hp)
  rw [hjoin]
  omega

end Sections

/-! ### The parts of a checkpoint -/

variable {ckp : Checkpoint}

theorem length_toList_lt {ν : Type} {m : StrMap ν} (h : m.size < 2 ^ 32) :
    m.toList.length < 2 ^ 32 := by
  rwa [Std.ExtTreeMap.length_toList]

/-- The shared part is read as it was written only if it fits and no column has a default, and
then to its end. The parts are taken one after the other: each one that fits is read to its end, so
the reader stands at the next. -/
theorem fits_of_commonSegments {base out : Checkpoint} {tail s' : Bytes}
    (h : (readCommonSegments base).run (commonSegments ckp ++ tail) = (.ok out, s'))
    (htables : out.tables = ckp.tables) (hrows : out.tableRows = ckp.tableRows)
    (hcounters : out.rowIdCounters = ckp.rowIdCounters)
    (hindexes : out.indexesData = ckp.indexesData) :
    (ckp.tables.length < 2 ^ 32 ∧ ∀ t ∈ ckp.tables, t.Fits) ∧
    (∀ t ∈ ckp.tables, WithoutDefaults t.columns) ∧
    (ckp.tableRows.size < 2 ^ 32 ∧
      ∀ p ∈ ckp.tableRows.toList, SectionFits (fun r => RowFits r.2) p) ∧
    (ckp.rowIdCounters.size < 2 ^ 32 ∧ ∀ p ∈ ckp.rowIdCounters.toList, p.1.length < 2 ^ 16) ∧
    (ckp.indexesData.size < 2 ^ 32 ∧
      ∀ p ∈ ckp.indexesData.toList, SectionFits IndexInfo.Fits p) := by
  rw [readCommonSegments] at h
  obtain ⟨tables, s₁, hrun₁, h⟩ := Prog.exists_of_bind_ok h
  obtain ⟨rows, s₂, hrun₂, h⟩ := Prog.exists_of_bind_ok h
  obtain ⟨counters, s₃, hrun₃, h⟩ := Prog.exists_of_bind_ok h
  obtain ⟨indexes, s₄, hrun₄, h⟩ := Prog.exists_of_bind_ok h
  cases h
  dsimp only at htables hrows hcounters hindexes
  rw [commonSegments, List.append_assoc] at hrun₁
  have hfit₁ := (yields_counted yields_table).of_run hrun₁
  rw [htables] at hfit₁
  have hread₁ := reads_counted (r := readTable) (w := tableBytes) hfit₁.1
    fun t ht => reads_table (hfit₁.2 t ht).1
  rw [hread₁] at hrun₁
  cases hrun₁
  rw [List.append_assoc] at hrun₂
  have hfit₂ := fits_of_joinSections hrows (length_of_counted hrun₂)
    ((yields_counted (yields_section yields_rowEntry)).of_run hrun₂).2
  have hread₂ := reads_counted_self (r := readNamed (readCounted readRowEntry))
    (w := tableRowsBytes) (length_toList_lt hfit₂.1)
    fun p hp => reads_section (hfit₂.2 p hp) fun _ hr => reads_rowEntry hr
  rw [hread₂] at hrun₂
  cases hrun₂
  rw [List.append_assoc] at hrun₃
  have hyield₃ := (yields_counted (yields_named (Yields.any readI64))).of_run hrun₃
  have hfit₃ : ckp.rowIdCounters.size < 2 ^ 32 ∧
      ∀ p ∈ ckp.rowIdCounters.toList, p.1.length < 2 ^ 16 := by
    have hsize := OrderedMap.size_foldl_le (f := fun (m : StrMap Int64) p => m.insert p.1 p.2)
      (fun _ _ => Std.ExtTreeMap.size_insert_le) counters
    rw [hcounters] at hsize
    refine ⟨by omega, fun p hp => (hyield₃.2 p ?_).1⟩
    rw [← hcounters] at hp
    exact OrderedMap.mem_toList_foldl (fun _ _ _ => OrderedMap.mem_toList_insert) hp
  have hread₃ := reads_counted_self (r := readNamed readI64) (w := counterBytes)
    (length_toList_lt hfit₃.1) fun p hp => reads_named (hfit₃.2 p hp) (reads_i64 p.2)
  rw [hread₃] at hrun₃
  cases hrun₃
  have hfit₄ := fits_of_joinSections hindexes (length_of_counted hrun₄)
    ((yields_counted (yields_section yields_index)).of_run hrun₄).2
  exact ⟨⟨hfit₁.1, fun t ht => (hfit₁.2 t ht).1⟩, fun t ht => (hfit₁.2 t ht).2, hfit₂, hfit₃,
    hfit₄⟩

theorem yields_clogBytes (base : Checkpoint) :
    Yields (fun out : Checkpoint => out.clogBytes = base.clogBytes) (readCommonSegments base) :=
  (Yields.any _).bind fun _ _ => (Yields.any _).bind fun _ _ => (Yields.any _).bind fun _ _ =>
    (Yields.any _).bind fun _ _ => Yields.pure rfl

/-! ### The whole checkpoint -/

theorem withoutDefaults_eq_self (h : ∀ t ∈ ckp.tables, WithoutDefaults t.columns) :
    ckp.withoutDefaults = ckp := by
  have hsame : ∀ t ∈ ckp.tables, t.withoutDefaults = id t := by
    intro t ht
    rw [TableSchema.withoutDefaults, (h t ht).map_eq]
    rfl
  rw [Checkpoint.withoutDefaults, List.map_congr_left hsame, List.map_id]

theorem run_of_decodeAll {α : Type} {r : PayloadReader α} {bytes : Bytes} {a : α}
    (h : decodeAll r bytes = some a) : ∃ rest, r.run bytes = (.ok a, rest) := by
  unfold decodeAll at h
  split at h
  · next b rest hrun =>
    cases h
    obtain ⟨a', s, hread, hrest⟩ := Prog.exists_of_bind_ok hrun
    obtain ⟨_, s', -, hpure⟩ := Prog.exists_of_bind_ok hrest
    cases hpure
    exact ⟨s, hread⟩
  · cases h

/-- The current version: a section without the binary magic is JSON text. -/
theorem withBlobs_current {base out : Checkpoint} {clogBlob catalogBlob s s' : Bytes}
    (h : (withBlobs 3 base clogBlob catalogBlob).run s = (.ok out, s')) :
    out = { base with catalogBytes := catalogBlob, clogBytes := clogBlob } ∨
      ∃ j, out = { base with catalogBytes := catalogBlob, clogEntries := j } := by
  rw [withBlobs, if_pos rfl] at h
  split at h
  · cases h
    exact .inl rfl
  · obtain ⟨j, s₁, -, h⟩ := Prog.exists_of_bind_ok h
    cases h
    exact .inr ⟨j, rfl⟩

/-- A checkpoint that its own bytes are read as. -/
theorem fits_of_decode {out : Checkpoint × Bytes × Bytes} (hb : ckp.Binary)
    (h : checkpointDecode (checkpointEncode ckp) = some out) (heq : out.1 = ckp) :
    ckp.Fits ∧ ∀ t ∈ ckp.tables, WithoutDefaults t.columns := by
  obtain ⟨rest, hrun⟩ := run_of_decodeAll h
  rw [readCheckpoint, checkpointEncode] at hrun
  rw [Prog.bind_ok (Reads.le () (n := 4) (v := 3) (by decide) _),
    Prog.bind_ok (Prog.run_require_true (.inl rfl) _), Prog.bind_ok (reads_i64 ckp.version _),
    Prog.bind_ok (reads_i64 ckp.lastSeq _), Prog.bind_ok (reads_i64 ckp.timestamp _),
    Prog.bind_ok (reads_u32 ckp.nextXid _)] at hrun
  obtain ⟨common, s₁, hcommon, hrun⟩ := Prog.exists_of_bind_ok hrun
  obtain ⟨clogBlob, s₂, hclog, hrun⟩ := Prog.exists_of_bind_ok hrun
  obtain ⟨catalogBlob, s₃, hcatalog, hrun⟩ := Prog.exists_of_bind_ok hrun
  obtain ⟨whole, s₄, hblobs, hrun⟩ := Prog.exists_of_bind_ok hrun
  cases hrun
  dsimp only at heq
  subst heq
  have hclogFits := (Yields.prefixed 4 ()).of_run hclog
  have hcatalogFits := (Yields.prefixed 4 ()).of_run hcatalog
  rcases withBlobs_current hblobs with hwhole | ⟨j, hwhole⟩
  · obtain ⟨htables, hdefaults, hrows, hcounters, hindexes⟩ := fits_of_commonSegments hcommon
      (by rw [hwhole]) (by rw [hwhole]) (by rw [hwhole]) (by rw [hwhole])
    refine ⟨⟨htables, hrows, hcounters, hindexes, ?_, ?_⟩, hdefaults⟩
    · rw [hwhole]
      exact hclogFits
    · rw [hwhole]
      exact hcatalogFits
  · have hnone := (yields_clogBytes _).of_run hcommon
    exact absurd (by rw [hwhole]; exact hnone) hb.clog_ne_nil

theorem checkpointDecode_encode_iff (hb : ckp.Binary) (hclog : ckp.clogEntries = .null)
    (hcatalog : ckp.catalogData = .null) :
    (checkpointDecode (checkpointEncode ckp)).map (·.1) = some ckp ↔
      ckp.Fits ∧ ∀ t ∈ ckp.tables, WithoutDefaults t.columns := by
  constructor
  · intro h
    obtain ⟨out, hout, heq⟩ := Option.map_eq_some_iff.mp h
    exact fits_of_decode hb hout heq
  · rintro ⟨hfits, hdefaults⟩
    rw [checkpointDecode_encode hfits hb, withoutDefaults_eq_self hdefaults, Option.map_some]
    cases ckp
    cases hclog
    cases hcatalog
    rfl

namespace StorageEngine
variable {e : StorageEngine}

theorem noJson_toCheckpoint (h : e.toCheckpoint = .ok ckp) :
    ckp.clogEntries = .null ∧ ckp.catalogData = .null := by
  rw [toCheckpoint] at h
  obtain ⟨rows, -, h⟩ := ExceptList.bind_ok_iff.1 h
  cases h
  exact ⟨rfl, rfl⟩

/-- A checkpoint of an engine comes back from its bytes as it was exactly when every count and
every length fits its field and no column has a default value. -/
theorem checkpoint_roundTrip_iff (h : e.toCheckpoint = .ok ckp) :
    (checkpointDecode (checkpointEncode ckp)).map (·.1) = some ckp ↔
      ckp.Fits ∧ ∀ t ∈ ckp.tables, WithoutDefaults t.columns :=
  checkpointDecode_encode_iff (binary_toCheckpoint h) (noJson_toCheckpoint h).1
    (noJson_toCheckpoint h).2

/-- A table with one row. -/
theorem checkpoint_roundTrip_row : ∃ ckp, checkpointedEngine.toCheckpoint = .ok ckp ∧
    (checkpointDecode (checkpointEncode ckp)).map (·.1) = some ckp := by
  have hok : checkpointedEngine.toCheckpoint.isOk = true := by decide +kernel
  cases hckp : checkpointedEngine.toCheckpoint with
  | error f =>
    rw [hckp] at hok
    cases hok
  | ok ckp =>
    have hfits := storable_checkpointedEngine.fits.file ckp hckp
    have hdefaults : checkpointedEngine.toCheckpoint.toOption.all (fun ckp =>
        decide (∀ t ∈ ckp.tables, ∀ c ∈ t.columns, c.defaultValue = none)) = true := by
      decide +kernel
    exact ⟨ckp, rfl, (checkpoint_roundTrip_iff hckp).mpr
      ⟨hfits, ExceptList.of_all_ok hdefaults hckp⟩⟩

/-- A new engine and a table whose column has a default. -/
def defaultedEngine : StorageEngine :=
  ((Call.createTable (str "t") [⟨str "a", .integer, true, false, some (.int 5)⟩]).exec.run
    (create Disk.empty 0 0)).2

theorem checkpoint_loses_default :
    ((Call.createTable (str "t") [⟨str "a", .integer, true, false, some (.int 5)⟩]).exec.run
      (create Disk.empty 0 0)).1 = .ok () ∧
    ∃ ckp, defaultedEngine.toCheckpoint = .ok ckp ∧
      (checkpointDecode (checkpointEncode ckp)).map (·.1) ≠ some ckp := by
  have hok : defaultedEngine.toCheckpoint.isOk = true := by decide +kernel
  refine ⟨by decide +kernel, ?_⟩
  cases hckp : defaultedEngine.toCheckpoint with
  | error f =>
    rw [hckp] at hok
    cases hok
  | ok ckp =>
    refine ⟨ckp, rfl, fun h => ?_⟩
    have hchanged : defaultedEngine.toCheckpoint.toOption.all (fun ckp =>
        decide ((checkpointDecode (checkpointEncode ckp)).map (·.1.tables) ≠ some ckp.tables)) =
          true := by
      decide +kernel
    have hne := ExceptList.of_all_ok hchanged hckp
    have heq := congrArg (Option.map Checkpoint.tables) h
    rw [Option.map_map] at heq
    exact hne heq

end StorageEngine
end JiaMiaoDB
