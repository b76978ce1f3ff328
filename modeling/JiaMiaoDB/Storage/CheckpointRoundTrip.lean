import JiaMiaoDB.Storage.Checkpoint

/-! A checkpoint whose counts and lengths fit their fields is read back from its file; only the
default values of the columns are lost. -/

set_option autoImplicit false

namespace JiaMiaoDB
open ByteFormat

/-! ### What fits -/

def TableSchema.Fits (t : TableSchema) : Prop :=
  t.name.length < 2 ^ 16 ∧ t.columns.length < 2 ^ 32 ∧ ∀ c ∈ t.columns, c.name.length < 2 ^ 16

def IndexInfo.Fits (idx : IndexInfo) : Prop :=
  idx.column.length < 2 ^ 16 ∧ idx.entries.size < 2 ^ 32 ∧
    ∀ p ∈ idx.entries.toList, p.1.length < 2 ^ 16 ∧ p.2.length < 2 ^ 32

/-- A named section of items. -/
def SectionFits {α : Type} (P : α → Prop) (p : Str × List α) : Prop :=
  p.1.length < 2 ^ 16 ∧ p.2.length < 2 ^ 32 ∧ ∀ a ∈ p.2, P a

structure Checkpoint.Fits (ckp : Checkpoint) : Prop where
  tables : ckp.tables.length < 2 ^ 32 ∧ ∀ t ∈ ckp.tables, t.Fits
  tableRows : ckp.tableRows.size < 2 ^ 32 ∧
    ∀ p ∈ ckp.tableRows.toList, SectionFits (fun r => RowFits r.2) p
  rowIdCounters : ckp.rowIdCounters.size < 2 ^ 32 ∧
    ∀ p ∈ ckp.rowIdCounters.toList, p.1.length < 2 ^ 16
  indexesData : ckp.indexesData.size < 2 ^ 32 ∧
    ∀ p ∈ ckp.indexesData.toList, SectionFits IndexInfo.Fits p
  clogBytes : ckp.clogBytes.length < 2 ^ 32
  catalogBytes : ckp.catalogBytes.length < 2 ^ 32

instance {α : Type} {P : α → Prop} [DecidablePred P] (p : Str × List α) :
    Decidable (SectionFits P p) := by
  unfold SectionFits
  infer_instance

instance (row : Row) : Decidable (RowFits row) := by
  unfold RowFits
  infer_instance

instance (t : TableSchema) : Decidable t.Fits := by
  unfold TableSchema.Fits
  infer_instance

instance (idx : IndexInfo) : Decidable idx.Fits := by
  unfold IndexInfo.Fits
  infer_instance

instance (ckp : Checkpoint) : Decidable ckp.Fits :=
  decidable_of_iff ((ckp.tables.length < 2 ^ 32 ∧ ∀ t ∈ ckp.tables, t.Fits) ∧
    (ckp.tableRows.size < 2 ^ 32 ∧
      ∀ p ∈ ckp.tableRows.toList, SectionFits (fun r : Int64 × Row => RowFits r.2) p) ∧
    (ckp.rowIdCounters.size < 2 ^ 32 ∧ ∀ p ∈ ckp.rowIdCounters.toList, p.1.length < 2 ^ 16) ∧
    (ckp.indexesData.size < 2 ^ 32 ∧ ∀ p ∈ ckp.indexesData.toList, SectionFits IndexInfo.Fits p) ∧
    ckp.clogBytes.length < 2 ^ 32 ∧ ckp.catalogBytes.length < 2 ^ 32)
    ⟨fun ⟨h₁, h₂, h₃, h₄, h₅, h₆⟩ => ⟨h₁, h₂, h₃, h₄, h₅, h₆⟩,
      fun ⟨h₁, h₂, h₃, h₄, h₅, h₆⟩ => ⟨h₁, h₂, h₃, h₄, h₅, h₆⟩⟩

def TableSchema.withoutDefaults (t : TableSchema) : TableSchema :=
  { t with columns := t.columns.map ColumnDef.withoutDefault }

def Checkpoint.withoutDefaults (ckp : Checkpoint) : Checkpoint :=
  { ckp with tables := ckp.tables.map TableSchema.withoutDefaults }

/-! ### Readers of the sections -/

section Sections
variable {α β : Type}

theorem reads_counted {r : PayloadReader α} {w : β → Bytes} {g : β → α} {items : List β}
    (hn : items.length < 2 ^ 32) (h : ∀ b ∈ items, Reads r (w b) (g b)) :
    Reads (readCounted r) (putCounted w items) (items.map g) :=
  (Reads.le () (n := 4) hn).bind (Reads.manyMap h)

theorem reads_counted_self {r : PayloadReader α} {w : α → Bytes} {items : List α}
    (hn : items.length < 2 ^ 32) (h : ∀ a ∈ items, Reads r (w a) a) :
    Reads (readCounted r) (putCounted w items) items := by
  have := reads_counted (g := id) hn h
  rwa [List.map_id] at this

theorem reads_named {r : PayloadReader α} {w : α → Bytes} {p : Str × α}
    (hn : p.1.length < 2 ^ 16) (h : Reads r (w p.2) p.2) :
    Reads (readNamed r) (putPrefixed 2 p.1 ++ w p.2) p :=
  (Reads.prefixed () (n := 2) hn).bind h.bindPure

theorem reads_section {r : PayloadReader α} {w : α → Bytes} {P : α → Prop}
    {p : Str × List α} (h : SectionFits P p) (hr : ∀ a, P a → Reads r (w a) a) :
    Reads (readNamed (readCounted r)) (putPrefixed 2 p.1 ++ putCounted w p.2) p :=
  reads_named h.1 (reads_counted_self h.2.1 fun a ha => hr a (h.2.2 a ha))

/-- The sections of a map have distinct names, so joining them gives the map back. -/
theorem joinSections_toList (m : StrMap (List α)) : joinSections m.toList = m :=
  OrderedMap.foldl_toList (fun m p hp => by
    rw [Std.ExtTreeMap.getD_eq_fallback hp, List.nil_append]) m

end Sections

theorem reads_table {t : TableSchema} (h : t.Fits) :
    Reads readTable (tableBytes t) t.withoutDefaults := by
  have hcols := reads_counted (r := readColumnDef) (w := encodeColumnDef) h.2.1
    fun c hc => reads_columnDef (h.2.2 c hc)
  have hlast := (reads_i64 t.rowCount).bindPure
    (g := fun n => (⟨t.name, t.columns.map ColumnDef.withoutDefault, n⟩ : TableSchema))
  have := (Reads.prefixed () (n := 2) h.1).bind (f := fun name => do
    let columns ← readCounted readColumnDef
    let rowCount ← readI64
    pure (⟨name, columns, rowCount⟩ : TableSchema)) (hcols.bind hlast)
  rwa [putCounted, List.append_assoc] at this

theorem reads_rowEntry {p : Int64 × Row} (h : RowFits p.2) : Reads readRowEntry (rowBytes p) p :=
  (reads_i64 p.1).bind (reads_row h).bindPure

theorem reads_index {idx : IndexInfo} (h : idx.Fits) : Reads readIndex (encodeIndex idx) idx := by
  have hn : idx.entries.toList.length < 2 ^ 32 := by
    rw [Std.ExtTreeMap.length_toList]
    exact h.2.1
  have hentries := reads_counted_self (r := readNamed (readCounted readI64)) (w := entryBytes) hn
    fun p hp => reads_section (P := fun _ => True)
      ⟨(h.2.2 p hp).1, (h.2.2 p hp).2, fun _ _ => trivial⟩ fun i _ => reads_i64 i
  have hlast := hentries.bindPure
    (g := fun es => (⟨idx.column, es.foldl (fun m p => m.insert p.1 p.2) ∅⟩ : IndexInfo))
  rw [OrderedMap.foldl_toList fun _ _ _ => rfl] at hlast
  exact (Reads.prefixed () (n := 2) h.1).bind hlast

theorem reads_commonSegments {ckp : Checkpoint} (h : ckp.Fits) (base : Checkpoint) :
    Reads (readCommonSegments base) (commonSegments ckp) { base with
      tables := ckp.tables.map TableSchema.withoutDefaults
      tableRows := ckp.tableRows
      rowIdCounters := ckp.rowIdCounters
      indexesData := ckp.indexesData } := by
  have hsize {ν : Type} {m : StrMap ν} (hm : m.size < 2 ^ 32) : m.toList.length < 2 ^ 32 := by
    rwa [Std.ExtTreeMap.length_toList]
  have htables := reads_counted (r := readTable) (w := tableBytes) h.tables.1
    fun t ht => reads_table (h.tables.2 t ht)
  have hrows := reads_counted_self (r := readNamed (readCounted readRowEntry))
    (w := tableRowsBytes) (hsize h.tableRows.1)
    fun p hp => reads_section (h.tableRows.2 p hp) fun _ hr => reads_rowEntry hr
  have hcounters := reads_counted_self (r := readNamed readI64) (w := counterBytes)
    (hsize h.rowIdCounters.1)
    fun p hp => reads_named (h.rowIdCounters.2 p hp) (reads_i64 p.2)
  have hindexes := (reads_counted_self (r := readNamed (readCounted readIndex))
    (w := tableIndexesBytes) (hsize h.indexesData.1)
    fun p hp => reads_section (h.indexesData.2 p hp) fun _ hi => reads_index hi).bindPure
    (g := fun indexes => ({ base with
      tables := ckp.tables.map TableSchema.withoutDefaults
      tableRows := joinSections ckp.tableRows.toList
      rowIdCounters := ckp.rowIdCounters.toList.foldl (fun m p => m.insert p.1 p.2) ∅
      indexesData := joinSections indexes } : Checkpoint))
  simp only [joinSections_toList,
    OrderedMap.foldl_toList (f := fun (m : StrMap Int64) p => m.insert p.1 p.2) fun _ _ _ => rfl]
    at hindexes
  have hall := htables.bind (f := fun tables => do
    let rows ← readCounted (readNamed (readCounted readRowEntry))
    let counters ← readCounted (readNamed readI64)
    let indexes ← readCounted (readNamed (readCounted readIndex))
    pure ({ base with
      tables := tables
      tableRows := joinSections rows
      rowIdCounters := counters.foldl (fun m p => m.insert p.1 p.2) ∅
      indexesData := joinSections indexes } : Checkpoint)) (hrows.bind (hcounters.bind (by
        simp only [joinSections_toList, OrderedMap.foldl_toList
          (f := fun (m : StrMap Int64) p => m.insert p.1 p.2) fun _ _ _ => rfl]
        exact hindexes)))
  exact hall

/-! ### The file -/

/-- The two binary sections as `checkpoint` fills them. -/
structure Checkpoint.Binary (ckp : Checkpoint) : Prop where
  clog : clogMagic.isPrefixOf ckp.clogBytes = true
  catalog : ckp.catalogBytes ≠ []

theorem Checkpoint.Binary.clog_ne_nil {ckp : Checkpoint} (h : ckp.Binary) : ckp.clogBytes ≠ [] :=
  fun he => by simpa [he, clogMagic] using h.clog

theorem reads_checkpoint {ckp : Checkpoint} (h : ckp.Fits) (hb : ckp.Binary) :
    Reads readCheckpoint (checkpointEncode ckp)
      ({ ckp.withoutDefaults with clogEntries := .null, catalogData := .null },
        ckp.clogBytes, ckp.catalogBytes) := by
  set out : Checkpoint :=
    { ckp.withoutDefaults with clogEntries := .null, catalogData := .null } with hout
  have hclog : blob ckp.clogBytes ckp.clogEntries = ckp.clogBytes := if_pos hb.clog_ne_nil
  have hcat : blob ckp.catalogBytes ckp.catalogData = ckp.catalogBytes := if_pos hb.catalog
  have hblobs (base : Checkpoint) : withBlobs 3 base ckp.clogBytes ckp.catalogBytes =
      pure { base with catalogBytes := ckp.catalogBytes, clogBytes := ckp.clogBytes } := by
    rw [withBlobs, if_pos rfl, if_pos hb.clog]
  intro rest
  rw [readCheckpoint, checkpointEncode, hclog, hcat]
  simp only [List.append_assoc]
  rw [Prog.bind_ok (Reads.le () (n := 4) (v := 3) (by decide) _),
    Prog.bind_ok (Prog.run_require_true (.inl rfl) _), Prog.bind_ok (reads_i64 ckp.version _),
    Prog.bind_ok (reads_i64 ckp.lastSeq _), Prog.bind_ok (reads_i64 ckp.timestamp _),
    Prog.bind_ok (reads_u32 ckp.nextXid _), Prog.bind_ok (reads_commonSegments h _ _),
    Prog.bind_ok (Reads.prefixed () (n := 4) h.clogBytes _),
    Prog.bind_ok (Reads.prefixed () (n := 4) h.catalogBytes _), hblobs]
  rfl

theorem checkpointDecode_encode {ckp : Checkpoint} (h : ckp.Fits) (hb : ckp.Binary) :
    checkpointDecode (checkpointEncode ckp) =
      some ({ ckp.withoutDefaults with clogEntries := .null, catalogData := .null },
        ckp.clogBytes, ckp.catalogBytes) :=
  decodeAll_of_reads (reads_checkpoint h hb)

/-- A saved checkpoint as it is loaded: the binary sections are also tried as JSON text. -/
def Checkpoint.reloaded (ckp : Checkpoint) : Checkpoint :=
  { ckp.withoutDefaults with
    clogEntries := CheckpointManager.parseOrNull ckp.clogBytes
    catalogData := CheckpointManager.parseOrNull ckp.catalogBytes }

theorem CheckpointManager.ofFile_save {ckp : Checkpoint} (h : ckp.Fits) (hb : ckp.Binary) :
    ofFile (save ckp) = ckp.reloaded := by
  have hmagic : magic.isPrefixOf (save ckp) = true := by
    rw [List.isPrefixOf_iff_prefix]
    exact List.prefix_append _ _
  have hdrop : (save ckp).drop magic.length = checkpointEncode ckp := List.drop_left
  rw [ofFile, if_neg (by rw [save, List.length_append]; omega), if_pos hmagic, hdrop,
    checkpointDecode_encode h hb]
  simp only [reparse, if_neg hb.clog_ne_nil, if_neg hb.catalog]
  rfl

end JiaMiaoDB
