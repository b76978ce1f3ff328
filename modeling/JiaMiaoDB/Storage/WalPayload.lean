import JiaMiaoDB.Storage.Tuple
import JiaMiaoDB.Storage.Wal

/-! The payload of each log record: rows, row changes, table columns and schema names. A payload
decodes only when all of it was read. -/

set_option autoImplicit false

namespace JiaMiaoDB
open ByteFormat BinaryRowCodec

abbrev PayloadReader (α : Type) := Reader Unit α

/-- Reads all of `bytes` or nothing. -/
def decodeAll {α : Type} (r : PayloadReader α) (bytes : Bytes) : Option α :=
  match (do let a ← r; readEnd (); pure a : PayloadReader α).run bytes with
  | (.ok a, _) => some a
  | (.error _, _) => none

theorem decodeAll_of_reads {α : Type} {r : PayloadReader α} {bytes : Bytes} {a : α}
    (h : Reads r bytes a) : decodeAll r bytes = some a := by
  rw [decodeAll, h.run_end ()]

/-- The bytes are read as `a`, and neither a part of them nor more than them is read at all. -/
structure DecodesExactly {α : Type} (decode : Bytes → Option α) (bytes : Bytes) (a : α) : Prop where
  whole : decode bytes = some a
  cut : ∀ front, front <+: bytes → front ≠ bytes → decode front = none
  longer : ∀ tail, tail ≠ [] → decode (bytes ++ tail) = none

theorem decodesExactly_of_reads {α : Type} {r : PayloadReader α} {bytes : Bytes} {a : α}
    (hr : Tight r) (h : Reads r bytes a) : DecodesExactly (decodeAll r) bytes a where
  whole := decodeAll_of_reads h
  cut front hfront hne := by
    rw [decodeAll]
    rcases hrun : r.run front with ⟨e | b, rest⟩
    · rw [Prog.bind_error hrun]
    · have hrest : rest ≠ [] := by
        intro hnil
        apply hne
        exact hr.isLocal.eq_of_prefix h hfront (hnil ▸ hrun)
      rw [Prog.bind_ok hrun, Prog.bind_error (run_readEnd_of_ne hrest ())]
  longer tail hne := by
    rw [decodeAll, Prog.bind_ok (h tail), Prog.bind_error (run_readEnd_of_ne hne ())]

/-! ### Rows -/

def encodeRowInto (row : Row) : Bytes :=
  putLE 4 row.toList.length ++ row.toList.flatMap columnBytes

def readEntry : PayloadReader (Str × Value) := do
  let key ← readPrefixed 2 ()
  let v ← readValue fun _ => ()
  pure (key, v)

/-- The first entry of a name wins. -/
def decodeRowFrom : PayloadReader Row := do
  let count ← readLE 4 ()
  let entries ← readMany readEntry count
  pure (entries.foldl (fun row p => row.insertIfNew p.1 p.2) ∅)

/-- No length field of the row wraps. -/
def RowFits (row : Row) : Prop :=
  row.size < 2 ^ 32 ∧ ∀ p ∈ row.toList, p.1.length < 2 ^ 16 ∧ p.2.Fits

theorem reads_entry {p : Str × Value} (hk : p.1.length < 2 ^ 16) (hv : p.2.Fits) :
    Reads readEntry (columnBytes p) p := by
  have hlast := (reads_value (fun _ => ()) hv).bind (f := fun v => pure (p.1, v))
    (Reads.pure (p.1, p.2))
  rw [List.append_nil] at hlast
  exact (Reads.prefixed () (n := 2) hk).bind hlast

theorem tight_value : Tight (readValue fun _ => ()) := by
  unfold readValue
  refine (Tight.le 1 ()).bind fun tag => ?_
  split
  · exact Tight.pure _
  · exact (Tight.le 8 ()).map _
  · exact (Tight.le 8 ()).map _
  · exact (Tight.le 1 ()).map _
  · exact (Tight.le 4 ()).bind fun len => (Tight.bytes len ()).map _
  · exact Tight.throw _

theorem tight_row : Tight decodeRowFrom := by
  unfold decodeRowFrom readEntry
  refine (Tight.le 4 ()).bind fun count => (Tight.many ?_ count).bind fun entries => Tight.pure _
  exact (Tight.prefixed 2 ()).bind fun key => tight_value.bind fun v => Tight.pure _

theorem foldl_insertIfNew_toList (row : Row) :
    row.toList.foldl (fun (m : Row) p => m.insertIfNew p.1 p.2) ∅ = row := by
  refine OrderedMap.foldl_toList (fun m p hp => Std.ExtTreeMap.ext_getElem? fun k => ?_) row
  rw [Std.ExtTreeMap.getElem?_insertIfNew, Std.ExtTreeMap.getElem?_insert]
  by_cases hk : compare p.1 k = .eq <;> simp [hk, hp]

theorem reads_row {row : Row} (h : RowFits row) : Reads decodeRowFrom (encodeRowInto row) row := by
  have hcount : row.toList.length < 256 ^ 4 := by
    rw [Std.ExtTreeMap.length_toList]
    exact h.1
  have hmany := (Reads.many (r := readEntry) (w := columnBytes) (l := row.toList)
    fun p hp => reads_entry (h.2 p hp).1 (h.2 p hp).2).bind
    (f := fun entries => pure (entries.foldl (fun (m : Row) p => m.insertIfNew p.1 p.2) ∅))
    (Reads.pure _)
  rw [List.append_nil, foldl_insertIfNew_toList] at hmany
  exact (Reads.le () hcount).bind hmany

def walEncodeRow (row : Row) : Bytes := encodeRowInto row

def walDecodeRow (bytes : Bytes) : Option Row := decodeAll decodeRowFrom bytes

/-! ### Row changes -/

structure InsertPayload where
  rowid : Int64
  row : Row

structure UpdatePayload where
  rowid : Int64
  updates : Row
  newRow : Row

/-- `xmax` is absent for a physical delete. -/
structure DeletePayload where
  rowid : Int64
  xmax : Option TransactionId

def putI64 (i : Int64) : Bytes := putLE 8 i.toUInt64.toNat

def readI64 : PayloadReader Int64 := (fun n => (UInt64.ofNat n).toInt64) <$> readLE 8 ()

theorem reads_i64 (i : Int64) : Reads readI64 (putI64 i) i := by
  have := (Reads.le (n := 8) () i.toUInt64.toNat_lt).map fun n => (UInt64.ofNat n).toInt64
  rwa [UInt64.ofNat_toNat, Int64.toInt64_toUInt64] at this

theorem tight_i64 : Tight readI64 := (Tight.le 8 ()).map _

def putU32 (x : UInt32) : Bytes := putLE 4 x.toNat

def readU32 : PayloadReader UInt32 := UInt32.ofNat <$> readLE 4 ()

theorem reads_u32 (x : UInt32) : Reads readU32 (putU32 x) x := by
  have := (Reads.le (n := 4) () x.toNat_lt).map UInt32.ofNat
  rwa [UInt32.ofNat_toNat] at this

theorem tight_u32 : Tight readU32 := (Tight.le 4 ()).map _

def putBool (b : Bool) : Bytes := [if b then 1 else 0]

def readBool : PayloadReader Bool := (· != 0) <$> readLE 1 ()

theorem reads_bool (b : Bool) : Reads readBool (putBool b) b := by
  have := (Reads.le (n := 1) () (v := if b then 1 else 0) (by split <;> decide)).map (· != 0)
  cases b <;> exact this

theorem tight_bool : Tight readBool := (Tight.le 1 ()).map _

def walEncodeEmpty : Bytes := []

def walEncodeInsert (p : InsertPayload) : Bytes := putI64 p.rowid ++ encodeRowInto p.row

def readInsert : PayloadReader InsertPayload := do
  let rowid ← readI64
  let row ← decodeRowFrom
  pure ⟨rowid, row⟩

def walDecodeInsert (bytes : Bytes) : Option InsertPayload := decodeAll readInsert bytes

def walEncodeUpdate (p : UpdatePayload) : Bytes :=
  putI64 p.rowid ++ (encodeRowInto p.updates ++ encodeRowInto p.newRow)

def readUpdate : PayloadReader UpdatePayload := do
  let rowid ← readI64
  let updates ← decodeRowFrom
  let newRow ← decodeRowFrom
  pure ⟨rowid, updates, newRow⟩

def walDecodeUpdate (bytes : Bytes) : Option UpdatePayload := decodeAll readUpdate bytes

def walEncodeDelete (p : DeletePayload) : Bytes :=
  putI64 p.rowid ++ (putBool p.xmax.isSome ++ match p.xmax with
    | some xmax => putU32 xmax
    | none => [])

def readDelete : PayloadReader DeletePayload := do
  let rowid ← readI64
  let hasXmax ← readBool
  if hasXmax then (fun xmax => ⟨rowid, some xmax⟩) <$> readU32 else pure ⟨rowid, none⟩

def walDecodeDelete (bytes : Bytes) : Option DeletePayload := decodeAll readDelete bytes

theorem reads_insert {p : InsertPayload} (h : RowFits p.row) :
    Reads readInsert (walEncodeInsert p) p := by
  have hlast := (reads_row h).bind (f := fun row => pure (⟨p.rowid, row⟩ : InsertPayload))
    (Reads.pure p)
  rw [List.append_nil] at hlast
  exact (reads_i64 p.rowid).bind hlast

theorem reads_update {p : UpdatePayload} (hu : RowFits p.updates) (hn : RowFits p.newRow) :
    Reads readUpdate (walEncodeUpdate p) p := by
  have hlast := (reads_row hn).bind
    (f := fun row => pure (⟨p.rowid, p.updates, row⟩ : UpdatePayload)) (Reads.pure p)
  rw [List.append_nil] at hlast
  exact (reads_i64 p.rowid).bind ((reads_row hu).bind hlast)

theorem reads_delete (p : DeletePayload) : Reads readDelete (walEncodeDelete p) p := by
  refine (reads_i64 p.rowid).bind ((reads_bool _).bind ?_)
  rcases p with ⟨rowid, xmax | xmax⟩
  · exact Reads.pure _
  · exact (reads_u32 xmax).map fun x => (⟨rowid, some x⟩ : DeletePayload)

theorem tight_insert : Tight readInsert := by
  unfold readInsert
  exact tight_i64.bind fun rowid => tight_row.bind fun row => Tight.pure _

theorem tight_update : Tight readUpdate := by
  unfold readUpdate
  exact tight_i64.bind fun rowid => tight_row.bind fun updates => tight_row.bind fun newRow =>
    Tight.pure _

theorem tight_delete : Tight readDelete := by
  unfold readDelete
  refine tight_i64.bind fun rowid => tight_bool.bind fun hasXmax => ?_
  split
  · exact tight_u32.map _
  · exact Tight.pure _

theorem walDecodeInsert_encode {p : InsertPayload} (h : RowFits p.row) :
    walDecodeInsert (walEncodeInsert p) = some p :=
  decodeAll_of_reads (reads_insert h)

theorem walDecodeDelete_encode (p : DeletePayload) :
    walDecodeDelete (walEncodeDelete p) = some p :=
  decodeAll_of_reads (reads_delete p)

/-! ### Tables and schemas -/

/-- A column on disk: the default value is not written. -/
def encodeColumnDef (c : ColumnDef) : Bytes :=
  putPrefixed 2 c.name ++ ([c.type.toTag] ++ (putBool c.nullable ++ putBool c.primaryKey))

def readColumnDef : PayloadReader ColumnDef := do
  let name ← readPrefixed 2 ()
  let tid ← readLE 1 ()
  let nullable ← readBool
  let pk ← readBool
  pure ⟨name, DataType.ofTag (UInt8.ofNat tid), nullable, pk, none⟩

/-- The column as it comes back. -/
def ColumnDef.withoutDefault (c : ColumnDef) : ColumnDef := { c with defaultValue := none }

theorem reads_columnDef {c : ColumnDef} (h : c.name.length < 2 ^ 16) :
    Reads readColumnDef (encodeColumnDef c) c.withoutDefault := by
  have htag : Reads (readLE 1 ()) [c.type.toTag] c.type.toTag.toNat := by
    have := Reads.le (n := 1) () c.type.toTag.toNat_lt
    simpa [putLE, Nat.mod_eq_of_lt c.type.toTag.toNat_lt] using this
  have hlast := (reads_bool c.primaryKey).bind
    (f := fun pk => pure (⟨c.name, DataType.ofTag (UInt8.ofNat c.type.toTag.toNat), c.nullable, pk,
      none⟩ : ColumnDef)) (Reads.pure _)
  rw [List.append_nil, UInt8.ofNat_toNat, DataType.ofTag_toTag] at hlast
  refine (Reads.prefixed () (n := 2) h).bind (htag.bind ((reads_bool c.nullable).bind ?_))
  simp only [UInt8.ofNat_toNat, DataType.ofTag_toTag]
  exact hlast

theorem tight_columnDef : Tight readColumnDef := by
  unfold readColumnDef
  exact (Tight.prefixed 2 ()).bind fun name => (Tight.le 1 ()).bind fun tid =>
    tight_bool.bind fun nullable => tight_bool.bind fun pk => Tight.pure _

def walEncodeCreateTable (columns : List ColumnDef) : Bytes :=
  putLE 4 columns.length ++ columns.flatMap encodeColumnDef

def walDecodeCreateTable (bytes : Bytes) : Option (List ColumnDef) :=
  decodeAll (do let n ← readLE 4 (); readMany readColumnDef n) bytes

def walEncodeCreateSchema (schema : Str) : Bytes := putPrefixed 2 schema

def walDecodeCreateSchema (bytes : Bytes) : Option Str := decodeAll (readPrefixed 2 ()) bytes

theorem reads_columnDefs {columns : List ColumnDef} (h : ∀ c ∈ columns, c.name.length < 2 ^ 16) :
    Reads (readMany readColumnDef columns.length) (columns.flatMap encodeColumnDef)
      (columns.map ColumnDef.withoutDefault) :=
  Reads.manyMap fun c hc => reads_columnDef (h c hc)

theorem walDecodeCreateTable_encode {columns : List ColumnDef} (hn : columns.length < 2 ^ 32)
    (h : ∀ c ∈ columns, c.name.length < 2 ^ 16) :
    walDecodeCreateTable (walEncodeCreateTable columns) =
      some (columns.map ColumnDef.withoutDefault) :=
  decodeAll_of_reads ((Reads.le () (n := 4) hn).bind (reads_columnDefs h))

/-! ### Every payload -/

/-- A column definition as the log holds it. -/
def ColumnDef.Logged (c : ColumnDef) : Prop := c.name.length < 2 ^ 16 ∧ c.defaultValue = none

theorem map_withoutDefault {columns : List ColumnDef} (h : ∀ c ∈ columns, c.Logged) :
    columns.map ColumnDef.withoutDefault = columns := by
  have hsame : ∀ c ∈ columns, c.withoutDefault = id c := by
    intro c hc
    rw [ColumnDef.withoutDefault, ← (h c hc).2]
    rfl
  rw [List.map_congr_left hsame, List.map_id]

/-- Each decoder accepts what its encoder wrote, and nothing shorter or longer. -/
theorem payloads_exact :
    (∀ row, RowFits row → DecodesExactly walDecodeRow (walEncodeRow row) row) ∧
    (∀ p : InsertPayload, RowFits p.row →
      DecodesExactly walDecodeInsert (walEncodeInsert p) p) ∧
    (∀ p : UpdatePayload, RowFits p.updates → RowFits p.newRow →
      DecodesExactly walDecodeUpdate (walEncodeUpdate p) p) ∧
    (∀ p : DeletePayload, DecodesExactly walDecodeDelete (walEncodeDelete p) p) ∧
    (∀ columns : List ColumnDef, columns.length < 2 ^ 32 → (∀ c ∈ columns, c.Logged) →
      DecodesExactly walDecodeCreateTable (walEncodeCreateTable columns) columns) ∧
    (∀ schema : Str, schema.length < 2 ^ 16 →
      DecodesExactly walDecodeCreateSchema (walEncodeCreateSchema schema) schema) := by
  refine ⟨fun row h => ?_, fun p h => ?_, fun p hu hn => ?_, fun p => ?_, fun columns hn h => ?_,
    fun schema h => ?_⟩
  · exact decodesExactly_of_reads tight_row (reads_row h)
  · exact decodesExactly_of_reads tight_insert (reads_insert h)
  · exact decodesExactly_of_reads tight_update (reads_update hu hn)
  · exact decodesExactly_of_reads tight_delete (reads_delete p)
  · have hcolumns := reads_columnDefs fun c hc => (h c hc).1
    rw [map_withoutDefault h] at hcolumns
    refine decodesExactly_of_reads ?_ ((Reads.le () (n := 4) hn).bind hcolumns)
    exact (Tight.le 4 ()).bind fun n => tight_columnDef.many n
  · exact decodesExactly_of_reads (Tight.prefixed 2 ()) (Reads.prefixed () h)

/-- An update that sets NULL, of a row with an empty text. -/
theorem update_exact : DecodesExactly walDecodeUpdate
    (walEncodeUpdate ⟨1, (∅ : Row).insert (str "a") .null, (∅ : Row).insert [] (.string [])⟩)
    ⟨1, (∅ : Row).insert (str "a") .null, (∅ : Row).insert [] (.string [])⟩ := by
  apply payloads_exact.2.2.1
  · exact ⟨by decide, by decide⟩
  · exact ⟨by decide, by decide⟩

end JiaMiaoDB
