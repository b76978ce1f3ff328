import JiaMiaoDB.Storage.CatalogCodec

/-!
# Checkpoints

A checkpoint file is a magic number and the binary form of the whole state; files without the magic
are read as the old JSON form. Any file that cannot be read counts as an empty checkpoint.
-/

set_option autoImplicit false

namespace JiaMiaoDB
open ByteFormat

structure Checkpoint where
  version : Int64
  lastSeq : Int64
  timestamp : Int64
  tables : List TableSchema
  tableRows : StrMap (List (Int64 × Row))
  rowIdCounters : StrMap Int64
  indexesData : StrMap (List IndexInfo)
  nextXid : TransactionId
  clogEntries : Json
  catalogData : Json
  catalogBytes : Bytes
  clogBytes : Bytes

def Checkpoint.empty : Checkpoint where
  version := 1
  lastSeq := 0
  timestamp := 0
  tables := []
  tableRows := ∅
  rowIdCounters := ∅
  indexesData := ∅
  nextXid := FirstNormalTransactionId
  clogEntries := .null
  catalogData := .null
  catalogBytes := []
  clogBytes := []

/-! ### Binary form -/

def tableBytes (t : TableSchema) : Bytes :=
  putPrefixed 2 t.name ++ (putLE 4 t.columns.length ++ (t.columns.flatMap encodeColumnDef ++
    putI64 t.rowCount))

def rowBytes (p : Int64 × Row) : Bytes := putI64 p.1 ++ encodeRowInto p.2

def tableRowsBytes (p : Str × List (Int64 × Row)) : Bytes :=
  putPrefixed 2 p.1 ++ (putLE 4 p.2.length ++ p.2.flatMap rowBytes)

def counterBytes (p : Str × Int64) : Bytes := putPrefixed 2 p.1 ++ putI64 p.2

def entryBytes (p : Str × List Int64) : Bytes :=
  putPrefixed 2 p.1 ++ (putLE 4 p.2.length ++ p.2.flatMap putI64)

def encodeIndex (idx : IndexInfo) : Bytes :=
  putPrefixed 2 idx.column ++
    (putLE 4 idx.entries.toList.length ++ idx.entries.toList.flatMap entryBytes)

def tableIndexesBytes (p : Str × List IndexInfo) : Bytes :=
  putPrefixed 2 p.1 ++ (putLE 4 p.2.length ++ p.2.flatMap encodeIndex)

/-- A count in four bytes and the items. -/
def putCounted {β : Type} (enc : β → Bytes) (items : List β) : Bytes :=
  putLE 4 items.length ++ items.flatMap enc

/-- The part that both format versions share. -/
def commonSegments (ckp : Checkpoint) : Bytes :=
  putCounted tableBytes ckp.tables ++ (putCounted tableRowsBytes ckp.tableRows.toList ++
    (putCounted counterBytes ckp.rowIdCounters.toList ++
      putCounted tableIndexesBytes ckp.indexesData.toList))

/-- The binary section, or the text of the JSON section when there is no binary one. -/
def blob (bytes : Bytes) (j : Json) : Bytes :=
  if bytes ≠ [] then bytes else if j.isNull then [] else j.dump

def checkpointEncode (ckp : Checkpoint) : Bytes :=
  putLE 4 3 ++ (putI64 ckp.version ++ (putI64 ckp.lastSeq ++ (putI64 ckp.timestamp ++
    (putU32 ckp.nextXid ++ (commonSegments ckp ++
      (putPrefixed 4 (blob ckp.clogBytes ckp.clogEntries) ++
        putPrefixed 4 (blob ckp.catalogBytes ckp.catalogData)))))))

def readCounted {α : Type} (r : PayloadReader α) : PayloadReader (List α) := do
  let n ← readLE 4 ()
  readMany r n

def readTable : PayloadReader TableSchema := do
  let name ← readPrefixed 2 ()
  let columns ← readCounted readColumnDef
  let rowCount ← readI64
  pure ⟨name, columns, rowCount⟩

def readRowEntry : PayloadReader (Int64 × Row) := do
  let rid ← readI64
  let row ← decodeRowFrom
  pure (rid, row)

def readNamed {α : Type} (r : PayloadReader α) : PayloadReader (Str × α) := do
  let name ← readPrefixed 2 ()
  let a ← r
  pure (name, a)

def readIndex : PayloadReader IndexInfo := do
  let column ← readPrefixed 2 ()
  let entries ← readCounted (readNamed (readCounted readI64))
  pure ⟨column, entries.foldl (fun m p => m.insert p.1 p.2) ∅⟩

/-- Sections of one name are joined. -/
def joinSections {α : Type} (sections : List (Str × List α)) : StrMap (List α) :=
  sections.foldl (fun m p => m.insert p.1 (m.getD p.1 [] ++ p.2)) ∅

def readCommonSegments (ckp : Checkpoint) : PayloadReader Checkpoint := do
  let tables ← readCounted readTable
  let rows ← readCounted (readNamed (readCounted readRowEntry))
  let counters ← readCounted (readNamed readI64)
  let indexes ← readCounted (readNamed (readCounted readIndex))
  pure { ckp with
    tables := tables
    tableRows := joinSections rows
    rowIdCounters := counters.foldl (fun m p => m.insert p.1 p.2) ∅
    indexesData := joinSections indexes }

/-- JSON text that must parse when it is not empty. -/
def requireJson (text : Str) : PayloadReader Json :=
  if text = [] then pure .null
  else match Json.parse text with
    | .ok j => pure j
    | .error _ => Prog.throw ()

/-- The sections after the shared part, by format version. A section of the current version without
the binary magic is old JSON text. -/
def withBlobs (fmt : Nat) (ckp : Checkpoint) (clogBlob catalogBlob : Bytes) :
    PayloadReader Checkpoint :=
  if fmt = 3 then
    if clogMagic.isPrefixOf clogBlob then
      pure { ckp with catalogBytes := catalogBlob, clogBytes := clogBlob }
    else do
      let j ← requireJson clogBlob
      pure { ckp with catalogBytes := catalogBlob, clogEntries := j }
  else do
    let catalogData ← requireJson catalogBlob
    let clogEntries ← requireJson clogBlob
    pure { ckp with catalogData := catalogData, clogEntries := clogEntries }

/-- The checkpoint with the raw text of its two last sections. -/
def readCheckpoint : PayloadReader (Checkpoint × Bytes × Bytes) := do
  let fmt ← readLE 4 ()
  Prog.require (fmt = 3 ∨ fmt = 2) ()
  let version ← readI64
  let lastSeq ← readI64
  let timestamp ← readI64
  let nextXid ← readU32
  let ckp ← readCommonSegments { Checkpoint.empty with
    version := version, lastSeq := lastSeq, timestamp := timestamp, nextXid := nextXid }
  let clogBlob ← readPrefixed 4 ()
  let catalogBlob ← readPrefixed 4 ()
  let ckp ← withBlobs fmt ckp clogBlob catalogBlob
  pure (ckp, clogBlob, catalogBlob)

def checkpointDecode (bytes : Bytes) : Option (Checkpoint × Bytes × Bytes) :=
  decodeAll readCheckpoint bytes

/-! ### Legacy JSON form -/

def jsonToValue : Json → Option Value
  | .null => some .null
  | .int i => some (.int i)
  | .float d => some (.double d)
  | .bool b => some (.bool b)
  | .string s => some (.string s)
  | .array _ | .object _ => none

def jsonToRow (j : Json) : Row :=
  j.members.foldl (fun row p => match jsonToValue p.2 with
    | some v => row.insert p.1 v
    | none => row) ∅

def columnFromJson (j : Json) : Except Failure ColumnDef := do
  let name ← (j.get (str "name")).getString
  pure {
    name := name, type := DataType.ofName (j.valueString (str "type") (str "TEXT"))
    nullable := j.valueBool (str "nullable") true
    primaryKey := j.valueBool (str "primary_key") false, defaultValue := none }

def tableFromJson (j : Json) : Except Failure TableSchema := do
  let name ← (j.get (str "name")).getString
  let columns ← (j.get (str "columns")).items.mapM columnFromJson
  pure ⟨name, columns, j.valueInt (str "row_count") 0⟩

def rowIdOf (row : Row) : Int64 :=
  match row[str "_rowid"]? with
  | some (.int v) => v
  | _ => 0

def rowsFromJson (j : Json) : List (Int64 × Row) :=
  j.items.map fun jr => (rowIdOf (jsonToRow jr), jsonToRow jr)

def indexFromJson (j : Json) : Except Failure IndexInfo := do
  let column ← (j.get (str "column")).getString
  let entries ← (j.get (str "entries")).members.mapM fun p => do
    let ids ← p.2.items.mapM Json.getInt
    pure (p.1, ids)
  pure ⟨column, entries.foldl (fun m p => m.insert p.1 p.2) ∅⟩

def Checkpoint.fromJson (j : Json) : Except Failure Checkpoint := do
  let tables ← (j.get (str "tables")).items.mapM tableFromJson
  let rows := (j.get (str "data")).members.map fun p => (p.1, rowsFromJson p.2)
  let counters ← (j.get (str "row_id_counters")).members.mapM fun p => do
    let v ← p.2.getInt
    pure (p.1, v)
  let indexes ← (j.get (str "indexes")).members.mapM fun p => do
    let idxs ← p.2.items.mapM indexFromJson
    pure (p.1, idxs)
  let nextXid ← if j.contains (str "next_xid") then
      (fun (v : Int64) => v.toUInt64.toUInt32) <$> (j.get (str "next_xid")).getInt
    else pure FirstNormalTransactionId
  pure { Checkpoint.empty with
    version := j.valueInt (str "version") 1
    lastSeq := j.valueInt (str "last_seq") 0
    timestamp := j.valueInt (str "timestamp") 0
    tables := tables
    tableRows := joinSections (rows.filter fun p => !p.2.isEmpty)
    rowIdCounters := counters.foldl (fun m p => m.insert p.1 p.2) ∅
    indexesData := joinSections (indexes.filter fun p => !p.2.isEmpty)
    nextXid := nextXid
    clogEntries := j.get (str "clog")
    catalogData := j.get (str "catalog") }

/-! ### Files -/

namespace CheckpointManager

/-- `JMDB`, the control character 0x1c that the source's escape sequence denotes, `KP` and 1. -/
def magic : Bytes := [0x4A, 0x4D, 0x44, 0x42, 0x1C, 0x4B, 0x50, 0x01]

def save (ckp : Checkpoint) : Bytes := magic ++ checkpointEncode ckp

def parseOrNull (text : Str) : Json := (Json.parse text).toOption.getD .null

/-- The text of an embedded section that is not empty is parsed again, also when it is binary. -/
def reparse (text : Str) (j : Json) : Json := if text = [] then j else parseOrNull text

def ofJsonText (text : Str) : Checkpoint :=
  match Json.parse text >>= Checkpoint.fromJson with
  | .ok ckp => ckp
  | .error _ => Checkpoint.empty

def ofFile (all : Bytes) : Checkpoint :=
  if all.length < magic.length then Checkpoint.empty
  else if magic.isPrefixOf all then
    match checkpointDecode (all.drop magic.length) with
    | none => Checkpoint.empty
    | some (ckp, clogJson, catalogJson) => { ckp with
        clogEntries := reparse clogJson ckp.clogEntries
        catalogData := reparse catalogJson ckp.catalogData }
  else ofJsonText all

/-- `checkpoint.bin`, or else the older `checkpoint.json`. -/
def load (checkpointBin checkpointJson : Option Bytes) : Checkpoint :=
  match checkpointBin, checkpointJson with
  | some all, _ => ofFile all
  | none, some text => ofJsonText text
  | none, none => Checkpoint.empty

end CheckpointManager
end JiaMiaoDB
