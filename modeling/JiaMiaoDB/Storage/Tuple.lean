import JiaMiaoDB.Lib.OrderedMap
import JiaMiaoDB.Storage.Transaction

/-!
# Tuples and the binary row format

A tuple is a header with the row id and the transaction stamps, and a payload with the business
columns. The column count takes two bytes and is not checked, so a payload holds the first
`n % 65536` of `n` columns for a reader; `decode_encode` states this for every row.
-/

set_option autoImplicit false

namespace JiaMiaoDB
open ByteFormat

structure TupleHeader where
  rowId : UInt64
  xmin : TransactionId
  xmax : TransactionId
  cid : UInt32
  schemaHash : UInt16
  flags : UInt16
  payloadLen : UInt32
  crc32 : UInt32
deriving DecidableEq

structure Tuple where
  hdr : TupleHeader
  payload : Bytes
deriving DecidableEq

def fnv1a16 (s : Str) : UInt16 :=
  (s.foldl (fun (h : UInt32) c => (h ^^^ c.toUInt32) * 0x01000193) 0x811C9DC5).toUInt16

/-! ### Values, shared by the row format and the log payloads -/

def putValue : Value → Bytes
  | .null => [0]
  | .int i => 1 :: putLE 8 i.toUInt64.toNat
  | .double d => 2 :: putLE 8 d.bits.toNat
  | .bool b => [3, if b then 1 else 0]
  | .string s => 4 :: putPrefixed 4 s

/-- Where the reading of a value can fail. -/
inductive ValueError where
  | tag | int | double | bool | stringLength | stringBody | unknownTag (t : Nat)

def readValue {ε : Type} (err : ValueError → ε) : Reader ε Value := do
  let tag ← readLE 1 (err .tag)
  match tag with
  | 0 => pure .null
  | 1 => (fun n => .int (UInt64.ofNat n).toInt64) <$> readLE 8 (err .int)
  | 2 => (fun n => .double ⟨UInt64.ofNat n⟩) <$> readLE 8 (err .double)
  | 3 => (fun n => .bool (n != 0)) <$> readLE 1 (err .bool)
  | 4 => do
    let len ← readLE 4 (err .stringLength)
    .string <$> readBytes len (err .stringBody)
  | t => Prog.throw (err (.unknownTag t))

/-- A value whose length field does not wrap. -/
def Value.Fits : Value → Prop
  | .string s => s.length < 2 ^ 32
  | _ => True

instance (v : Value) : Decidable v.Fits := by
  cases v <;> unfold Value.Fits <;> infer_instance

theorem reads_value {ε : Type} (err : ValueError → ε) {v : Value} (h : v.Fits) :
    Reads (readValue err) (putValue v) v := by
  have tag (t : Nat) (ht : t < 256) : Reads (readLE 1 (err .tag)) [UInt8.ofNat (t % 256)] t :=
    Reads.le (n := 1) (err .tag) (by omega)
  cases v with
  | null => exact (tag 0 (by decide)).bind (Reads.pure Value.null)
  | int i =>
    have hn := Reads.le (n := 8) (err .int) i.toUInt64.toNat_lt
    have := hn.map fun n => Value.int (UInt64.ofNat n).toInt64
    simp only [UInt64.ofNat_toNat, Int64.toInt64_toUInt64] at this
    exact (tag 1 (by decide)).bind this
  | double d =>
    have hn := Reads.le (n := 8) (err .double) d.bits.toNat_lt
    have := hn.map fun n => Value.double ⟨UInt64.ofNat n⟩
    simp only [UInt64.ofNat_toNat] at this
    exact (tag 2 (by decide)).bind this
  | bool b =>
    have hn := Reads.le (n := 1) (err .bool) (v := if b then 1 else 0) (by split <;> decide)
    have := hn.map fun n => Value.bool (n != 0)
    have hb : Reads ((fun n => Value.bool (n != 0)) <$> readLE 1 (err .bool))
        [if b then 1 else 0] (.bool b) := by
      cases b <;> exact this
    exact (tag 3 (by decide)).bind hb
  | string s =>
    have hs : s.length < 256 ^ 4 := h
    exact (tag 4 (by decide)).bind
      ((Reads.le (err .stringLength) hs).bind ((Reads.bytes (err .stringBody) s).map Value.string))

/-! ### BinaryRowCodec -/

def systemColumns : List Str := [str "_rowid", str "_xmin", str "_xmax", str "_cid"]

/-- The columns that live in the header. -/
def isSystemColumn (name : Str) : Bool := systemColumns.contains name

/-- The business columns of a row. -/
def business (row : Row) : Row := row.filter fun name _ => !isSystemColumn name

namespace BinaryRowCodec

def error (text : String) : Failure := .runtimeError (str ("BinaryRowCodec: " ++ text))

def encodeColumn (name : Str) (v : Value) : Except Failure Bytes :=
  if 0xFFFF < name.length then
    .error (.runtimeError (str "BinaryRowCodec: column name too long: " ++ name))
  else match v with
    | .string s =>
      if 0xFFFFFFFF < s.length then .error (error "string value too long")
      else .ok (putPrefixed 2 name ++ putValue v)
    | _ => .ok (putPrefixed 2 name ++ putValue v)

def encodeColumns : List (Str × Value) → Except Failure Bytes
  | [] => .ok []
  | (name, v) :: rest => do
    let column ← encodeColumn name v
    let columns ← encodeColumns rest
    pure (column ++ columns)

/-- The count is kept modulo `2 ^ 16`. -/
def encode (row : Row) : Except Failure Bytes := do
  let columns := (business row).toList
  let body ← encodeColumns columns
  pure (putLE 2 columns.length ++ body)

def valueError : ValueError → Failure
  | .tag => error "missing type_tag"
  | .int => error "truncated i64"
  | .double => error "truncated f64"
  | .bool => error "truncated bool"
  | .stringLength => error "truncated string len"
  | .stringBody => error "truncated string body"
  | .unknownTag t => .runtimeError (str "BinaryRowCodec: unknown type_tag " ++ Binary64.decimal t)

def readColumn : Reader Failure (Str × Value) := do
  let len ← readLE 2 (error "truncated name_len")
  let name ← readBytes len (error "truncated name")
  let v ← readValue valueError
  pure (name, v)

/-- After the count at least two more bytes must follow, also when the count is zero. -/
def readRow : Reader Failure Row := do
  let ncols ← readLE 2 (error "truncated header")
  let rest ← Prog.get
  Prog.require (2 ≤ rest.length) (error "truncated header")
  let columns ← readMany readColumn ncols
  pure (columns.foldl (fun row p => row.insert p.1 p.2) ∅)

def decode (data : Bytes) : Except Failure Row :=
  if data.length < 2 then .ok ∅
  else
    (readRow.run data).1

/-- The header's fields as columns. -/
def withSystemColumns (row : Row) (hdr : TupleHeader) : Row :=
  (((row.insert (str "_rowid") (.int hdr.rowId.toInt64)).insert
    (str "_xmin") (.int hdr.xmin.toUInt64.toInt64)).insert
    (str "_xmax") (.int hdr.xmax.toUInt64.toInt64)).insert
    (str "_cid") (.int hdr.cid.toUInt64.toInt64)

def tupleToRow (t : Tuple) : Except Failure Row := do
  let row ← decode t.payload
  pure (withSystemColumns row t.hdr)

def rowToTuple (row : Row) (hdr : TupleHeader) : Except Failure Tuple := do
  let payload ← encode row
  pure ⟨{ hdr with payloadLen := UInt32.ofNat payload.length }, payload⟩

/-! #### Round trip -/

/-- A column that `encode` accepts. -/
def ColumnFits (p : Str × Value) : Prop := p.1.length ≤ 0xFFFF ∧ p.2.Fits

def columnBytes (p : Str × Value) : Bytes := putPrefixed 2 p.1 ++ putValue p.2

theorem encodeColumn_of_fits {p : Str × Value} (h : ColumnFits p) :
    encodeColumn p.1 p.2 = .ok (columnBytes p) := by
  rcases p with ⟨name, v⟩
  obtain ⟨hn, hv⟩ := h
  simp only [encodeColumn, Nat.not_lt.2 hn, if_false]
  cases v with
  | string s => simp [columnBytes, Nat.not_lt.2 (Nat.le_of_lt_succ (show s.length < 0xFFFFFFFF + 1 from hv))]
  | _ => rfl

theorem fits_of_encodeColumn {p : Str × Value} {bs : Bytes} (h : encodeColumn p.1 p.2 = .ok bs) :
    ColumnFits p ∧ bs = columnBytes p := by
  rcases p with ⟨name, v⟩
  simp only [encodeColumn] at h
  split at h
  · cases h
  have hn : name.length ≤ 0xFFFF := Nat.not_lt.1 ‹_›
  cases v with
  | string s =>
    simp only at h
    split at h
    · cases h
    cases h
    exact ⟨⟨hn, by simp only [Value.Fits]; omega⟩, rfl⟩
  | _ => cases h; exact ⟨⟨hn, trivial⟩, rfl⟩

theorem encodeColumns_ok_iff {columns : List (Str × Value)} {bs : Bytes} :
    encodeColumns columns = .ok bs ↔
      (∀ p ∈ columns, ColumnFits p) ∧ bs = columns.flatMap columnBytes := by
  induction columns generalizing bs with
  | nil => simp [encodeColumns, eq_comm]
  | cons p rest ih =>
    constructor
    · intro h
      simp only [encodeColumns] at h
      cases hp : encodeColumn p.1 p.2 with
      | error e => rw [hp] at h; cases h
      | ok column =>
        cases hr : encodeColumns rest with
        | error e => rw [hp, hr] at h; cases h
        | ok body =>
          rw [hp, hr] at h
          cases h
          obtain ⟨hfit, rfl⟩ := fits_of_encodeColumn hp
          obtain ⟨hrest, rfl⟩ := ih.1 hr
          exact ⟨List.forall_mem_cons.2 ⟨hfit, hrest⟩, by rw [List.flatMap_cons]⟩
    · rintro ⟨hfit, rfl⟩
      have hp := encodeColumn_of_fits (hfit p (by simp))
      have hr := ih.2 ⟨fun q hq => hfit q (by simp [hq]), rfl⟩
      simp only [encodeColumns, hp, hr]
      rfl

theorem encode_ok_iff {row : Row} {bs : Bytes} :
    encode row = .ok bs ↔ (∀ p ∈ (business row).toList, ColumnFits p) ∧
      bs = putLE 2 (business row).toList.length ++ (business row).toList.flatMap columnBytes := by
  constructor
  · intro h
    simp only [encode] at h
    cases hc : encodeColumns (business row).toList with
    | error e => rw [hc] at h; cases h
    | ok body =>
      rw [hc] at h
      cases h
      obtain ⟨hfit, rfl⟩ := encodeColumns_ok_iff.1 hc
      exact ⟨hfit, rfl⟩
  · rintro ⟨hfit, rfl⟩
    simp only [encode, encodeColumns_ok_iff.2 ⟨hfit, rfl⟩]
    rfl

theorem reads_column {p : Str × Value} (h : ColumnFits p) :
    Reads readColumn (columnBytes p) p := by
  have hlen : p.1.length < 256 ^ 2 := Nat.lt_succ_of_le h.1
  have hname := Reads.bytes (error "truncated name") p.1
  have hv := (reads_value valueError h.2).bind (f := fun v => pure (p.1, v)) (Reads.pure (p.1, p.2))
  have := (Reads.le (error "truncated name_len") hlen).bind
    (f := fun len => do
      let name ← readBytes len (error "truncated name")
      let v ← readValue valueError
      pure (name, v)) (hname.bind (f := fun name => do
        let v ← readValue valueError
        pure (name, v)) hv)
  rwa [List.append_nil, ← List.append_assoc] at this

theorem two_le_columnBytes (p : Str × Value) : 2 ≤ (columnBytes p).length := by
  simp only [columnBytes, putPrefixed, List.length_append, length_putLE]
  omega

/-- What a reader gets back: the first columns, as many as the count field says. -/
theorem decode_encode {row : Row} {bs : Bytes} (h : encode row = .ok bs)
    (hne : business row ≠ ∅) :
    decode bs = .ok (Std.ExtTreeMap.ofList
      ((business row).toList.take ((business row).size % 65536))) := by
  obtain ⟨hfit, rfl⟩ := encode_ok_iff.1 h
  generalize hcols : (business row).toList = cols at *
  have hsize : (business row).size = cols.length := by rw [← hcols, Std.ExtTreeMap.length_toList]
  rw [hsize]
  set n := cols.length % 65536 with hn
  have hrest : 2 ≤ (cols.flatMap columnBytes).length := by
    cases cols with
    | nil => exact absurd (Std.ExtTreeMap.toList_eq_nil_iff.1 hcols) hne
    | cons p ps =>
      rw [List.flatMap_cons, List.length_append]
      have := two_le_columnBytes p
      omega
  have hlen : (cols.take n).length = n := by
    rw [List.length_take, hn]
    exact Nat.min_eq_left (Nat.mod_le _ _)
  have hcount := Reads.leMod 2 cols.length (error "truncated header") (cols.flatMap columnBytes)
  rw [show 256 ^ 2 = 65536 from rfl, ← hn] at hcount
  have hmany := (Reads.many (r := readColumn) (w := columnBytes) (l := cols.take n)
    fun p hp => reads_column (hfit p (List.mem_of_mem_take hp))) ((cols.drop n).flatMap columnBytes)
  rw [← List.flatMap_append, List.take_append_drop, hlen] at hmany
  rw [decode, if_neg (by simp only [List.length_append, length_putLE]; omega), readRow,
    Prog.bind_ok hcount, Prog.bind_ok (Prog.run_get _),
    Prog.bind_ok (Prog.run_require_true hrest _), Prog.bind_ok hmany]
  exact congrArg Except.ok (OrderedMap.foldl_insert_eq_ofList _)

/-- A row of 1 to 65535 business columns comes back whole. -/
theorem decode_encode_of_size {row : Row} {bs : Bytes} (h : encode row = .ok bs)
    (hpos : 0 < (business row).size) (hlt : (business row).size < 65536) :
    decode bs = .ok (business row) := by
  have hne : business row ≠ ∅ := fun he => by rw [he] at hpos; simp at hpos
  rw [decode_encode h hne, Nat.mod_eq_of_lt hlt, ← Std.ExtTreeMap.length_toList, List.take_length,
    OrderedMap.ofList_toList]

/-- A multiple of 65536 columns comes back as no column at all. -/
theorem decode_encode_wrapped {row : Row} {bs : Bytes} (h : encode row = .ok bs)
    (hne : business row ≠ ∅) (hwrap : (business row).size % 65536 = 0) : decode bs = .ok ∅ := by
  rw [decode_encode h hne, hwrap]
  rfl

/-- A row without business columns is stored as two bytes, which `decode` refuses. -/
theorem decode_encode_empty {row : Row} {bs : Bytes} (h : encode row = .ok bs)
    (he : business row = ∅) : decode bs = .error (error "truncated header") := by
  obtain ⟨-, rfl⟩ := encode_ok_iff.1 h
  rw [he]
  rfl

end BinaryRowCodec
end JiaMiaoDB
