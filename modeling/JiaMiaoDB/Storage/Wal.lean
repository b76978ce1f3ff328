import JiaMiaoDB.Types

/-!
# Write-ahead log

A record is length-prefixed and closed by a CRC. Reading a log file stops at the first record that
is cut off and skips to the next magic number after a record that fails its check.
-/

set_option autoImplicit false

namespace JiaMiaoDB
open ByteFormat

inductive WalOp where
  | unknown | insert | update | delete | xactCommit | xactAbort | createTable | dropTable
  | createDatabase | dropDatabase | createSchema | createUser | dropUser
deriving DecidableEq

namespace WalOp

def toTag : WalOp → UInt16
  | unknown => 0 | insert => 1 | update => 2 | delete => 3 | xactCommit => 4 | xactAbort => 5
  | createTable => 6 | dropTable => 7 | createDatabase => 8 | dropDatabase => 9
  | createSchema => 10 | createUser => 11 | dropUser => 12

/-- A tag without an enumerator takes the default branch of every switch. -/
def ofTag (t : UInt16) : WalOp :=
  match t with
  | 1 => insert | 2 => update | 3 => delete | 4 => xactCommit | 5 => xactAbort
  | 6 => createTable | 7 => dropTable | 8 => createDatabase | 9 => dropDatabase
  | 10 => createSchema | 11 => createUser | 12 => dropUser | _ => unknown

@[simp] theorem ofTag_toTag (op : WalOp) : ofTag op.toTag = op := by cases op <;> rfl

end WalOp

/-! ### CRC-32 -/

def crcEntry : Nat → UInt32 → UInt32
  | 0, c => c
  | k + 1, c => crcEntry k (if c &&& 1 = 1 then (0xEDB88320 : UInt32) ^^^ (c >>> 1) else c >>> 1)

/-- One entry of the table. -/
def crc32Table (i : UInt32) : UInt32 := crcEntry 8 i

def crc32Update (crc : UInt32) (b : UInt8) : UInt32 :=
  crc32Table ((crc ^^^ b.toUInt32) &&& 0xFF) ^^^ (crc >>> 8)

def crc32Compute (data : Bytes) : UInt32 := data.foldl crc32Update 0xFFFFFFFF ^^^ 0xFFFFFFFF

/-! ### Records -/

structure WALRecordV3 where
  seq : Int64
  timestamp : Int64
  op : UInt16
  table : Str
  xid : UInt32
  data : Bytes
deriving DecidableEq

namespace WALRecordV3

/-- `JMDB`. -/
def magic : Bytes := [0x4A, 0x4D, 0x44, 0x42]

def version : Nat := 3

/-- Everything before the CRC. A table name past 65535 bytes is written whole after a length that
wraps. -/
def body (r : WALRecordV3) : Bytes :=
  magic ++ (putLE 2 version ++ (putLE 2 r.op.toNat ++ (putLE 8 r.seq.toUInt64.toNat ++
    (putLE 8 r.timestamp.toUInt64.toNat ++ (putPrefixed 2 r.table ++ (putLE 4 r.xid.toNat ++
      putPrefixed 4 r.data))))))

def encode (r : WALRecordV3) : Bytes := r.body ++ putLE 4 (crc32Compute r.body).toNat

/-- The two ways a record is not returned. -/
inductive DecodeError where
  | incomplete | crcFailed
deriving DecidableEq

/-- Checks that as many bytes are left. -/
def need (n : Nat) : Reader DecodeError Unit := do
  let rest ← Prog.get
  Prog.require (n ≤ rest.length) .incomplete

def decodeBody : Reader DecodeError WALRecordV3 := do
  need 26
  let m ← readBytes 4 .incomplete
  Prog.require (m = magic) .crcFailed
  let v ← readLE 2 .incomplete
  Prog.require (v = version) .crcFailed
  let op ← readLE 2 .incomplete
  let seq ← readLE 8 .incomplete
  let ts ← readLE 8 .incomplete
  let tlen ← readLE 2 .incomplete
  need (tlen + 4 + 4)
  let table ← readBytes tlen .incomplete
  let xid ← readLE 4 .incomplete
  let dlen ← readLE 4 .incomplete
  need (dlen + 4)
  let data ← readBytes dlen .incomplete
  pure {
    seq := (UInt64.ofNat seq).toInt64, timestamp := (UInt64.ofNat ts).toInt64
    op := UInt16.ofNat op, table := table, xid := UInt32.ofNat xid, data := data }

/-- A record at the front of `buf` and what follows it. -/
def decode (buf : Bytes) : Except DecodeError (WALRecordV3 × Bytes) :=
  match decodeBody.run buf with
  | (.error e, _) => .error e
  | (.ok r, rest) =>
    match (readLE 4 DecodeError.incomplete).run rest with
    | (.error e, _) => .error e
    | (.ok stored, rest') =>
      if (crc32Compute (buf.take (buf.length - rest.length))).toNat ≠ stored then
        .error .crcFailed
      else .ok (r, rest')

end WALRecordV3

/-! ### Files -/

open WALRecordV3

/-- The next place where the magic number stands. -/
def findMagic : Bytes → Option Bytes
  | [] => none
  | b :: rest => if magic.isPrefixOf (b :: rest) then some (b :: rest) else findMagic rest

/-- The records of a file from some position on. Each round moves forward, so the length of the
file is enough fuel. -/
def scanRecords : Nat → Bytes → List WALRecordV3
  | 0, _ => []
  | fuel + 1, buf =>
    if buf.isEmpty then []
    else match decode buf with
      | .error .incomplete => []
      | .error .crcFailed =>
        match findMagic buf.tail with
        | none => []
        | some buf' => scanRecords fuel buf'
      | .ok (r, rest) => r :: scanRecords fuel rest

/-- All valid records of a log file; a file that does not start with the magic has none. -/
def readLog (file : Bytes) : List WALRecordV3 :=
  if magic.isPrefixOf file then scanRecords (file.length + 1) file else []

def encodeLog (records : List WALRecordV3) : Bytes := records.flatMap WALRecordV3.encode

/-! ### Reading back what was written -/

namespace WALRecordV3

/-- The length fields of the record do not wrap. -/
def Fits (r : WALRecordV3) : Prop := r.table.length < 2 ^ 16 ∧ r.data.length < 2 ^ 32

instance (r : WALRecordV3) : Decidable r.Fits := by unfold Fits; infer_instance

theorem need_ok {n : Nat} {bs : Bytes} (h : n ≤ bs.length) : (need n).run bs = (.ok (), bs) := by
  rw [need, Prog.bind_ok (Prog.run_get bs), Prog.run_require_true h]

theorem length_body (r : WALRecordV3) : r.body.length = 34 + r.table.length + r.data.length := by
  simp only [body, putPrefixed, List.length_append, length_putLE, magic, List.length_cons,
    List.length_nil]
  omega

theorem decodeBody_body {r : WALRecordV3} (h : r.Fits) (tail : Bytes) (ht : 4 ≤ tail.length) :
    decodeBody.run (r.body ++ tail) = (.ok r, tail) := by
  have hlen := r.length_body
  have htab : r.table.length < 256 ^ 2 := h.1
  have hdat : r.data.length < 256 ^ 4 := h.2
  have le {n v : Nat} (hv : v < 256 ^ n) (rest : Bytes) :
      (readLE n DecodeError.incomplete).run (putLE n v ++ rest) = (.ok v, rest) := Reads.le _ hv rest
  have bytes (bs rest : Bytes) :
      (readBytes bs.length DecodeError.incomplete).run (bs ++ rest) = (.ok bs, rest) :=
    Reads.bytes _ bs rest
  have hmagic (rest : Bytes) :
      (readBytes 4 DecodeError.incomplete).run (magic ++ rest) = (.ok magic, rest) := bytes magic rest
  rw [decodeBody, Prog.bind_ok (need_ok (by rw [List.length_append]; omega))]
  simp only [body, putPrefixed, List.append_assoc]
  rw [Prog.bind_ok (hmagic _), Prog.bind_ok (Prog.run_require_true rfl _),
    Prog.bind_ok (le (by decide) _), Prog.bind_ok (Prog.run_require_true rfl _),
    Prog.bind_ok (le r.op.toNat_lt _), Prog.bind_ok (le r.seq.toUInt64.toNat_lt _),
    Prog.bind_ok (le r.timestamp.toUInt64.toNat_lt _), Prog.bind_ok (le htab _),
    Prog.bind_ok (need_ok (by simp only [List.length_append, length_putLE]; omega)),
    Prog.bind_ok (bytes r.table _), Prog.bind_ok (le r.xid.toNat_lt _), Prog.bind_ok (le hdat _),
    Prog.bind_ok (need_ok (by simp only [List.length_append]; omega)), Prog.bind_ok (bytes r.data _)]
  simp only [UInt64.ofNat_toNat, Int64.toInt64_toUInt64, UInt16.ofNat_toNat, UInt32.ofNat_toNat]
  rfl

/-- A record whose lengths fit, closed by any check sum. -/
theorem decode_body {r : WALRecordV3} (h : r.Fits) (stored : UInt32) (rest : Bytes) :
    decode (r.body ++ (putLE 4 stored.toNat ++ rest)) =
      if crc32Compute r.body = stored then .ok (r, rest) else .error .crcFailed := by
  have hb := decodeBody_body h (putLE 4 stored.toNat ++ rest)
    (by simp only [List.length_append, length_putLE]; omega)
  have hc : (readLE 4 DecodeError.incomplete).run (putLE 4 stored.toNat ++ rest) =
      (.ok stored.toNat, rest) := Reads.le _ stored.toNat_lt rest
  rw [decode, hb]
  simp only [hc]
  rw [List.length_append, Nat.add_sub_cancel, List.take_left]
  by_cases heq : crc32Compute r.body = stored
  · rw [if_pos heq, if_neg (not_not.2 (congrArg UInt32.toNat heq))]
  · rw [if_neg heq, if_pos fun h => heq (UInt32.toNat_inj.1 h)]

/-- A whole record is read back, whatever follows. -/
theorem decode_encode {r : WALRecordV3} (h : r.Fits) (rest : Bytes) :
    decode (r.encode ++ rest) = .ok (r, rest) := by
  rw [encode, List.append_assoc, decode_body h, if_pos rfl]

theorem encode_ne_nil (r : WALRecordV3) : r.encode ≠ [] := by
  simp [encode, body, magic]

theorem magic_isPrefixOf_encode (r : WALRecordV3) (rest : Bytes) :
    magic.isPrefixOf (r.encode ++ rest) = true := by
  simp [encode, body, magic, List.isPrefixOf]

theorem need_short {n : Nat} {bs : Bytes} (h : bs.length < n) :
    (need n).run bs = (.error .incomplete, bs) := by
  rw [need, Prog.bind_ok (Prog.run_get bs), Prog.run_require_false (by omega)]

/-- A proper prefix of a record is reported as cut off. -/
theorem decode_take_encode {r : WALRecordV3} (h : r.Fits) {n : Nat} (hn : n < r.encode.length) :
    decode (r.encode.take n) = .error .incomplete := by
  have hlen := r.length_body
  have henc : r.encode.length = 38 + r.table.length + r.data.length := by
    rw [encode, List.length_append, length_putLE, hlen]
    omega
  have htab : r.table.length < 256 ^ 2 := h.1
  have hdat : r.data.length < 256 ^ 4 := h.2
  have le {n v : Nat} (hv : v < 256 ^ n) (rest : Bytes) :
      (readLE n DecodeError.incomplete).run (putLE n v ++ rest) = (.ok v, rest) := Reads.le _ hv rest
  have bytes (bs rest : Bytes) :
      (readBytes bs.length DecodeError.incomplete).run (bs ++ rest) = (.ok bs, rest) :=
    Reads.bytes _ bs rest
  have hmagic (rest : Bytes) :
      (readBytes 4 DecodeError.incomplete).run (magic ++ rest) = (.ok magic, rest) := bytes magic rest
  suffices hbody : (decodeBody.run (r.encode.take n)).1 = .error .incomplete by
    rcases hrun : decodeBody.run (r.encode.take n) with ⟨res, rest⟩
    rw [hrun] at hbody
    simp only at hbody
    subst hbody
    rw [decode, hrun]
  by_cases h26 : n < 26
  · rw [decodeBody, Prog.bind_error (need_short (by rw [List.length_take]; omega))]
  -- The fixed part of the header is there; the cut lies in the table, the data or the CRC.
  have hsplit : ∃ m, n = 4 + (2 + (2 + (8 + (8 + (2 + m))))) := ⟨n - 26, by omega⟩
  obtain ⟨m, rfl⟩ := hsplit
  have htake {k v j : Nat} (rest : Bytes) :
      (putLE k v ++ rest).take (k + j) = putLE k v ++ rest.take j := by
    rw [List.take_append, length_putLE, Nat.add_sub_cancel_left,
      List.take_of_length_le (by rw [length_putLE]; omega)]
  have htakeMagic {j : Nat} (rest : Bytes) : (magic ++ rest).take (4 + j) = magic ++ rest.take j := by
    rw [List.take_append, show magic.length = 4 from rfl, Nat.add_sub_cancel_left,
      List.take_of_length_le (by rw [show magic.length = 4 from rfl]; omega)]
  simp only [encode, body, putPrefixed, List.append_assoc, htakeMagic, htake]
  by_cases hm : m < r.table.length + 8
  · rw [decodeBody, Prog.bind_ok (need_ok (by
        simp only [List.length_append, length_putLE, show magic.length = 4 from rfl]; omega)),
      Prog.bind_ok (hmagic _), Prog.bind_ok (Prog.run_require_true rfl _),
      Prog.bind_ok (le (by decide) _), Prog.bind_ok (Prog.run_require_true rfl _),
      Prog.bind_ok (le r.op.toNat_lt _), Prog.bind_ok (le r.seq.toUInt64.toNat_lt _),
      Prog.bind_ok (le r.timestamp.toUInt64.toNat_lt _), Prog.bind_ok (le htab _),
      Prog.bind_error (need_short (by rw [List.length_take]; omega))]
  · obtain ⟨j, rfl⟩ : ∃ j, m = r.table.length + (4 + (4 + j)) := ⟨m - r.table.length - 8, by omega⟩
    have htable {j : Nat} (rest : Bytes) :
        (r.table ++ rest).take (r.table.length + j) = r.table ++ rest.take j := by
      rw [List.take_append, Nat.add_sub_cancel_left, List.take_of_length_le (by omega)]
    simp only [htable, htake]
    rw [decodeBody, Prog.bind_ok (need_ok (by
        simp only [List.length_append, length_putLE, show magic.length = 4 from rfl]; omega)),
      Prog.bind_ok (hmagic _), Prog.bind_ok (Prog.run_require_true rfl _),
      Prog.bind_ok (le (by decide) _), Prog.bind_ok (Prog.run_require_true rfl _),
      Prog.bind_ok (le r.op.toNat_lt _), Prog.bind_ok (le r.seq.toUInt64.toNat_lt _),
      Prog.bind_ok (le r.timestamp.toUInt64.toNat_lt _), Prog.bind_ok (le htab _),
      Prog.bind_ok (need_ok (by simp only [List.length_append, length_putLE]; omega)),
      Prog.bind_ok (bytes r.table _), Prog.bind_ok (le r.xid.toNat_lt _), Prog.bind_ok (le hdat _),
      Prog.bind_error (need_short (by
        simp only [List.length_take, List.length_append, length_putLE]; omega))]

end WALRecordV3

/-! ### Files of records -/

theorem scanRecords_append {records : List WALRecordV3} (h : ∀ r ∈ records, r.Fits) (fuel : Nat)
    (tail : Bytes) :
    scanRecords (records.length + fuel) (encodeLog records ++ tail) =
      records ++ scanRecords fuel tail := by
  induction records with
  | nil => simp [encodeLog]
  | cons r rs ih =>
    have hne : (encodeLog (r :: rs) ++ tail).isEmpty = false := by
      simp [encodeLog, r.encode_ne_nil]
    have hd : decode (encodeLog (r :: rs) ++ tail) = .ok (r, encodeLog rs ++ tail) := by
      rw [encodeLog, List.flatMap_cons, List.append_assoc]
      exact decode_encode (h r (by simp)) _
    rw [List.length_cons, Nat.add_right_comm, scanRecords, hne, hd]
    simp only [Bool.false_eq_true, if_false]
    rw [ih fun r hr => h r (by simp [hr])]
    rfl

theorem length_le_encodeLog (records : List WALRecordV3) :
    records.length ≤ (encodeLog records).length := by
  induction records with
  | nil => simp [encodeLog]
  | cons r rs ih =>
    have := List.length_pos_of_ne_nil r.encode_ne_nil
    rw [encodeLog, List.flatMap_cons, List.length_append, List.length_cons]
    rw [encodeLog] at ih
    omega

/-- What follows the whole records of a log cut off by a crash. -/
def TornTail (tail : Bytes) : Prop :=
  tail = [] ∨ ∃ r : WALRecordV3, r.Fits ∧ ∃ n < r.encode.length, tail = r.encode.take n

theorem scanRecords_tornTail {tail : Bytes} (h : TornTail tail) (fuel : Nat) :
    scanRecords fuel tail = [] := by
  cases fuel with
  | zero => rfl
  | succ fuel =>
    rw [scanRecords]
    split
    · rfl
    · rcases h with rfl | ⟨r, hr, n, hn, rfl⟩
      · simp at *
      · rw [decode_take_encode hr hn]

/-- A log that was cut off in its last record gives the records before the cut. -/
theorem readLog_encodeLog {records : List WALRecordV3} (h : ∀ r ∈ records, r.Fits) {tail : Bytes}
    (ht : TornTail tail) : readLog (encodeLog records ++ tail) = records := by
  rw [readLog]
  cases records with
  | nil =>
    simp only [encodeLog, List.flatMap_nil, List.nil_append, scanRecords_tornTail ht, ite_self]
  | cons r rs =>
    have hm : magic.isPrefixOf (encodeLog (r :: rs) ++ tail) = true := by
      rw [encodeLog, List.flatMap_cons, List.append_assoc]
      exact magic_isPrefixOf_encode r _
    obtain ⟨fuel, hfuel⟩ : ∃ fuel,
        (encodeLog (r :: rs) ++ tail).length + 1 = (r :: rs).length + fuel := by
      have := length_le_encodeLog (r :: rs)
      refine ⟨(encodeLog (r :: rs) ++ tail).length + 1 - (r :: rs).length, ?_⟩
      rw [List.length_append]
      omega
    rw [hm, if_pos rfl, hfuel, scanRecords_append h, scanRecords_tornTail ht, List.append_nil]

end JiaMiaoDB
