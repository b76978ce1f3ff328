import JiaMiaoDB.Lib.Reservations
import JiaMiaoDB.Storage.TornCheckpoint

/-!
# Room that the decoders reserve

The decoders of checkpoints and of log payloads read nothing behind their input and always end. Four
of their loops are preceded by `reserve` with the number as it stands in the input: only there can a
corrupt number ask for more room than the input has bytes.
-/

set_option autoImplicit false

namespace JiaMiaoDB
open ByteFormat

/-- The vectors that room is reserved for, under the names they have in the decoders. -/
inductive ReservedVector
  | indices | rows | idxs | columns
deriving DecidableEq

abbrev TrackedReader (α : Type) := Tracked ReservedVector Unit α

section
variable {α : Type}

def trackCounted (p : TrackedReader α) : TrackedReader (List α) := do
  let n ← Tracked.read (readLE 4 ())
  Tracked.many p n

def trackReserved (v : ReservedVector) (p : TrackedReader α) : TrackedReader (List α) := do
  let n ← Tracked.readReserve v ()
  Tracked.many p n

def trackNamed (p : TrackedReader α) : TrackedReader (Str × α) := do
  let name ← Tracked.read (readPrefixed 2 ())
  let a ← p
  pure (name, a)

/-- `decode_index` -/
def trackIndex : TrackedReader IndexInfo := do
  let column ← Tracked.read (readPrefixed 2 ())
  let entries ← trackCounted (trackNamed (trackReserved .indices (Tracked.read readI64)))
  pure ⟨column, entries.foldl (fun m p => m.insert p.1 p.2) ∅⟩

/-- `decode_common_segments` -/
def trackCommonSegments (ckp : Checkpoint) : TrackedReader Checkpoint := do
  let tables ← Tracked.read (readCounted readTable)
  let rows ← trackCounted (trackNamed (trackReserved .rows (Tracked.read readRowEntry)))
  let counters ← Tracked.read (readCounted (readNamed readI64))
  let indexes ← trackCounted (trackNamed (trackReserved .idxs trackIndex))
  pure { ckp with
    tables := tables
    tableRows := joinSections rows
    rowIdCounters := counters.foldl (fun m p => m.insert p.1 p.2) ∅
    indexesData := joinSections indexes }

/-- `checkpoint_decode` -/
def trackCheckpoint : TrackedReader (Checkpoint × Bytes × Bytes) := do
  let fmt ← Tracked.read (readLE 4 ())
  Tracked.read (Prog.require (fmt = 3 ∨ fmt = 2) ())
  let version ← Tracked.read readI64
  let lastSeq ← Tracked.read readI64
  let timestamp ← Tracked.read readI64
  let nextXid ← Tracked.read readU32
  let ckp ← trackCommonSegments { Checkpoint.empty with
    version := version, lastSeq := lastSeq, timestamp := timestamp, nextXid := nextXid }
  Tracked.read do
    let clogBlob ← readPrefixed 4 ()
    let catalogBlob ← readPrefixed 4 ()
    let ckp ← withBlobs fmt ckp clogBlob catalogBlob
    pure (ckp, clogBlob, catalogBlob)

/-- `checkpoint_decode` and the functions `wal_decode_*`. -/
inductive Decoder
  | checkpoint | row | insert | update | delete | createTable | createSchema

namespace Decoder

def Result : Decoder → Type
  | checkpoint => Checkpoint × Bytes × Bytes
  | row => Row
  | insert => InsertPayload
  | update => UpdatePayload
  | delete => DeletePayload
  | createTable => List ColumnDef
  | createSchema => Str

def decode : (d : Decoder) → Bytes → Option d.Result
  | checkpoint => checkpointDecode
  | row => walDecodeRow
  | insert => walDecodeInsert
  | update => walDecodeUpdate
  | delete => walDecodeDelete
  | createTable => walDecodeCreateTable
  | createSchema => walDecodeCreateSchema

def reader : (d : Decoder) → PayloadReader d.Result
  | checkpoint => readCheckpoint
  | row => decodeRowFrom
  | insert => readInsert
  | update => readUpdate
  | delete => readDelete
  | createTable => readCounted readColumnDef
  | createSchema => readPrefixed 2 ()

/-- Only the checkpoint and the columns of a table are read with room reserved. -/
def tracked : (d : Decoder) → TrackedReader d.Result
  | checkpoint => trackCheckpoint
  | createTable => trackReserved .columns (Tracked.read readColumnDef)
  | d => Tracked.read d.reader

variable (d : Decoder) (bytes : Bytes)

/-- The reading up to the check for the end of the input. -/
def run : Except Unit d.Result × List (Reservation ReservedVector) × Bytes :=
  d.tracked.run ([], bytes)

def reservations : List (Reservation ReservedVector) := (d.run bytes).2.1

def unread : Bytes := (d.run bytes).2.2

/-- The returned flag, where `room` tells which requests the allocator grants. -/
def call (room : ReservedVector → Nat → Bool) : Except Unit Bool :=
  if (d.reservations bytes).all fun x => room x.target x.count then
    .ok ((d.run bytes).1.isOk && (d.unread bytes).isEmpty)
  else .error ()

/-- Nothing behind the input is read, no more elements are planned for than bytes are left, and an
allocator that grants so much makes the call end with the decoder's answer. -/
structure Robust : Prop where
  inside : d.unread bytes <:+ bytes
  reserved : ∀ x ∈ d.reservations bytes, x.count ≤ x.left
  returns : ∀ room, (∀ v n, n ≤ bytes.length → room v n = true) →
    d.call bytes room = .ok (d.decode bytes).isSome

end Decoder

/-! ### The counts that room is reserved for -/

/-- Behind a count, in front of the counts of `F` in the items that follow. -/
def Counted (r : PayloadReader α) (F : Set Bytes) : Set Bytes := After (readLE 4 ()) (Within r F)

/-- In front of the count itself, for the vector that it is the size of. -/
def AtCount (v : ReservedVector) (k : ReservedVector) : Set Bytes := {bs | k = v ∧ bs = []}

def Named (F : Set Bytes) : Set Bytes := After (readPrefixed 2 ()) fun _ => F

/-- The numbers of row ids of an index's entries. -/
def indexCounts (k : ReservedVector) : Set Bytes :=
  After (readPrefixed 2 ()) fun _ => Counted (readNamed (readCounted readI64))
    (Named (AtCount .indices k))

/-- The numbers of rows of the tables, the numbers of indexes of the tables and those inside the
indexes. -/
def segmentCounts (k : ReservedVector) : Set Bytes :=
  After (readCounted readTable) fun _ =>
    Counted (readNamed (readCounted readRowEntry)) (Named (AtCount .rows k)) ∪
      After (readCounted (readNamed (readCounted readRowEntry))) fun _ =>
        After (readCounted (readNamed readI64)) fun _ =>
          Counted (readNamed (readCounted readIndex))
            (Named (AtCount .idxs k ∪ Counted readIndex (indexCounts k)))

def checkpointCounts (k : ReservedVector) : Set Bytes :=
  After (readLE 4 ()) fun fmt => After (Prog.require (fmt = 3 ∨ fmt = 2) ()) fun _ =>
    After readI64 fun _ => After readI64 fun _ => After readI64 fun _ => After readU32 fun _ =>
      segmentCounts k

/-- What can stand in front of a count that room is reserved for. -/
def Decoder.BeforeCount : Decoder → ReservedVector → Set Bytes
  | checkpoint => checkpointCounts
  | createTable => AtCount .columns
  | _ => fun _ => ∅

/-! ### The calls that the decoders make -/

section
variable {p : TrackedReader α} {r : PayloadReader α} {F : ReservedVector → Set Bytes}

theorem within_empty (r : PayloadReader α) (n : Nat) : Within r ∅ n = ∅ := by
  induction n with
  | zero => rfl
  | succ n ih => rw [Within, ih, after_empty, Set.union_empty]

theorem counted_empty (r : PayloadReader α) : Counted r ∅ = ∅ := by
  rw [Counted, funext (within_empty r), after_empty]

theorem reserves_counted (hp : Reserves p r F) :
    Reserves (trackCounted p) (readCounted r) fun k => Counted r (F k) :=
  Reserves.readThen (Tight.le 4 ()) fun n => hp.many n

theorem reserves_reserved (v : ReservedVector) (hp : Reserves p r F) :
    Reserves (trackReserved v p) (readCounted r) fun k => AtCount v k ∪ Counted r (F k) :=
  (Reserves.readReserve v ()).bind fun n => hp.many n

/-- Items without room of their own. -/
theorem reserves_reserved_read (v : ReservedVector) (hr : Tight r) :
    Reserves (trackReserved v (Tracked.read r)) (readCounted r) (AtCount v) := by
  have h := reserves_reserved v (Reserves.read hr)
  simpa only [counted_empty, Set.union_empty] using h

theorem reserves_named (hp : Reserves p r F) :
    Reserves (trackNamed p) (readNamed r) fun k => Named (F k) :=
  Reserves.readThen (Tight.prefixed 2 ()) fun _ => hp.thenPure

end

theorem reserves_index : Reserves trackIndex readIndex indexCounts :=
  Reserves.readThen (Tight.prefixed 2 ()) fun _ =>
    (reserves_counted (reserves_named (reserves_reserved_read .indices tight_i64))).thenPure

theorem reserves_commonSegments (ckp : Checkpoint) :
    Reserves (trackCommonSegments ckp) (readCommonSegments ckp) segmentCounts := by
  have hrows := reserves_counted (reserves_named (reserves_reserved_read .rows tight_rowEntry))
  have hindexes := reserves_counted (reserves_named (reserves_reserved .idxs reserves_index))
  exact Reserves.readThen (tight_counted tight_table) fun tables => hrows.bind fun rows =>
    Reserves.readThen (tight_counted (tight_named tight_i64)) fun counters => hindexes.thenPure

theorem reserves_checkpoint : Reserves trackCheckpoint readCheckpoint checkpointCounts := by
  refine Reserves.readThen (Tight.le 4 ()) fun fmt => Reserves.readThen (Tight.require _ _) fun _ =>
    Reserves.readThen tight_i64 fun version => Reserves.readThen tight_i64 fun lastSeq =>
      Reserves.readThen tight_i64 fun timestamp => Reserves.readThen tight_u32 fun nextXid =>
        (reserves_commonSegments _).thenRead fun ckp => ?_
  exact (Tight.prefixed 4 ()).bind fun clogBlob => (Tight.prefixed 4 ()).bind fun catalogBlob =>
    (tight_withBlobs fmt ckp clogBlob catalogBlob).bind fun ckp => Tight.pure _

namespace Decoder

theorem reserves (d : Decoder) : Reserves d.tracked d.reader d.BeforeCount := by
  cases d with
  | checkpoint => exact reserves_checkpoint
  | row => exact Reserves.read tight_row
  | insert => exact Reserves.read tight_insert
  | update => exact Reserves.read tight_update
  | delete => exact Reserves.read tight_delete
  | createTable => exact reserves_reserved_read .columns tight_columnDef
  | createSchema => exact Reserves.read (Tight.prefixed 2 ())

theorem decode_eq (d : Decoder) (bytes : Bytes) : d.decode bytes = decodeAll d.reader bytes := by
  cases d <;> rfl

/-- The tracked decoder reads what the decoder reads. -/
theorem run_eq (d : Decoder) (bytes : Bytes) :
    d.run bytes = ((d.reader.run bytes).1, (d.reservations bytes, (d.reader.run bytes).2)) := by
  obtain ⟨made, hrun, -⟩ := d.reserves.calls [] bytes
  rw [reservations, run, hrun]

theorem mem_reservations {d : Decoder} {bytes : Bytes} {x : Reservation ReservedVector} :
    x ∈ d.reservations bytes ↔ x.StandsBehind d.BeforeCount bytes := by
  obtain ⟨made, hrun, hmade⟩ := d.reserves.calls [] bytes
  rw [← hmade, reservations, run, hrun, List.nil_append]

theorem isSome_decode (d : Decoder) (bytes : Bytes) :
    (d.decode bytes).isSome = ((d.run bytes).1.isOk && (d.unread bytes).isEmpty) := by
  rw [decode_eq, decodeAll, unread, run_eq]
  rcases hrun : d.reader.run bytes with ⟨e | a, rest⟩
  · rw [Prog.bind_error hrun]
    rfl
  · rw [Prog.bind_ok hrun]
    cases rest with
    | nil => rfl
    | cons b rest => rw [Prog.bind_error (run_readEnd_of_ne (List.cons_ne_nil b rest) ())]; rfl

/-- A decoder is robust on exactly the inputs in which no number that room is reserved for exceeds
the number of bytes behind it. -/
theorem robust_iff (d : Decoder) (bytes : Bytes) :
    d.Robust bytes ↔ ∀ v, ∀ front ∈ d.BeforeCount v, ∀ n rest,
      bytes = front ++ (putLE 4 n ++ rest) → n < 2 ^ 32 → n ≤ rest.length := by
  constructor
  · intro h v front hfront n rest hbytes hn
    exact h.reserved ⟨v, n, rest.length⟩
      (mem_reservations.2 ⟨front, hfront, rest, hbytes, hn, rfl⟩)
  · intro h
    have hreserved : ∀ x ∈ d.reservations bytes, x.count ≤ x.left ∧ x.left ≤ bytes.length := by
      intro x hx
      obtain ⟨front, hfront, rest, hbytes, hcount, hleft⟩ := mem_reservations.1 hx
      refine ⟨hleft ▸ h x.target front hfront x.count rest hbytes hcount, ?_⟩
      simp only [hbytes, List.length_append]
      omega
    refine ⟨?_, fun x hx => (hreserved x hx).1, fun room hroom => ?_⟩
    · rw [unread, run_eq]
      exact d.reserves.tight.inside bytes
    · rw [call, if_pos, isSome_decode]
      rw [List.all_eq_true]
      intro x hx
      exact hroom x.target x.count ((hreserved x hx).1.trans (hreserved x hx).2)

/-- Four bytes that announce 4294967295 columns. -/
theorem createTable_not_robust : ¬ ∀ (d : Decoder) (bytes : Bytes), d.Robust bytes := by
  intro h
  have hreserved := (h .createTable [0xFF, 0xFF, 0xFF, 0xFF]).reserved
    ⟨.columns, 4294967295, 0⟩ (by decide +kernel)
  exact absurd hreserved (by decide)

end Decoder
end
end JiaMiaoDB
