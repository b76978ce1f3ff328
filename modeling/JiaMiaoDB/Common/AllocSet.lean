import JiaMiaoDB.Lib.Span
import Mathlib.Data.UInt
import Mathlib.Logic.Function.Basic

/-!
# Allocation sets

What the blocks contain is left out, except for the headers of the chunks that are handed out. A
result is `none` where `malloc` fails, and where the source would read memory that has been freed
or never was handed out.
-/

set_option autoImplicit false

namespace JiaMiaoDB

def kMaxAllocSize : Nat := 0x3FFFFFFF
def kAllocMinBits : Nat := 3
def kAllocSetNumFreelists : Nat := 11
def kAllocChunkLimit : Nat := 1 <<< (kAllocSetNumFreelists - 1 + kAllocMinBits)
def kAllocChunkFraction : Nat := 4
def kAllocSetDefaultInitSize : Nat := 8 * 1024
def kChunkHdrSize : Nat := 16

/-- `sizeof(BlockStorage)`: nine pointers and sizes. -/
def sizeofBlockStorage : Nat := 72

def initSizeMin : Nat := 1024

/-- One more than the largest `Size`. -/
abbrev sizeLimit : Nat := 2 ^ 64

def allocSetFreeListIndex (size : Nat) : Nat :=
  if size ≤ 8 then 0
  else if size ≤ 16 then 1
  else if size ≤ 32 then 2
  else if size ≤ 64 then 3
  else if size ≤ 128 then 4
  else if size ≤ 256 then 5
  else if size ≤ 512 then 6
  else if size ≤ 1024 then 7
  else if size ≤ 2048 then 8
  else if size ≤ 4096 then 9
  else 10

def allocSetFreeListSize (index : Nat) : Nat := 8 <<< index

/-- `(size + 7) & ~Size{7}` -/
def alignSize (size : Nat) : Nat := (size + 7) % sizeLimit / 8 * 8

/-- A `BlockStorage` and where it is. -/
structure AllocBlock where
  storage : Nat
  data : Nat
  cap : Nat
  freeptr : Nat
deriving DecidableEq

/-- The block with that storage continues `n` bytes later. -/
def AllocBlock.bump (storage n : Nat) (b : AllocBlock) : AllocBlock :=
  if b.storage = storage then { b with freeptr := b.freeptr + n } else b

/-- A chunk that is handed out, with the requested size and what its header says. -/
structure Chunk where
  start : Nat
  size : Nat
  idx : Nat
  external : Bool
deriving DecidableEq

/-- `std::malloc` for a `BlockStorage` and its data: the two addresses, or none. -/
abbrev Malloc := Nat → Option (Nat × Nat)

structure AllocSet where
  blocks : List AllocBlock
  /-- The `BlockStorage` of the current block. -/
  freeptr : Option Nat
  freelist : Nat → List Nat
  initBlockSize : Nat
  maxBlockSize : Nat
  nextBlockSize : Nat
  allocChunkLimit : Nat
  memAllocated : Nat
  isReset : Bool
  live : List Chunk

namespace AllocSet

/-- `JMAllocSetContextCreate` -/
def create (initSize maxSize : Nat) : AllocSet where
  blocks := []
  freeptr := none
  freelist := fun _ => []
  initBlockSize := initSize
  maxBlockSize := maxSize
  nextBlockSize := initSize
  allocChunkLimit :=
    if maxSize < kAllocSetDefaultInitSize * 4 then max (maxSize / kAllocChunkFraction) 64
    else kAllocChunkLimit
  memAllocated := 0
  isReset := true
  live := []

def createBlock (malloc : Malloc) (cap : Nat) : Option AllocBlock :=
  (malloc (alignSize cap)).map fun (storage, data) => ⟨storage, data, alignSize cap, data⟩

section
variable (s : AllocSet)

/-- A chunk is handed out and charged. -/
def hand (c : Chunk) (charge : Nat) : AllocSet :=
  { s with
    memAllocated := (s.memAllocated + charge) % sizeLimit
    isReset := false
    live := c :: s.live }

/-- The current block, when the bucket still fits in it. -/
def room (bucket : Nat) : Option (Option AllocBlock) :=
  match s.freeptr with
  | none => some none
  | some p => do
    let b ← s.blocks.find? (·.storage = p)
    some (if b.freeptr + bucket ≤ b.data + b.cap then some b else none)

/-- The size of the next block, before `AllocSetCreateBlock` rounds it. -/
def newSize (bucket : Nat) : Nat :=
  let size := max s.nextBlockSize initSizeMin
  alignSize (if size < bucket then bucket + sizeofBlockStorage else size)

def allocExternal (malloc : Malloc) (size allocSize : Nat) : Option (Nat × AllocSet) := do
  let cap := alignSize allocSize
  let b ← createBlock malloc cap
  let s := { s with blocks := b :: s.blocks }
  some (b.data + kChunkHdrSize,
    s.hand ⟨b.data, size, 0, true⟩ (cap + sizeofBlockStorage))

def bump (b : AllocBlock) (bucket : Nat) : AllocSet :=
  { s with blocks := s.blocks.map (AllocBlock.bump b.storage bucket) }

def openBlock (b : AllocBlock) (bucket : Nat) : AllocSet :=
  let next := s.nextBlockSize * 2 % sizeLimit
  { s with
    blocks := { b with freeptr := b.data + bucket } :: s.blocks
    freeptr := some b.storage
    nextBlockSize := if s.maxBlockSize < next then s.maxBlockSize else next }

def allocSmall (malloc : Malloc) (size idx : Nat) : Option (Nat × AllocSet) :=
  let bucket := allocSetFreeListSize idx
  match s.freelist idx with
  | p :: rest =>
    let s := { s with freelist := Function.update s.freelist idx rest }
    some (p + kChunkHdrSize, s.hand ⟨p, size, idx, false⟩ bucket)
  | [] => do
    match ← s.room bucket with
    | some b =>
      some (b.freeptr + kChunkHdrSize,
        (s.bump b bucket).hand ⟨b.freeptr, size, idx, false⟩ bucket)
    | none =>
      let b ← createBlock malloc (s.newSize bucket)
      some (b.data + kChunkHdrSize,
        (s.openBlock b bucket).hand ⟨b.data, size, idx, false⟩ bucket)

/-- Returns the pointer for the user. -/
def alloc (malloc : Malloc) (size : Nat) : Option (Nat × AllocSet) :=
  let size := if size = 0 then 1 else size
  let allocSize := (size + kChunkHdrSize) % sizeLimit
  if s.allocChunkLimit < allocSize then s.allocExternal malloc size allocSize
  else s.allocSmall malloc size (allocSetFreeListIndex allocSize)

/-- The chunk is taken back, and no longer charged. -/
def take (c : Chunk) (charge : Nat) : AllocSet :=
  { s with
    memAllocated := (s.memAllocated + (sizeLimit - charge % sizeLimit)) % sizeLimit
    live := s.live.erase c }

def unlink (b : AllocBlock) : AllocSet :=
  let blocks := s.blocks.erase b
  { s with
    blocks := blocks
    freeptr := if s.freeptr = some b.storage then blocks.head?.map AllocBlock.storage
      else s.freeptr }

def freeExternal (c : Chunk) : AllocSet :=
  match s.blocks.find? fun b => b.data ≤ c.start ∧ c.start < b.data + b.cap with
  | none => s.take c 0
  | some b => (s.unlink b).take c (b.cap + sizeofBlockStorage)

def freeSmall (c : Chunk) : AllocSet :=
  let s' := { s with freelist := Function.update s.freelist c.idx (c.start :: s.freelist c.idx) }
  s'.take c (allocSetFreeListSize c.idx)

/-- The pointer is one that is handed out. -/
def free (pointer : Nat) : Option AllocSet := do
  let c ← s.live.find? (·.start + kChunkHdrSize = pointer)
  some (if c.external then s.freeExternal c else s.freeSmall c)

/-- The pointer is one that is handed out. -/
def realloc (malloc : Malloc) (pointer size : Nat) : Option (Option Nat × AllocSet) :=
  if size = 0 then (s.free pointer).map fun s => (none, s)
  else do
    let (new, s) ← s.alloc malloc size
    let s ← s.free pointer
    some (some new, s)

def reset : AllocSet :=
  { s with
    blocks := match s.blocks with
      | [] => []
      | keep :: _ => [{ keep with freeptr := keep.data }]
    freelist := fun _ => []
    memAllocated := 0
    isReset := true
    nextBlockSize := s.initBlockSize
    live := [] }

end

end AllocSet
end JiaMiaoDB
