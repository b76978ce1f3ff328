import JiaMiaoDB.Common.Bump
import JiaMiaoDB.Lib.ByteMemory

/-!
# Chunk headers

The context of a chunk is found from the bytes before the pointer. Here a context has an address, and
its chunks and free lists are written to a memory. A null pointer is 0; a result is `none` where
`std::bad_alloc` is thrown and where the behaviour is undefined.
-/

set_option autoImplicit false

namespace JiaMiaoDB

def kMCTypeAllocSet : Nat := 1
def kMCTypeBump : Nat := 2
def kChunkFlagExternal : Nat := 1 <<< 8
def kChunkFlagFreeListIdx : Nat := 0xF <<< 9
def kMCXT_ALLOC_HUGE : Nat := 0x01
def kMCXT_ALLOC_ZERO : Nat := 0x04

/-- What `WriteHdr` writes. -/
def packHdr (index : Nat) (external : Bool) : Nat :=
  kMCTypeAllocSet ||| (if external then kChunkFlagExternal else 0) |||
    (index <<< 9 &&& kChunkFlagFreeListIdx)

/-- The address of a context: `malloc` does not return null, and the header of a Bump chunk has 56 bits
for it. -/
structure ContextAddress where
  val : Nat
  pos : 0 < val
  lt : val < 2 ^ 56

def writeHdr (m : ByteMemory) (pointer index : Nat) (external : Bool) : ByteMemory :=
  m.store64 (pointer - 8) (packHdr index external)

def writeCtx (m : ByteMemory) (pointer : Nat) (ctx : ContextAddress) : ByteMemory :=
  m.store64 (pointer - 16) ctx.val

def bumpWriteHeader (m : ByteMemory) (pointer : Nat) (ctx : ContextAddress) : ByteMemory :=
  m.store64 (pointer - 8) (ctx.val <<< 8 ||| kMCTypeBump)

def getMemoryChunkContext (m : ByteMemory) (pointer : Nat) : Nat :=
  if pointer = 0 then 0
  else
    let hdr := m.load64 (pointer - 8)
    let methodId := hdr &&& 0xFF
    if methodId = kMCTypeAllocSet then m.load64 (pointer - 16)
    else if methodId = kMCTypeBump then hdr >>> 8
    else 0

/-- `AllocSetGetChunkSpace` -/
def allocSetGetChunkSpace (m : ByteMemory) (pointer : Nat) : Nat :=
  let hdr := m.load64 (pointer - 8)
  if hdr &&& kChunkFlagExternal ≠ 0 then 0
  else allocSetFreeListSize ((hdr &&& kChunkFlagFreeListIdx) >>> 9) - kChunkHdrSize

inductive ContextData where
  | allocSet (s : AllocSet)
  | bump (s : BumpContext)

/-- A context and the memory. -/
structure Heap where
  ctx : ContextAddress
  data : ContextData
  mem : ByteMemory

namespace AllocSet

/-- The header of the chunk that was handed out last. -/
def writeChunk (s : AllocSet) (ctx : ContextAddress) (m : ByteMemory) : ByteMemory :=
  match s.live with
  | [] => m
  | c :: _ =>
    let pointer := c.start + kChunkHdrSize
    writeCtx (writeHdr m pointer c.idx c.external) pointer ctx

/-- A small chunk that is freed is linked before the free ones of its size. -/
def writeLink (s : AllocSet) (c : Chunk) (m : ByteMemory) : ByteMemory :=
  if c.external then m else m.store64 c.start ((s.freelist c.idx).headD 0)

end AllocSet

namespace Heap
variable (h : Heap) (malloc : Malloc)

/-- `methods->alloc` -/
def alloc (size : Nat) : Option (Nat × Heap) :=
  match h.data with
  | .allocSet s => (s.alloc malloc size).map fun (pointer, s') =>
    (pointer, { h with data := .allocSet s', mem := s'.writeChunk h.ctx h.mem })
  | .bump s => (s.alloc malloc size).map fun (pointer, s') =>
    (pointer, { h with data := .bump s', mem := bumpWriteHeader h.mem pointer h.ctx })

/-- `methods->free_p`, for a pointer that is handed out. -/
def free (pointer : Nat) : Option Heap :=
  match h.data with
  | .allocSet s => do
    let c ← s.live.find? (·.start + kChunkHdrSize = pointer)
    let s' ← s.free pointer
    some { h with data := .allocSet s', mem := s.writeLink c h.mem }
  | .bump _ => some h

/-- `methods->realloc`, for a pointer and a size that are not 0. -/
def methodsRealloc (pointer size : Nat) : Option (Nat × Heap) :=
  match h.data with
  | .allocSet _ => do
    let (new, h) ← h.alloc malloc size
    let oldSize := allocSetGetChunkSpace h.mem pointer
    let copySize := if oldSize < size then oldSize else size
    let h ← Heap.free { h with mem := h.mem.copy new pointer copySize } pointer
    some (new, h)
  | .bump _ => do
    let (new, h) ← h.alloc malloc size
    some (new, { h with mem := h.mem.copy new pointer size })

/-- `MemoryContextAllocExtended` -/
def allocExtended (size flags : Nat) : Option (Nat × Heap) :=
  if flags &&& kMCXT_ALLOC_HUGE = 0 ∧ kMaxAllocSize < size then none
  else do
    let (pointer, h) ← h.alloc malloc size
    let mem := if flags &&& kMCXT_ALLOC_ZERO ≠ 0 then h.mem.fill pointer 0 size else h.mem
    some (pointer, { h with mem := mem })

/-- `size + align - 8` -/
def padSize (size align : Nat) : Nat := (size + align + (sizeLimit - 8)) % sizeLimit

/-- `(start + align - 1) & ~(align - 1)`, for a power of two. -/
def alignUp (start align : Nat) : Nat := (start + align - 1) % sizeLimit / align * align

/-- `MemoryContextAllocAligned` -/
def allocAligned (size align flags : Nat) : Option (Nat × Heap) :=
  if align ≤ 8 then h.allocExtended malloc size flags
  else do
    let (raw, h) ← h.allocExtended malloc (padSize size align) flags
    let offset := (alignUp raw align + (sizeLimit - raw)) % sizeLimit
    some (raw + offset, h)

/-- `MemoryContextFree`: a pointer without a context is left alone. -/
def memoryContextFree (pointer : Nat) : Option Heap :=
  if pointer = 0 then some h
  else if getMemoryChunkContext h.mem pointer = 0 then some h
  else if getMemoryChunkContext h.mem pointer = h.ctx.val then h.free pointer
  else none

/-- `MemoryContextRealloc`, with this context as the current one. -/
def realloc (pointer size : Nat) : Option (Nat × Heap) :=
  if pointer = 0 then h.allocExtended malloc size 0
  else if size = 0 then (h.memoryContextFree pointer).map fun h => (0, h)
  else if getMemoryChunkContext h.mem pointer = h.ctx.val then h.methodsRealloc malloc pointer size
  else none

/-- `jrealloc0` -/
def realloc0 (pointer oldSize newSize : Nat) : Option (Nat × Heap) := do
  let (new, h) ← h.realloc malloc pointer newSize
  let mem := if oldSize < newSize then h.mem.fill (new + oldSize) 0 (newSize - oldSize) else h.mem
  some (new, { h with mem := mem })

end Heap

/-! ### Reading the headers -/

theorem packHdr_fields {index : Nat} (h : index < kAllocSetNumFreelists) (external : Bool) :
    packHdr index external < 256 ^ 8 ∧ packHdr index external &&& 0xFF = kMCTypeAllocSet ∧
      (packHdr index external &&& kChunkFlagExternal ≠ 0 ↔ external = true) ∧
      (packHdr index external &&& kChunkFlagFreeListIdx) >>> 9 = index := by
  revert index external
  decide

/-- Only the bytes before the pointer matter. -/
theorem getMemoryChunkContext_congr {m m' : ByteMemory} {pointer : Nat} (hpointer : 8 ≤ pointer)
    (h : ∀ x, x < pointer → m' x = m x) :
    getMemoryChunkContext m' pointer = getMemoryChunkContext m pointer := by
  have hload {a : Nat} (ha : a + 8 ≤ pointer) : m'.load64 a = m.load64 a := by
    apply ByteMemory.AgreeOn.load64_eq
    intro x _ hx
    exact h x (Nat.lt_of_lt_of_le hx ha)
  unfold getMemoryChunkContext
  rw [hload (by omega), hload (by omega)]

/-- The header before the pointer leads to the context. -/
theorem getMemoryChunkContext_allocSet {m : ByteMemory} {pointer index ctx : Nat} {external : Bool}
    (hindex : index < kAllocSetNumFreelists) (hpointer : 0 < pointer)
    (hhdr : m.load64 (pointer - 8) = packHdr index external) (hctx : m.load64 (pointer - 16) = ctx) :
    getMemoryChunkContext m pointer = ctx := by
  unfold getMemoryChunkContext
  rw [if_neg (by omega)]
  dsimp only
  rw [hhdr, if_pos (packHdr_fields hindex external).2.1, hctx]

theorem bumpHeader_fields (ctx : ContextAddress) :
    ctx.val <<< 8 ||| kMCTypeBump < 256 ^ 8 ∧ (ctx.val <<< 8 ||| kMCTypeBump) &&& 0xFF = kMCTypeBump ∧
      (ctx.val <<< 8 ||| kMCTypeBump) >>> 8 = ctx.val := by
  have hctx := ctx.lt
  have htype : kMCTypeBump < 2 ^ 8 := by decide
  have hpack : ctx.val <<< 8 ||| kMCTypeBump = ctx.val * 256 + 2 := by
    rw [← Nat.shiftLeft_add_eq_or_of_lt htype, Nat.shiftLeft_eq]
    rfl
  rw [hpack, show (0xFF : Nat) = 2 ^ 8 - 1 from rfl, Nat.and_two_pow_sub_one_eq_mod,
    Nat.shiftRight_eq_div_pow]
  refine ⟨?_, ?_, ?_⟩
  · norm_num
    omega
  · change _ = 2
    omega
  · omega

theorem getMemoryChunkContext_bump {m : ByteMemory} {pointer : Nat} {ctx : ContextAddress}
    (hpointer : 0 < pointer)
    (hhdr : m.load64 (pointer - 8) = ctx.val <<< 8 ||| kMCTypeBump) :
    getMemoryChunkContext m pointer = ctx.val := by
  obtain ⟨-, htype, hshift⟩ := bumpHeader_fields ctx
  unfold getMemoryChunkContext
  rw [if_neg (by omega)]
  dsimp only
  rw [hhdr, htype, if_neg (by decide), if_pos rfl, hshift]

end JiaMiaoDB
