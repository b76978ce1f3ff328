import JiaMiaoDB.Common.ChunkOwner

/-!
# What a reallocation keeps

The size that is copied comes from the header of the old chunk, and for a chunk with a block of its own
that size is 0. The bytes of the other chunks stay as they are.
-/

set_option autoImplicit false

namespace JiaMiaoDB
namespace AllocSet
variable {s s' : AllocSet} {malloc : Malloc} {c d : Chunk} {pointer size p : Nat}
  {ctx : ContextAddress} {m : ByteMemory}

/-- The bytes that were asked for. -/
def Chunk.payload (c : Chunk) : Span := ⟨c.start + kChunkHdrSize, c.size⟩

theorem Sound.live_apart (h : Sound s) (hc : c ∈ s.live) (hd : d ∈ s.live) (hne : c ≠ d) :
    c.span.Apart d.span := by
  have hlive := List.pairwise_map.mp (List.pairwise_append.mp h.tiled.apart).1
  have hsymm : Std.Symm fun x y : Chunk => x.span.Apart y.span := ⟨fun _ _ hxy => hxy.symm⟩
  exact hlive.forall hc hd hne

theorem Sound.payload_inside (h : Sound s) (hc : c ∈ s.live) :
    (Chunk.payload c).Inside c.span := by
  have hsize := (h.fits c hc).size
  unfold Span.Inside Span.stop Chunk.payload Chunk.span
  dsimp only
  omega

theorem Sound.eq_of_start (h : Sound s) (hc : c ∈ s.live) (hd : d ∈ s.live)
    (hstart : c.start = d.start) : c = d := by
  by_contra hne
  have happart := h.live_apart hc hd hne
  have hcsize := (h.fits c hc).size
  have hdsize := (h.fits d hd).size
  have hhdr : kChunkHdrSize = 16 := rfl
  unfold Span.Apart Span.stop Chunk.span at happart
  dsimp only at happart
  omega

theorem Sound.find_live (h : Sound s) (hc : c ∈ s.live) :
    s.live.find? (·.start + kChunkHdrSize = c.start + kChunkHdrSize) = some c := by
  cases hfind : s.live.find? (·.start + kChunkHdrSize = c.start + kChunkHdrSize) with
  | none =>
    have hnot := List.find?_eq_none.mp hfind c hc
    simp at hnot
  | some x =>
    have hstart := List.find?_some hfind
    simp only [decide_eq_true_eq] at hstart
    have hx := List.mem_of_find?_eq_some hfind
    rw [h.eq_of_start hx hc (Nat.add_right_cancel hstart)]

/-- The new chunk, the set after the allocation and the old chunk taken back. -/
structure Moved (s : AllocSet) (malloc : Malloc) (c : Chunk) (size : Nat) (d : Chunk)
    (s₁ s₂ : AllocSet) : Prop where
  alloc : s.alloc malloc size = some (d.start + kChunkHdrSize, s₁)
  size : ForSize d size
  handed : Handed s malloc d s₁
  live : s₂.live = (d :: s.live).erase c
  start : 16 ∣ d.start
  fresh : ∀ x ∈ s.live, d.start ≠ x.start

theorem Moved.headed_old {s₁ s₂ : AllocSet} (h : Moved s malloc c size d s₁ s₂)
    (hc : c ∈ s.live) (hstart : 16 ∣ c.start) (hheaded : Headed m ctx c) :
    Headed (writeHeader ctx d m) ctx c := by
  apply hheaded.congr
  apply agreeOn_writeHeader
  have hne := h.fresh c hc
  have hdvd := h.start
  unfold Span.Apart Span.stop kChunkHdrSize
  dsimp only
  omega

/-- The size that `AllocSetRealloc` copies. -/
def copySize (c : Chunk) (size : Nat) : Nat :=
  let oldSize := if c.external then 0 else allocSetFreeListSize c.idx - kChunkHdrSize
  if oldSize < size then oldSize else size

/-- The memory after `c` was reallocated as `d`. -/
def reallocMem (s₁ : AllocSet) (ctx : ContextAddress) (c d : Chunk) (size : Nat) (m : ByteMemory) :
    ByteMemory :=
  s₁.writeLink c ((writeHeader ctx d m).copy (d.start + kChunkHdrSize) (c.start + kChunkHdrSize)
    (copySize c size))

/-- The bytes that a reallocation does not write. -/
theorem agreeOn_reallocMem {r : Span} {s₁ : AllocSet} (hd : r.Apart d.span)
    (hn : copySize c size + kChunkHdrSize ≤ d.space)
    (hc : c.external = false → r.Apart ⟨c.start, 8⟩) :
    ByteMemory.AgreeOn r m (reallocMem s₁ ctx c d size m) := by
  unfold Span.Apart Span.stop Chunk.span at hd
  dsimp only at hd
  have hhdr : kChunkHdrSize = 16 := rfl
  have hheader : ByteMemory.AgreeOn r m (writeHeader ctx d m) := by
    apply agreeOn_writeHeader
    unfold Span.Apart Span.stop
    dsimp only
    omega
  have hcopy : ByteMemory.AgreeOn r (writeHeader ctx d m) ((writeHeader ctx d m).copy
      (d.start + kChunkHdrSize) (c.start + kChunkHdrSize) (copySize c size)) := by
    apply ByteMemory.agreeOn_copy
    unfold Span.Apart Span.stop
    dsimp only
    omega
  exact (hheader.trans hcopy).trans (agreeOn_writeLink hc)

namespace Moved
variable {s₁ s₂ : AllocSet}

theorem ne (h : Moved s malloc c size d s₁ s₂) (hc : c ∈ s.live) : d ≠ c := by
  intro heq
  exact h.fresh c hc (congrArg Chunk.start heq)

theorem sound (h : Moved s malloc c size d s₁ s₂) (hs : s.Reached) (hmalloc : s.Provides malloc)
    (hfit : s.Fit size) : Sound s₁ :=
  hs.sound.allocFit hmalloc.mallocs hfit h.alloc

theorem apart (h : Moved s malloc c size d s₁ s₂) (hs₁ : Sound s₁) {x : Chunk}
    (hx : x ∈ s.live) : x.span.Apart d.span := by
  apply hs₁.live_apart
  · rw [h.handed.live]
    exact List.mem_cons_of_mem d hx
  · rw [h.handed.live]
    exact List.mem_cons_self ..
  · rintro rfl
    exact h.fresh x hx rfl

theorem room (h : Moved s malloc c size d s₁ s₂) (hs₁ : Sound s₁) :
    d.size + kChunkHdrSize ≤ d.space := by
  apply (hs₁.fits d _).size
  rw [h.handed.live]
  exact List.mem_cons_self ..

end Moved

theorem copySize_le (hsize : 0 < size) (hd : ForSize d size) : copySize c size ≤ d.size := by
  have hmin (oldSize : Nat) : (if oldSize < size then oldSize else size) ≤ size := by
    split <;> omega
  rw [hd.size, if_neg (by omega)]
  exact hmin _

/-- Of a small chunk all that was asked for is copied. -/
theorem le_copySize (hc : Fits s.blocks s.freeptr c) (hsmall : c.external = false) :
    min c.size size ≤ copySize c size := by
  have hsize := hc.size
  have hspace : c.space = allocSetFreeListSize c.idx := if_neg (Bool.eq_false_iff.mp hsmall)
  unfold copySize
  dsimp only
  rw [if_neg (Bool.eq_false_iff.mp hsmall)]
  split <;> omega

/-- A chunk that wrapped around is larger than its space. -/
theorem space_lt_of_wraps (hlt : size < sizeLimit) (hd : ForSize d size) (hpos : 0 < size)
    (hwraps : sizeLimit ≤ size + kChunkHdrSize + 7) : d.space < d.size + kChunkHdrSize := by
  have hsize : d.size = size := by rw [hd.size, if_neg (by omega)]
  have hlimit : sizeLimit = 18446744073709551616 := rfl
  have hhdr : kChunkHdrSize = 16 := rfl
  unfold Chunk.space
  split
  · rw [hsize]
    unfold alignSize
    rw [hlimit]
    omega
  · have hbucket := allocSetFreeListSize_le hd.lt
    have hchunk : kAllocChunkLimit = 8192 := rfl
    omega

end AllocSet

namespace Heap
variable {h : Heap} {malloc : Malloc} {s : AllocSet} {c : Chunk} {pointer size p : Nat}
  {ctx : ContextAddress} {m : ByteMemory}
open AllocSet

/-- The memory after a reallocation. -/
theorem run_realloc (hs : s.Reached) (hmalloc : s.Provides malloc) (hc : c ∈ s.live)
    (hsize : 0 < size) (hheaded : Headed m ctx c) {r : Nat × AllocSet}
    (halloc : s.alloc malloc size = some r) :
    ∃ d s₁ s₂, Moved s malloc c size d s₁ s₂ ∧
      Heap.realloc ⟨ctx, .allocSet s, m⟩ malloc (c.start + kChunkHdrSize) size =
        some (d.start + kChunkHdrSize, ⟨ctx, .allocSet s₂, reallocMem s₁ ctx c d size m⟩) := by
  obtain ⟨p, s₁⟩ := r
  obtain ⟨d, rfl, hfor, hd⟩ := handed_of_alloc halloc
  have hfresh (x : Chunk) (hx : x ∈ s.live) := hs.sound.start_ne hmalloc hd hfor.lt hx
  obtain ⟨hstart, -, hidx⟩ := hs.placed.live c hc
  have hfind : s₁.live.find? (·.start + kChunkHdrSize = c.start + kChunkHdrSize) = some c := by
    rw [hd.live, List.find?_cons_of_neg, hs.sound.find_live hc]
    have hne := hfresh c hc
    simp only [decide_eq_true_eq]
    omega
  obtain ⟨s₂, hfree⟩ : ∃ s₂, s₁.free (c.start + kChunkHdrSize) = some s₂ := by
    unfold AllocSet.free
    rw [hfind]
    exact ⟨_, rfl⟩
  have hlive : s₂.live = (d :: s.live).erase c := by
    obtain ⟨x, hx, hpointer, hlive, -⟩ := free_cases hfree
    have hsame : c.start = x.start := Nat.add_right_cancel hpointer
    rw [hd.live] at hx
    rcases List.mem_cons.mp hx with rfl | hx
    · exact absurd hsame.symm (hfresh c hc)
    · rw [hlive, hd.live, hs.sound.eq_of_start hc hx hsame]
  have hmoved : Moved s malloc c size d s₁ s₂ := by
    refine ⟨halloc, hfor, hd, hlive, ?_, hfresh⟩
    exact hs.placed.start_of_handed hmalloc.aligned hd
  refine ⟨d, s₁, s₂, hmoved, ?_⟩
  have hspace := (hmoved.headed_old hc hstart hheaded).getChunkSpace hidx
  have hctx := hheaded.context hidx
  unfold Heap.realloc
  rw [if_neg (by unfold kChunkHdrSize; omega), if_neg (by omega), if_pos hctx]
  unfold Heap.methodsRealloc Heap.alloc
  dsimp only
  rw [halloc]
  simp only [Option.map_some, Option.bind_eq_bind, Option.bind_some, writeChunk_eq hd.live, hspace]
  unfold Heap.free
  dsimp only
  rw [hfind, hfree]
  rfl

/-- The new chunk has room for what was asked for and begins with the bytes of the old one, and the
bytes of the other chunks are as they were. -/
structure Keeps (s : AllocSet) (c : Chunk) (size p : Nat) (m : ByteMemory) (h : Heap) : Prop where
  content : ∀ i, i < min c.size size → h.mem (p + i) = m (c.start + kChunkHdrSize + i)
  others : ∀ x ∈ s.live, x ≠ c → ∀ i, i < x.size →
    h.mem (x.start + kChunkHdrSize + i) = m (x.start + kChunkHdrSize + i)
  room : ∃ s', h.data = .allocSet s' ∧ ∃ d ∈ s'.live, p = d.start + kChunkHdrSize ∧
    d.size = size ∧ d.size + kChunkHdrSize ≤ d.space

theorem keeps_of_small {d : Chunk} {s₁ s₂ : AllocSet} (hs : s.Reached) (hs₁ : Sound s₁)
    (hc : c ∈ s.live) (hsmall : c.external = false) (hsize : 0 < size)
    (hmoved : Moved s malloc c size d s₁ s₂) :
    Keeps s c size (d.start + kChunkHdrSize) m
      ⟨ctx, .allocSet s₂, reallocMem s₁ ctx c d size m⟩ := by
  have hroom := hmoved.room hs₁
  have hle := copySize_le (c := c) hsize hmoved.size
  have hcd := hmoved.apart hs₁ hc
  have hin := hs.sound.payload_inside hc
  have hhdr : kChunkHdrSize = 16 := rfl
  refine ⟨?_, ?_, s₂, rfl, d, ?_, rfl, ?_, hroom⟩
  · intro i hi
    have hcopied := Nat.lt_of_lt_of_le hi (le_copySize (hs.sound.fits c hc) hsmall)
    have hlink : ByteMemory.AgreeOn ⟨d.start + kChunkHdrSize + i, 1⟩
        ((writeHeader ctx d m).copy (d.start + kChunkHdrSize) (c.start + kChunkHdrSize)
          (copySize c size))
        (reallocMem s₁ ctx c d size m) := by
      apply agreeOn_writeLink
      intro _
      have hcsize := (hs.sound.fits c hc).size
      unfold Span.Apart Span.stop Chunk.span at hcd
      unfold Span.Apart Span.stop
      dsimp only at hcd ⊢
      omega
    have hheader : ByteMemory.AgreeOn (Chunk.payload c) m (writeHeader ctx d m) := by
      apply agreeOn_writeHeader
      unfold Span.Apart Span.Inside Span.stop Chunk.payload Chunk.span at *
      dsimp only at *
      omega
    dsimp only
    rw [hlink _ (Nat.le_refl _) (Nat.lt_succ_self _), ByteMemory.copy_add hcopied]
    apply hheader
    · exact Nat.le_add_right ..
    · unfold Span.stop Chunk.payload
      dsimp only
      omega
  · intro x hx hne i hi
    have hxin := hs.sound.payload_inside hx
    have hagree : ByteMemory.AgreeOn x.span m (reallocMem s₁ ctx c d size m) := by
      apply agreeOn_reallocMem (hmoved.apart hs₁ hx) (by omega)
      intro _
      have hxc := hs.sound.live_apart hx hc hne
      have hcsize := (hs.sound.fits c hc).size
      unfold Span.Apart Span.stop Chunk.span at *
      dsimp only at *
      omega
    apply (hagree.of_inside hxin)
    · exact Nat.le_add_right ..
    · unfold Span.stop Chunk.payload
      dsimp only
      omega
  · rw [hmoved.live]
    exact (List.mem_erase_of_ne (hmoved.ne hc)).mpr (List.mem_cons_self ..)
  · rw [hmoved.size.size, if_neg (by omega)]

/-- A memory with ones in the chunk, and zeros everywhere else but in its header. -/
def ones (ctx : ContextAddress) (c : Chunk) : ByteMemory :=
  writeHeader ctx c (ByteMemory.fill (fun _ => 0) (c.start + kChunkHdrSize) 1 c.size)

theorem headed_ones (hidx : c.idx < kAllocSetNumFreelists) : Headed (ones ctx c) ctx c :=
  headed_writeHeader hidx

theorem ones_payload {i : Nat} (h : i < c.size) : ones ctx c (c.start + kChunkHdrSize + i) = 1 := by
  have hheader : ByteMemory.AgreeOn (Chunk.payload c)
      (ByteMemory.fill (fun _ => 0) (c.start + kChunkHdrSize) 1 c.size) (ones ctx c) :=
    agreeOn_writeHeader (Or.inr (Nat.le_refl _))
  rw [hheader (c.start + kChunkHdrSize + i) (Nat.le_add_right ..) (Nat.add_lt_add_left h _)]
  unfold ByteMemory.fill
  rw [ByteMemory.write_of_inside, List.getD_eq_getElem?_getD, List.getElem?_replicate, if_pos h,
    Option.getD_some]
  rwa [List.length_replicate]

/-- Outside of the chunk there are zeros. -/
theorem ones_outside {x : Nat} (h : x < c.start ∨ c.start + kChunkHdrSize + c.size ≤ x) :
    ones ctx c x = 0 := by
  have hhdr : kChunkHdrSize = 16 := rfl
  have hheader : ByteMemory.AgreeOn ⟨x, 1⟩
      (ByteMemory.fill (fun _ => 0) (c.start + kChunkHdrSize) 1 c.size) (ones ctx c) := by
    apply agreeOn_writeHeader
    unfold Span.Apart Span.stop
    dsimp only
    omega
  rw [hheader x (Nat.le_refl _) (Nat.lt_succ_self _)]
  apply ByteMemory.write_of_outside
  rw [List.length_replicate]
  omega

/-- Nothing is copied from a chunk with a block of its own. -/
theorem not_keeps_of_external {d : Chunk} {s₁ s₂ : AllocSet} (hs : s.Reached) (hs₁ : Sound s₁)
    (hc : c ∈ s.live) (hexternal : c.external = true) (hsize : 0 < size)
    (hmoved : Moved s malloc c size d s₁ s₂) :
    ¬ Keeps s c size (d.start + kChunkHdrSize) (ones ctx c)
      ⟨ctx, .allocSet s₂, reallocMem s₁ ctx c d size (ones ctx c)⟩ := by
  intro hkeeps
  have hpos := (hs.placed.live c hc).2.1
  have hfirst := hkeeps.content 0 (by omega)
  rw [ones_payload hpos] at hfirst
  have hzero : copySize c size = 0 := by
    unfold copySize
    dsimp only
    rw [if_pos hexternal, if_pos hsize]
  have hmem : reallocMem s₁ ctx c d size (ones ctx c) =
      (writeHeader ctx d (ones ctx c)).copy (d.start + kChunkHdrSize) (c.start + kChunkHdrSize) 0 := by
    unfold reallocMem writeLink
    rw [if_pos hexternal, hzero]
  -- The first byte of the new chunk is what was there before, and that is outside of the old chunk.
  have hold : writeHeader ctx d (ones ctx c) (d.start + kChunkHdrSize) = 0 := by
    have hagree : ByteMemory.AgreeOn ⟨d.start + kChunkHdrSize, 1⟩ (ones ctx c)
        (writeHeader ctx d (ones ctx c)) := agreeOn_writeHeader (Or.inr (Nat.le_refl _))
    rw [hagree (d.start + kChunkHdrSize) (Nat.le_refl _) (Nat.lt_succ_self _)]
    apply ones_outside
    have hcd := hmoved.apart hs₁ hc
    have hroom := hmoved.room hs₁
    have hdpos := hmoved.size.pos
    have hcsize := (hs.sound.fits c hc).size
    have hhdr : kChunkHdrSize = 16 := rfl
    unfold Span.Apart Span.stop Chunk.span at hcd
    dsimp only at hcd
    omega
  have hnew : reallocMem s₁ ctx c d size (ones ctx c) (d.start + kChunkHdrSize + 0) = 0 := by
    rw [hmem, Nat.add_zero]
    unfold ByteMemory.copy
    rw [ByteMemory.write_of_outside, hold]
    rw [ByteMemory.length_read]
    omega
  exact absurd (hnew.symm.trans hfirst) (by decide)

/-- What a reallocation of the chunk to the size is to do, whatever the memory contains. -/
def KeepsAll (ctx : ContextAddress) (s : AllocSet) (malloc : Malloc) (c : Chunk) (size : Nat) : Prop :=
  ∀ m, Headed m ctx c → ∀ p h, Heap.realloc ⟨ctx, .allocSet s, m⟩ malloc
    (c.start + kChunkHdrSize) size = some (p, h) → Keeps s c size p m h

theorem small_of_keepsAll (hs : s.Reached) (hmalloc : s.Provides malloc) (hc : c ∈ s.live)
    (hsize : 0 < size) (hlt : size < sizeLimit)
    (hnext : s.OpensBlock size → s.nextBlockSize + 7 < sizeLimit)
    (hreturns : (s.alloc malloc size).isSome) (hall : KeepsAll ctx s malloc c size) :
    c.external = false ∧ size + kChunkHdrSize + 7 < sizeLimit := by
  obtain ⟨r, halloc⟩ := Option.isSome_iff_exists.mp hreturns
  obtain ⟨-, -, hidx⟩ := hs.placed.live c hc
  have hheaded : Headed (ones ctx c) ctx c := headed_ones hidx
  obtain ⟨d, s₁, s₂, hmoved, hrun⟩ := run_realloc hs hmalloc hc hsize hheaded halloc
  have hkeeps := hall _ hheaded _ _ hrun
  have hfits : size + kChunkHdrSize + 7 < sizeLimit := by
    by_contra hwraps
    have hspace := space_lt_of_wraps hlt hmoved.size hsize (Nat.not_lt.mp hwraps)
    obtain ⟨s', hdata, x, hx, hpointer, -, hroom⟩ := hkeeps.room
    cases hdata
    rw [hmoved.live] at hx
    rcases List.mem_cons.mp (List.mem_of_mem_erase hx) with rfl | hx
    · omega
    · exact hmoved.fresh x hx (Nat.add_right_cancel hpointer)
  refine ⟨?_, hfits⟩
  by_contra hexternal
  have hs₁ := hmoved.sound hs hmalloc ⟨hfits, hnext⟩
  exact not_keeps_of_external hs hs₁ hc (Bool.not_eq_false _ ▸ hexternal) hsize hmoved hkeeps

/-- Reallocation keeps the contents if and only if the old chunk is a small one and the new size does
not wrap around. -/
theorem keepsAll_iff (hs : s.Reached) (hmalloc : s.Provides malloc) (hc : c ∈ s.live)
    (hsize : 0 < size) (hlt : size < sizeLimit)
    (hnext : s.OpensBlock size → s.nextBlockSize + 7 < sizeLimit)
    (hreturns : (s.alloc malloc size).isSome) :
    KeepsAll ctx s malloc c size ↔ c.external = false ∧ size + kChunkHdrSize + 7 < sizeLimit := by
  constructor
  · exact small_of_keepsAll hs hmalloc hc hsize hlt hnext hreturns
  · rintro ⟨hsmall, hfits⟩ m hheaded p h hrun
    obtain ⟨r, halloc⟩ := Option.isSome_iff_exists.mp hreturns
    obtain ⟨d, s₁, s₂, hmoved, hrun'⟩ := run_realloc hs hmalloc hc hsize hheaded halloc
    cases hrun'.symm.trans hrun
    exact keeps_of_small hs (hmoved.sound hs hmalloc ⟨hfits, hnext⟩) hc hsmall hsize hmoved

/-- A set with one chunk. -/
theorem reached_one (size : Nat) {c : Chunk} (hfit : (create 8192 65536).Fit size)
    (halloc : (create 8192 65536).alloc (mallocAt 2000 200000 16384) size =
      some (c.start + kChunkHdrSize, s)) : s.Reached :=
  .alloc (.create 8192 65536) (provides_mallocAt ⟨by decide, by decide⟩ nofun (by decide)) hfit halloc

/-- A small chunk grows within its block. -/
theorem keepsAll_small : ∃ s c, c ∈ s.live ∧ c.size = 100 ∧
    KeepsAll ⟨4096, by decide, by decide⟩ s (fun _ => none) c 200 := by
  obtain ⟨s, hs, hlive, hnext, hreturns⟩ : ∃ s : AllocSet, s.Reached ∧
      s.live = [⟨200000, 100, 4, false⟩] ∧ s.nextBlockSize = 16384 ∧
      (s.alloc (fun _ => none) 200).isSome :=
    ⟨_, reached_one 100 (c := ⟨200000, 100, 4, false⟩) ⟨by decide, fun _ => by decide⟩ rfl, rfl, rfl,
      rfl⟩
  have hc : ⟨200000, 100, 4, false⟩ ∈ s.live := by
    rw [hlive]
    exact List.mem_cons_self ..
  refine ⟨s, ⟨200000, 100, 4, false⟩, hc, rfl, ?_⟩
  have hmalloc : s.Provides fun _ => none := by
    refine ⟨?_, ?_, ?_⟩
    all_goals
      intro cap storage data hm
      cases hm
  refine (keepsAll_iff hs hmalloc hc (by decide) (by decide) ?_ hreturns).mpr
    ⟨rfl, by decide⟩
  intro _
  rw [hnext]
  decide

/-- A chunk with a block of its own shrinks, and its contents are lost. -/
theorem not_keepsAll : ¬ ∀ ctx s malloc c size, s.Reached → s.Provides malloc → c ∈ s.live →
    0 < size → size < sizeLimit → (s.OpensBlock size → s.nextBlockSize + 7 < sizeLimit) →
      KeepsAll ctx s malloc c size := by
  intro hall
  obtain ⟨s, hs, hlive, hblocks, hnext, hreturns⟩ : ∃ s : AllocSet, s.Reached ∧
      s.live = [⟨200000, 9000, 0, true⟩] ∧ s.blocks = [⟨2000, 200000, 9016, 200000⟩] ∧
      s.nextBlockSize = 8192 ∧ (s.alloc (mallocAt 1000 100000 16384) 100).isSome :=
    ⟨_, reached_one 9000 (c := ⟨200000, 9000, 0, true⟩) ⟨by decide, fun _ => by decide⟩ rfl, rfl, rfl,
      rfl, rfl⟩
  have hc : ⟨200000, 9000, 0, true⟩ ∈ s.live := by
    rw [hlive]
    exact List.mem_cons_self ..
  have hmalloc : s.Provides (mallocAt 1000 100000 16384) := by
    apply provides_mallocAt
    · rw [hblocks]
      exact ⟨by decide, by decide⟩
    · rw [hblocks]
      decide
    · decide
  have hfits (_ : s.OpensBlock 100) : s.nextBlockSize + 7 < sizeLimit := by
    rw [hnext]
    decide
  have hkeeps := hall ⟨4096, by decide, by decide⟩ s _ _ 100 hs hmalloc hc (by decide) (by decide)
    hfits
  have hsmall := small_of_keepsAll hs hmalloc hc (by decide) (by decide) hfits hreturns hkeeps
  cases hsmall.1

end Heap
end JiaMiaoDB
