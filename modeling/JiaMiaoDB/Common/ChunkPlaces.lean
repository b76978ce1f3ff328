import JiaMiaoDB.Common.AllocSetIntegrity
import JiaMiaoDB.Common.ChunkHeader

/-!
# Where chunks start

How a chunk is handed out, that chunks start at aligned places, and that the header of a chunk stays
in the memory while the bytes of other chunks change.
-/

set_option autoImplicit false

namespace JiaMiaoDB

/-- What `malloc` hands out is aligned for every type and in the lower part of the address space. -/
def AlignedMalloc (malloc : Malloc) : Prop :=
  ∀ cap storage data, malloc cap = some (storage, data) → 16 ∣ data ∧ data + cap ≤ 2 ^ 56

namespace AllocSet
variable {s s' : AllocSet} {malloc : Malloc} {c c' : Chunk} {b : AllocBlock} {pointer size idx : Nat}

/-- How a chunk is handed out. -/
inductive Handed (s : AllocSet) (malloc : Malloc) (c : Chunk) : AllocSet → Prop
  | reused {rest : List Nat} : s.freelist c.idx = c.start :: rest → c.external = false →
    Handed s malloc c
      ({ s with freelist := Function.update s.freelist c.idx rest }.hand c
        (allocSetFreeListSize c.idx))
  | cut {b : AllocBlock} : b ∈ s.blocks → s.freeptr = some b.storage →
    b.freeptr + allocSetFreeListSize c.idx ≤ b.data + b.cap → c.start = b.freeptr →
    c.external = false →
    Handed s malloc c ((s.bump b (allocSetFreeListSize c.idx)).hand c (allocSetFreeListSize c.idx))
  | opened {b : AllocBlock} {cap : Nat} : createBlock malloc cap = some b → c.start = b.data →
    c.external = false →
    Handed s malloc c
      ((s.openBlock b (allocSetFreeListSize c.idx)).hand c (allocSetFreeListSize c.idx))
  | own {b : AllocBlock} {cap charge : Nat} : createBlock malloc cap = some b → c.start = b.data →
    c.external = true → Handed s malloc c ({ s with blocks := b :: s.blocks }.hand c charge)

/-- The chunk is what was asked for, and its bucket is the one for its size. -/
structure ForSize (c : Chunk) (size : Nat) : Prop where
  size : c.size = if size = 0 then 1 else size
  lt : c.idx < kAllocSetNumFreelists
  idx : c.external = false → c.idx = allocSetFreeListIndex ((c.size + kChunkHdrSize) % sizeLimit)

theorem handed_of_alloc (h : s.alloc malloc size = some (pointer, s')) :
    ∃ c : Chunk, pointer = c.start + kChunkHdrSize ∧ ForSize c size ∧ Handed s malloc c s' := by
  unfold AllocSet.alloc at h
  dsimp only at h
  set n := if size = 0 then 1 else size with hn
  set allocSize := (n + kChunkHdrSize) % sizeLimit with hallocSize
  split at h
  case isTrue =>
    obtain ⟨b, hb, h⟩ := Option.bind_eq_some_iff.mp h
    cases h
    have hpos : (0 : Nat) < kAllocSetNumFreelists := by decide
    exact ⟨⟨b.data, n, 0, true⟩, rfl, ⟨hn, hpos, nofun⟩, .own hb rfl rfl⟩
  case isFalse =>
    have hlt := allocSetFreeListIndex_lt allocSize
    set idx := allocSetFreeListIndex allocSize with hidx
    have hfor (p : Nat) : ForSize ⟨p, n, idx, false⟩ size := ⟨hn, hlt, fun _ => rfl⟩
    unfold AllocSet.allocSmall at h
    dsimp only at h
    split at h
    case h_1 p rest hfree =>
      cases h
      exact ⟨⟨p, n, idx, false⟩, rfl, hfor p, .reused hfree rfl⟩
    case h_2 =>
      obtain ⟨place, hplace, h⟩ := Option.bind_eq_some_iff.mp h
      split at h
      case h_1 b =>
        cases h
        obtain ⟨hb, hcurrent, hroom⟩ := Sound.room_eq hplace b rfl
        exact ⟨⟨b.freeptr, n, idx, false⟩, rfl, hfor _, .cut hb hcurrent hroom rfl rfl⟩
      case h_2 =>
        obtain ⟨b, hb, h⟩ := Option.bind_eq_some_iff.mp h
        cases h
        exact ⟨⟨b.data, n, idx, false⟩, rfl, hfor _, .opened hb rfl rfl⟩

theorem Handed.live (h : Handed s malloc c s') : s'.live = c :: s.live := by
  cases h <;> rfl

/-! ### Alignment -/

/-- Chunks start at multiples of 16 in the lower part of the address space. -/
structure Placed (s : AllocSet) : Prop where
  blocks : ∀ b ∈ s.blocks, 16 ∣ b.data ∧ 16 ∣ b.freeptr ∧ b.data + b.cap ≤ 2 ^ 56
  free : ∀ i, ∀ p ∈ s.freelist i, 16 ∣ p
  live : ∀ c ∈ s.live, 16 ∣ c.start ∧ 0 < c.size ∧ c.idx < kAllocSetNumFreelists

theorem createBlock_placed {cap : Nat} (hmalloc : AlignedMalloc malloc)
    (h : createBlock malloc cap = some b) :
    16 ∣ b.data ∧ b.freeptr = b.data ∧ b.data + b.cap ≤ 2 ^ 56 := by
  obtain ⟨⟨storage, data⟩, hm, rfl⟩ := Option.map_eq_some_iff.mp h
  obtain ⟨hdata, hbelow⟩ := hmalloc _ _ _ hm
  exact ⟨hdata, rfl, hbelow⟩

theorem dvd_allocSetFreeListSize (h : 1 ≤ idx) : 16 ∣ allocSetFreeListSize idx := by
  obtain ⟨i, rfl⟩ := Nat.exists_eq_add_of_le h
  have hsize : allocSetFreeListSize (1 + i) = 16 * 2 ^ i := by
    rw [allocSetFreeListSize, Nat.shiftLeft_eq, Nat.pow_add]
    omega
  exact ⟨2 ^ i, hsize⟩

namespace Placed

theorem start_of_handed (h : Placed s) (hmalloc : AlignedMalloc malloc)
    (hc : Handed s malloc c s') : 16 ∣ c.start := by
  cases hc with
  | reused hfree => exact h.free c.idx c.start (by rw [hfree]; exact List.mem_cons_self ..)
  | cut hb _ _ hstart =>
    rw [hstart]
    exact (h.blocks _ hb).2.1
  | opened hb hstart =>
    rw [hstart]
    exact (createBlock_placed hmalloc hb).1
  | own hb hstart =>
    rw [hstart]
    exact (createBlock_placed hmalloc hb).1

theorem handed (h : Placed s) (hmalloc : AlignedMalloc malloc) (hpos : 0 < c.size)
    (hlt : c.idx < kAllocSetNumFreelists) (hidx : c.external = false → 1 ≤ c.idx)
    (hc : Handed s malloc c s') : Placed s' := by
  have hstart := h.start_of_handed hmalloc hc
  have hlive (d : Chunk) (hd : d ∈ c :: s.live) :
      16 ∣ d.start ∧ 0 < d.size ∧ d.idx < kAllocSetNumFreelists := by
    rcases List.mem_cons.mp hd with rfl | hd
    · exact ⟨hstart, hpos, hlt⟩
    · exact h.live d hd
  cases hc with
  | @reused rest hfree _ =>
    refine ⟨h.blocks, ?_, hlive⟩
    intro i p hp
    change p ∈ Function.update s.freelist c.idx rest i at hp
    by_cases hi : i = c.idx
    · subst i
      rw [Function.update_self] at hp
      apply h.free c.idx p
      rw [hfree]
      exact List.mem_cons_of_mem _ hp
    · rw [Function.update_of_ne hi] at hp
      exact h.free i p hp
  | @cut b _ _ _ _ hexternal =>
    refine ⟨?_, h.free, hlive⟩
    intro x hx
    obtain ⟨y, hy, rfl⟩ := List.mem_map.mp hx
    obtain ⟨hdata, hfree, hbelow⟩ := h.blocks y hy
    have hbucket := dvd_allocSetFreeListSize (hidx hexternal)
    unfold AllocBlock.bump
    split
    · exact ⟨hdata, Nat.dvd_add hfree hbucket, hbelow⟩
    · exact ⟨hdata, hfree, hbelow⟩
  | opened hb _ hexternal =>
    obtain ⟨hdata, -, hbelow⟩ := createBlock_placed hmalloc hb
    have hbucket := dvd_allocSetFreeListSize (hidx hexternal)
    refine ⟨?_, h.free, hlive⟩
    intro x hx
    rcases List.mem_cons.mp hx with rfl | hx
    · exact ⟨hdata, Nat.dvd_add hdata hbucket, hbelow⟩
    · exact h.blocks x hx
  | own hb _ _ =>
    obtain ⟨hdata, hfree, hbelow⟩ := createBlock_placed hmalloc hb
    refine ⟨?_, h.free, hlive⟩
    intro x hx
    rcases List.mem_cons.mp hx with rfl | hx
    · exact ⟨hdata, hfree ▸ hdata, hbelow⟩
    · exact h.blocks x hx

end Placed

theorem one_le_allocSetFreeListIndex {n : Nat} (h : 8 < n) : 1 ≤ allocSetFreeListIndex n := by
  unfold allocSetFreeListIndex
  repeat' split
  all_goals omega

/-- A request whose size, with the header and the rounding, is below 2^64. -/
def Fit (s : AllocSet) (size : Nat) : Prop :=
  size + kChunkHdrSize + 7 < sizeLimit ∧ (s.OpensBlock size → s.nextBlockSize + 7 < sizeLimit)

theorem ForSize.pos (h : ForSize c size) : 0 < c.size := by
  rw [h.size]
  split <;> omega

theorem ForSize.one_le (h : ForSize c size) (hsize : size + kChunkHdrSize + 7 < sizeLimit)
    (hexternal : c.external = false) : 1 ≤ c.idx := by
  have hchunk : c.size + kChunkHdrSize < sizeLimit ∧ 8 < c.size + kChunkHdrSize := by
    rw [h.size]
    unfold kChunkHdrSize sizeLimit at *
    split <;> omega
  rw [h.idx hexternal, Nat.mod_eq_of_lt hchunk.1]
  exact one_le_allocSetFreeListIndex hchunk.2

/-! ### Reached states -/

/-- What `malloc` promises; even an empty block has an address of its own. -/
structure Provides (s : AllocSet) (malloc : Malloc) : Prop where
  mallocs : Mallocs s malloc
  aligned : AlignedMalloc malloc
  distinct : ∀ cap storage data, malloc cap = some (storage, data) → ∀ b ∈ s.blocks, b.data ≠ data

theorem provides_mallocAt {storage data room : Nat} (h : Fresh s.blocks ⟨storage, data, room, data⟩)
    (hne : ∀ b ∈ s.blocks, b.data ≠ data) (hdata : 16 ∣ data ∧ data + room ≤ 2 ^ 56) :
    s.Provides (mallocAt storage data room) := by
  refine ⟨mallocs_mallocAt h, ?_, ?_⟩
  · intro cap storage data hm
    unfold mallocAt at hm
    split at hm
    · cases hm
      omega
    · cases hm
  · intro cap storage data hm
    unfold mallocAt at hm
    split at hm
    · cases hm
      exact hne
    · cases hm

/-- A reset keeps the current block. -/
inductive Reached : AllocSet → Prop
  | create (initSize maxSize : Nat) : Reached (AllocSet.create initSize maxSize)
  | alloc {s s' : AllocSet} {malloc : Malloc} {size pointer : Nat} : Reached s →
    s.Provides malloc → s.Fit size → s.alloc malloc size = some (pointer, s') → Reached s'
  | free {s s' : AllocSet} {pointer : Nat} : Reached s → s.free pointer = some s' → Reached s'
  | reset {s : AllocSet} : Reached s →
    (s.freeptr = none ∨ s.freeptr = s.blocks.head?.map AllocBlock.storage) → Reached s.reset

theorem Sound.allocFit (h : Sound s) (hmalloc : Mallocs s malloc) (hfit : s.Fit size)
    (hrun : s.alloc malloc size = some (pointer, s')) : Sound s' := by
  apply h.alloc_of_lt hmalloc _ hfit.2 hrun
  have hsize := hfit.1
  unfold kChunkHdrSize sizeLimit at *
  split <;> omega

theorem Placed.alloc (h : Placed s) (hmalloc : AlignedMalloc malloc) (hfit : s.Fit size)
    (hrun : s.alloc malloc size = some (pointer, s')) : Placed s' := by
  obtain ⟨c, -, hfor, hc⟩ := handed_of_alloc hrun
  exact h.handed hmalloc hfor.pos hfor.lt (hfor.one_le hfit.1) hc

@[simp]
theorem blocks_take (s : AllocSet) (c : Chunk) (charge : Nat) :
    (s.take c charge).blocks = s.blocks := rfl

@[simp]
theorem live_take (s : AllocSet) (c : Chunk) (charge : Nat) :
    (s.take c charge).live = s.live.erase c := rfl

@[simp]
theorem freelist_take (s : AllocSet) (c : Chunk) (charge : Nat) :
    (s.take c charge).freelist = s.freelist := rfl

theorem blocks_unlink (s : AllocSet) (b : AllocBlock) :
    (s.unlink b).blocks = s.blocks.erase b := rfl

/-- What `free` does, when it is given the pointer of the chunk. -/
theorem free_cases (h : s.free pointer = some s') :
    ∃ c ∈ s.live, pointer = c.start + kChunkHdrSize ∧ s'.live = s.live.erase c ∧
      (∀ b ∈ s'.blocks, b ∈ s.blocks) ∧
      (c.external = true ∧ s'.freelist = s.freelist ∨
        c.external = false ∧ s'.blocks = s.blocks ∧ s'.freelist =
          Function.update s.freelist c.idx (c.start :: s.freelist c.idx)) := by
  obtain ⟨c, hfind, hrun⟩ := Option.bind_eq_some_iff.mp h
  have hpointer := List.find?_some hfind
  simp only [decide_eq_true_eq] at hpointer
  refine ⟨c, List.mem_of_find?_eq_some hfind, hpointer.symm, ?_⟩
  split at hrun
  case isTrue hexternal =>
    cases hrun
    unfold freeExternal
    split
    · rw [live_take, blocks_take, freelist_take]
      exact ⟨rfl, fun b hb => hb, Or.inl ⟨hexternal, rfl⟩⟩
    · rw [live_take, blocks_take, freelist_take, blocks_unlink]
      exact ⟨rfl, fun b hb => List.mem_of_mem_erase hb, Or.inl ⟨hexternal, rfl⟩⟩
  case isFalse hsmall =>
    cases hrun
    unfold freeSmall
    rw [live_take, blocks_take, freelist_take]
    exact ⟨rfl, fun b hb => hb, Or.inr ⟨Bool.eq_false_iff.mpr hsmall, rfl, rfl⟩⟩

theorem Placed.freed (h : Placed s) (hrun : s.free pointer = some s') : Placed s' := by
  obtain ⟨c, hc, -, hlive, hblocks, hfree⟩ := free_cases hrun
  refine ⟨fun b hb => h.blocks b (hblocks b hb), ?_, ?_⟩
  · intro i p hp
    rcases hfree with ⟨-, hsame⟩ | ⟨-, -, hlinked⟩
    · rw [hsame] at hp
      exact h.free i p hp
    · rw [hlinked] at hp
      by_cases hi : i = c.idx
      · subst i
        rw [Function.update_self] at hp
        rcases List.mem_cons.mp hp with rfl | hp
        · exact (h.live c hc).1
        · exact h.free c.idx p hp
      · rw [Function.update_of_ne hi] at hp
        exact h.free i p hp
  · intro d hd
    rw [hlive] at hd
    exact h.live d (List.mem_of_mem_erase hd)

theorem Placed.reset (h : Placed s) : Placed s.reset where
  blocks b hb := by
    unfold AllocSet.reset at hb
    dsimp only at hb
    split at hb
    · cases hb
    case h_2 keep rest hblocks =>
      obtain rfl := List.mem_singleton.mp hb
      obtain ⟨hdata, -, hbelow⟩ := h.blocks keep (by rw [hblocks]; exact List.mem_cons_self ..)
      exact ⟨hdata, hdata, hbelow⟩
  free := nofun
  live := nofun

theorem Reached.sound (h : Reached s) : Sound s := by
  induction h with
  | create initSize maxSize => exact sound_create initSize maxSize
  | alloc _ hmalloc hfit hrun ih => exact ih.allocFit hmalloc.mallocs hfit hrun
  | free _ hrun ih => exact ih.free hrun
  | reset _ hcurrent ih => exact ih.reset hcurrent

theorem Reached.placed (h : Reached s) : Placed s := by
  induction h with
  | create initSize maxSize => exact ⟨nofun, nofun, nofun⟩
  | alloc _ hmalloc hfit hrun ih => exact ih.alloc hmalloc.aligned hfit hrun
  | free _ hrun ih => exact ih.freed hrun
  | reset _ _ ih => exact ih.reset

theorem mem_freeChunks {freelist : Nat → List Nat} {p : Nat} (hidx : idx < kAllocSetNumFreelists)
    (hp : p ∈ freelist idx) : ⟨p, allocSetFreeListSize idx⟩ ∈ freeChunks freelist :=
  List.mem_flatMap.mpr ⟨idx, List.mem_range.mpr hidx, List.mem_map.mpr ⟨p, hp, rfl⟩⟩

/-- Whatever its size, a chunk starts where none of those that are handed out starts. -/
theorem Sound.start_ne (h : Sound s) (hmalloc : s.Provides malloc) (hc : Handed s malloc c s')
    (hidx : c.idx < kAllocSetNumFreelists) (hd : c' ∈ s.live) : c.start ≠ c'.start := by
  have hspan : c'.span ∈ s.pieces := List.mem_append_left _ (List.mem_map_of_mem hd)
  obtain ⟨hpos, x, hx, hin, hbelow⟩ := h.tiled.placed _ hspan
  have hin' : x.data ≤ c'.start ∧ c'.start + c'.space ≤ x.data + x.cap := hin
  have hpos' : 0 < c'.space := hpos
  have hnew {b : AllocBlock} {cap : Nat} (hb : createBlock malloc cap = some b) :
      b.data ≠ c'.start := by
    obtain ⟨⟨storage, data⟩, hm, rfl⟩ := Option.map_eq_some_iff.mp hb
    have hne := hmalloc.distinct _ _ _ hm x hx
    have happart := (hmalloc.mallocs _ _ _ hm).span_apart hx
    unfold Span.Apart Span.stop AllocBlock.span at happart
    dsimp only at happart ⊢
    omega
  cases hc with
  | @reused rest hfree _ =>
    have hmem := mem_freeChunks hidx (hfree ▸ List.mem_cons_self ..)
    have happart := (List.pairwise_append.mp h.tiled.apart).2.2 _ (List.mem_map_of_mem hd) _ hmem
    have hbucket := allocSetFreeListSize_pos c.idx
    have happart' : c'.start + c'.space ≤ c.start ∨
      c.start + allocSetFreeListSize c.idx ≤ c'.start := happart
    omega
  | @cut b hb hcurrent hroom hstart _ =>
    have hbumped := h.tiled.bumped b hb hcurrent
    by_cases heq : x = b
    · subst x
      have hstop : c'.start + c'.space ≤ b.freeptr := hbelow hcurrent
      omega
    · have happart := h.tiled.span_apart hx hb heq
      unfold Span.Apart Span.stop AllocBlock.span at happart
      dsimp only at happart
      have hbucket := allocSetFreeListSize_pos c.idx
      omega
  | opened hb hstart _ => exact hstart ▸ hnew hb
  | own hb hstart _ => exact hstart ▸ hnew hb

/-! ### Headers in the memory -/

/-- The header of the chunk is in the memory. -/
structure Headed (m : ByteMemory) (ctx : ContextAddress) (c : Chunk) : Prop where
  ctx : m.load64 c.start = ctx.val
  hdr : m.load64 (c.start + 8) = packHdr c.idx c.external

theorem Headed.congr {m m' : ByteMemory} {ctx : ContextAddress} (h : Headed m ctx c)
    (hagree : ByteMemory.AgreeOn ⟨c.start, kChunkHdrSize⟩ m m') : Headed m' ctx c where
  ctx := by
    have hin : Span.Inside ⟨c.start, 8⟩ ⟨c.start, kChunkHdrSize⟩ := by
      unfold Span.Inside Span.stop kChunkHdrSize
      dsimp only
      omega
    rw [(hagree.of_inside hin).load64_eq, h.ctx]
  hdr := by
    have hin : Span.Inside ⟨c.start + 8, 8⟩ ⟨c.start, kChunkHdrSize⟩ := by
      unfold Span.Inside Span.stop kChunkHdrSize
      dsimp only
      omega
    rw [(hagree.of_inside hin).load64_eq, h.hdr]

theorem Headed.context {m : ByteMemory} {ctx : ContextAddress} (h : Headed m ctx c)
    (hidx : c.idx < kAllocSetNumFreelists) :
    getMemoryChunkContext m (c.start + kChunkHdrSize) = ctx.val := by
  exact getMemoryChunkContext_allocSet hidx (Nat.succ_pos _) h.hdr h.ctx

/-- `WriteHdr` and `WriteCtx` -/
def writeHeader (ctx : ContextAddress) (c : Chunk) (m : ByteMemory) : ByteMemory :=
  (m.store64 (c.start + 8) (packHdr c.idx c.external)).store64 c.start ctx.val

variable {m : ByteMemory} {ctx : ContextAddress} {l : List Chunk}

theorem writeChunk_eq (h : s.live = c :: l) : s.writeChunk ctx m = writeHeader ctx c m := by
  unfold writeChunk
  rw [h]
  rfl

theorem headed_writeHeader (hidx : c.idx < kAllocSetNumFreelists) :
    Headed (writeHeader ctx c m) ctx c where
  ctx := by
    apply ByteMemory.load64_store64
    exact Nat.lt_trans ctx.lt (by decide)
  hdr := by
    have hagree : ByteMemory.AgreeOn ⟨c.start + 8, 8⟩
        (m.store64 (c.start + 8) (packHdr c.idx c.external)) (writeHeader ctx c m) := by
      apply ByteMemory.agreeOn_store64
      exact Or.inr (Nat.le_refl _)
    rw [hagree.load64_eq]
    exact ByteMemory.load64_store64 (packHdr_fields hidx c.external).1

theorem agreeOn_writeHeader {r : Span} (hr : r.Apart ⟨c.start, kChunkHdrSize⟩) :
    ByteMemory.AgreeOn r m (writeHeader ctx c m) := by
  unfold Span.Apart Span.stop kChunkHdrSize at hr
  dsimp only at hr
  apply (ByteMemory.agreeOn_store64 _).trans (ByteMemory.agreeOn_store64 _)
  · unfold Span.Apart Span.stop
    dsimp only
    omega
  · unfold Span.Apart Span.stop
    dsimp only
    omega

theorem agreeOn_writeLink {r : Span} (hr : c.external = false → r.Apart ⟨c.start, 8⟩) :
    ByteMemory.AgreeOn r m (s.writeLink c m) := by
  unfold writeLink
  split
  · exact ByteMemory.AgreeOn.refl r m
  · apply ByteMemory.agreeOn_store64
    exact hr (Bool.eq_false_iff.mpr ‹_›)

/-- The header of a new chunk, after the copy and when another chunk has been linked. -/
theorem Headed.moved {src n : Nat} (h : Headed m ctx c)
    (hapart : c.start + kChunkHdrSize ≤ c'.start ∨ c'.start + 8 ≤ c.start) :
    Headed (s.writeLink c' (m.copy (c.start + kChunkHdrSize) src n)) ctx c := by
  have hcopy : ByteMemory.AgreeOn ⟨c.start, kChunkHdrSize⟩ m
      (m.copy (c.start + kChunkHdrSize) src n) :=
    ByteMemory.agreeOn_copy (Or.inl (Nat.le_refl _))
  apply h.congr
  apply hcopy.trans
  apply agreeOn_writeLink
  intro _
  exact hapart

/-- What the header says of the space of a chunk. -/
theorem Headed.getChunkSpace (h : Headed m ctx c) (hidx : c.idx < kAllocSetNumFreelists) :
    allocSetGetChunkSpace m (c.start + kChunkHdrSize) =
      if c.external then 0 else allocSetFreeListSize c.idx - kChunkHdrSize := by
  obtain ⟨-, -, hexternal, hindex⟩ := packHdr_fields hidx c.external
  unfold allocSetGetChunkSpace
  dsimp only
  rw [show c.start + kChunkHdrSize - 8 = c.start + 8 from rfl, h.hdr, hindex]
  by_cases hc : c.external = true
  · rw [if_pos (hexternal.mpr hc), if_pos hc]
  · rw [if_neg (mt hexternal.mp hc), if_neg hc]

/-- A chunk starts in the lower part of the address space. -/
theorem Reached.start_le (h : Reached s) (hmalloc : AlignedMalloc malloc)
    (hidx : c.idx < kAllocSetNumFreelists) (hc : Handed s malloc c s') : c.start ≤ 2 ^ 56 := by
  have hblocks := h.placed.blocks
  cases hc with
  | @reused rest hfree _ =>
    have hmem := mem_freeChunks hidx (hfree ▸ List.mem_cons_self ..)
    obtain ⟨-, x, hx, hin, -⟩ := h.sound.tiled.placed _ (List.mem_append_right _ hmem)
    have hbelow := (hblocks x hx).2.2
    have hin' : x.data ≤ c.start ∧ c.start + allocSetFreeListSize c.idx ≤ x.data + x.cap := hin
    omega
  | @cut b hb _ hroom hstart _ =>
    have hbelow := (hblocks b hb).2.2
    omega
  | opened hb hstart _ =>
    have hbelow := (createBlock_placed hmalloc hb).2.2
    omega
  | own hb hstart _ =>
    have hbelow := (createBlock_placed hmalloc hb).2.2
    omega

end AllocSet

namespace BumpContext
variable {s s' : BumpContext} {malloc : Malloc} {size pointer : Nat} {b : BumpBlock}

/-- Blocks continue at multiples of 8 in the lower part of the address space. -/
structure Placed (s : BumpContext) : Prop where
  init : 0 < s.initBlockSize
  max : s.maxBlockSize ≤ 2 ^ 63
  blocks : ∀ b ∈ s.blocks, 8 ∣ b.data ∧ 8 ∣ b.freeptr ∧ b.freeptr ≤ b.data + b.cap ∧
    b.data + b.cap ≤ 2 ^ 56

/-- With a larger maximum the doubling of a block size may never end. -/
inductive Reached : BumpContext → Prop
  | create {initSize maxSize : Nat} : 0 < initSize → maxSize ≤ 2 ^ 63 →
    Reached (BumpContext.create initSize maxSize)
  | alloc {s s' : BumpContext} {malloc : Malloc} {size pointer : Nat} : Reached s →
    AlignedMalloc malloc → s.alloc malloc size = some (pointer, s') → Reached s'
  | reset {s : BumpContext} : Reached s → Reached s.reset

theorem dvd_totalSize (size : Nat) : 8 ∣ totalSize size := by
  have hlimit : sizeLimit = 18446744073709551616 := rfl
  unfold totalSize alignSize bumpHeaderSize
  rw [hlimit]
  omega

theorem createBlock_placed {cap : Nat} (hmalloc : AlignedMalloc malloc)
    (h : createBlock malloc cap = some b) :
    8 ∣ b.data ∧ b.freeptr = b.data ∧ b.cap = cap ∧ b.data + b.cap ≤ 2 ^ 56 := by
  obtain ⟨⟨node, data⟩, hm, rfl⟩ := Option.map_eq_some_iff.mp h
  obtain ⟨hdata, hbelow⟩ := hmalloc _ _ _ hm
  refine ⟨?_, rfl, rfl, hbelow⟩
  exact Nat.dvd_trans (by decide) hdata

theorem Placed.cons (h : Placed s) (hb : 8 ∣ b.data ∧ 8 ∣ b.freeptr ∧
    b.freeptr ≤ b.data + b.cap ∧ b.data + b.cap ≤ 2 ^ 56) :
    ∀ x ∈ b :: s.blocks, 8 ∣ x.data ∧ 8 ∣ x.freeptr ∧ x.freeptr ≤ x.data + x.cap ∧
      x.data + x.cap ≤ 2 ^ 56 := by
  intro x hx
  rcases List.mem_cons.mp hx with rfl | hx
  · exact hb
  · exact h.blocks x hx

/-- The chunk starts at a multiple of 8. -/
theorem Placed.alloc (h : Placed s) (hmalloc : AlignedMalloc malloc)
    (hrun : s.alloc malloc size = some (pointer, s')) :
    Placed s' ∧ ∃ start, pointer = start + bumpHeaderSize ∧ 8 ∣ start ∧ start ≤ 2 ^ 56 := by
  have htotal := dvd_totalSize size
  unfold BumpContext.alloc at hrun
  dsimp only at hrun
  split at hrun
  · obtain ⟨b, hblock, heq⟩ := Option.map_eq_some_iff.mp hrun
    obtain ⟨hdata, hfree, -, hbelow⟩ := createBlock_placed hmalloc hblock
    cases heq
    refine ⟨⟨h.init, h.max, ?_⟩, b.data, rfl, hdata, by omega⟩
    exact h.cons ⟨hdata, hfree ▸ hdata, by omega, hbelow⟩
  · rename_i hsmall
    split at hrun
    · rename_i b rest hroom
      obtain ⟨hblocks, hfits⟩ := room_eq hroom
      obtain ⟨hdata, hfree, hle, hbelow⟩ := h.blocks b (hblocks ▸ List.mem_cons_self ..)
      cases hrun
      refine ⟨⟨h.init, h.max, ?_⟩, b.freeptr, rfl, hfree, by omega⟩
      intro x hx
      rcases List.mem_cons.mp hx with rfl | hx
      · exact ⟨hdata, Nat.dvd_add hfree htotal, hfits, hbelow⟩
      · exact h.blocks x (hblocks ▸ List.mem_cons_of_mem b hx)
    · obtain ⟨b, hblock, heq⟩ := Option.map_eq_some_iff.mp hrun
      obtain ⟨hdata, hfree, hcap, hbelow⟩ := createBlock_placed hmalloc hblock
      have hmax := h.max
      have hfits := le_newCap h.init (by omega) (Nat.not_lt.mp hsmall)
      cases heq
      refine ⟨⟨h.init, h.max, ?_⟩, b.freeptr, rfl, hfree ▸ hdata, by omega⟩
      apply h.cons
      refine ⟨hdata, Nat.dvd_add (hfree ▸ hdata) htotal, ?_, hbelow⟩
      dsimp only
      omega

theorem Reached.placed (h : Reached s) : Placed s := by
  induction h with
  | create hinit hmax => exact ⟨hinit, hmax, nofun⟩
  | alloc _ hmalloc hrun ih => exact (ih.alloc hmalloc hrun).1
  | reset _ ih => exact ⟨ih.init, ih.max, nofun⟩

end BumpContext

end JiaMiaoDB
