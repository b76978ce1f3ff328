import JiaMiaoDB.Common.ChunkPlaces

/-!
# Who owns a chunk

What a context returns has its header right before it, so the header leads back to the context. A
pointer that was moved up to an alignment has no header of its own: before it are bytes of the chunk.
-/

set_option autoImplicit false

namespace JiaMiaoDB

/-! ### Both kinds of contexts -/

namespace ContextData

def Reached : ContextData → Prop
  | .allocSet s => s.Reached
  | .bump s => s.Reached

def Provides : ContextData → Malloc → Prop
  | .allocSet s, malloc => s.Provides malloc
  | .bump _, malloc => AlignedMalloc malloc

/-- The pointer that the context returns. -/
def place (malloc : Malloc) (size : Nat) : ContextData → Option Nat
  | .allocSet s => (s.alloc malloc size).map Prod.fst
  | .bump s => (s.alloc malloc size).map Prod.fst

end ContextData

namespace Heap
variable {h h' : Heap} {malloc : Malloc} {size align flags pointer p raw : Nat}

/-- The pointer is one that is handed out, and its header is in the memory. -/
def Owns (h : Heap) (pointer : Nat) : Prop :=
  match h.data with
  | .allocSet s => ∃ c ∈ s.live, pointer = c.start + kChunkHdrSize ∧ AllocSet.Headed h.mem h.ctx c
  | .bump s => ∃ c ∈ s.live, pointer = c.start + bumpHeaderSize ∧
    h.mem.load64 c.start = h.ctx.val <<< 8 ||| kMCTypeBump

/-- The context of the pointer is found, and the bytes from the pointer on are as before. -/
structure Returned (h : Heap) (pointer : Nat) (h' : Heap) : Prop where
  ctx : h'.ctx = h.ctx
  context : getMemoryChunkContext h'.mem pointer = h.ctx.val
  pos : 8 ≤ pointer
  dvd : 8 ∣ pointer
  le : pointer ≤ 2 ^ 56 + 16
  payload : ∀ x, pointer ≤ x → h'.mem x = h.mem x

theorem alloc_returned (hs : h.data.Reached) (hmalloc : h.data.Provides malloc)
    (hrun : h.alloc malloc size = some (p, h')) :
    h.data.place malloc size = some p ∧ Returned h p h' := by
  unfold Heap.alloc at hrun
  cases hdata : h.data with
  | allocSet s =>
    rw [hdata] at hs hmalloc hrun
    obtain ⟨⟨p, s'⟩, halloc, heq⟩ := Option.map_eq_some_iff.mp hrun
    cases heq
    have hs' : AllocSet.Reached s := hs
    have hmalloc' : AllocSet.Provides s malloc := hmalloc
    refine ⟨congrArg (Option.map Prod.fst) halloc, ?_⟩
    obtain ⟨c, rfl, hfor, hc⟩ := AllocSet.handed_of_alloc halloc
    have hstart := hs'.placed.start_of_handed hmalloc'.aligned hc
    rw [AllocSet.writeChunk_eq hc.live]
    have hheaded : AllocSet.Headed (AllocSet.writeHeader h.ctx c h.mem) h.ctx c :=
      AllocSet.headed_writeHeader hfor.lt
    have hhdr : kChunkHdrSize = 16 := rfl
    refine ⟨rfl, hheaded.context hfor.lt, by omega, by omega, ?_, ?_⟩
    · have hbound := hs'.start_le hmalloc'.aligned hfor.lt hc
      omega
    · intro x hx
      apply AllocSet.agreeOn_writeHeader (r := ⟨x, 1⟩)
      · exact Or.inr hx
      · exact Nat.le_refl x
      · exact Nat.lt_succ_self x
  | bump s =>
    rw [hdata] at hs hmalloc hrun
    obtain ⟨⟨p, s'⟩, halloc, heq⟩ := Option.map_eq_some_iff.mp hrun
    cases heq
    have hs' : BumpContext.Reached s := hs
    refine ⟨congrArg (Option.map Prod.fst) halloc, ?_⟩
    obtain ⟨-, start, rfl, hstart, hbound⟩ := hs'.placed.alloc hmalloc halloc
    have hhdr : bumpHeaderSize = 8 := rfl
    refine ⟨rfl, ?_, by omega, by omega, by omega, ?_⟩
    · apply getMemoryChunkContext_bump (Nat.succ_pos _)
      apply ByteMemory.load64_store64
      exact (bumpHeader_fields h.ctx).1
    · intro x hx
      apply ByteMemory.agreeOn_store64 (r := ⟨x, 1⟩)
      · refine Or.inr (Nat.le_trans ?_ hx)
        change start + bumpHeaderSize - 8 + 8 ≤ start + bumpHeaderSize
        omega
      · exact Nat.le_refl x
      · exact Nat.lt_succ_self x

theorem allocExtended_returned (hs : h.data.Reached) (hmalloc : h.data.Provides malloc)
    (hrun : h.allocExtended malloc size flags = some (p, h')) :
    (flags &&& kMCXT_ALLOC_HUGE = 0 → size ≤ kMaxAllocSize) ∧ h.data.place malloc size = some p ∧
      h'.ctx = h.ctx ∧ getMemoryChunkContext h'.mem p = h.ctx.val ∧ 8 ≤ p ∧ 8 ∣ p ∧
      p ≤ 2 ^ 56 + 16 ∧ ∀ x, p ≤ x → h'.mem x = h.mem x ∨ h'.mem x = 0 := by
  unfold Heap.allocExtended at hrun
  split at hrun
  · cases hrun
  · rename_i hlimit
    obtain ⟨⟨p, h₁⟩, halloc, heq⟩ := Option.bind_eq_some_iff.mp hrun
    cases heq
    obtain ⟨hplace, hret⟩ := alloc_returned hs hmalloc halloc
    refine ⟨by omega, hplace, hret.ctx, ?_, hret.pos, hret.dvd, hret.le, ?_⟩
    · dsimp only
      split
      · rw [← hret.context]
        apply getMemoryChunkContext_congr hret.pos
        intro x hx
        exact ByteMemory.write_of_outside (Or.inl hx)
      · exact hret.context
    · intro x hx
      dsimp only
      split
      · rw [← hret.payload x hx]
        exact ByteMemory.fill_cases.symm
      · exact Or.inl (hret.payload x hx)

/-! ### Moving up to an alignment -/

theorem alignUp_spec {k : Nat} (hk : k < 64) (hraw : raw ≤ 2 ^ 57) :
    ∃ offset < 2 ^ k, alignUp raw (2 ^ k) = raw + offset ∧ 2 ^ k ∣ raw + offset := by
  have hpos := Nat.two_pow_pos k
  have hle : 2 ^ k ≤ 2 ^ 63 := Nat.pow_le_pow_right (by decide) (Nat.le_of_lt_succ hk)
  have hlimit : sizeLimit = 18446744073709551616 := rfl
  have hmod : (raw + 2 ^ k - 1) % sizeLimit = raw + 2 ^ k - 1 := by
    apply Nat.mod_eq_of_lt
    omega
  have hlow := Nat.div_mul_le_self (raw + 2 ^ k - 1) (2 ^ k)
  have hhigh := Nat.lt_div_mul_add (a := raw + 2 ^ k - 1) hpos
  refine ⟨(raw + 2 ^ k - 1) / 2 ^ k * 2 ^ k - raw, ?_, ?_, ?_⟩
  · omega
  · unfold alignUp
    rw [hmod]
    omega
  · have heq : raw + ((raw + 2 ^ k - 1) / 2 ^ k * 2 ^ k - raw) =
        (raw + 2 ^ k - 1) / 2 ^ k * 2 ^ k := by omega
    rw [heq]
    exact Nat.dvd_mul_left ..

/-- The offset that `MemoryContextAllocAligned` adds. -/
theorem offset_spec {k : Nat} (hk : k < 64) (hraw : raw ≤ 2 ^ 57) :
    ∃ offset < 2 ^ k, (alignUp raw (2 ^ k) + (sizeLimit - raw)) % sizeLimit = offset ∧
      2 ^ k ∣ raw + offset := by
  obtain ⟨offset, hlt, heq, hdvd⟩ := alignUp_spec hk hraw
  have hle : 2 ^ k ≤ 2 ^ 63 := Nat.pow_le_pow_right (by decide) (Nat.le_of_lt_succ hk)
  have hlimit : sizeLimit = 18446744073709551616 := rfl
  refine ⟨offset, hlt, ?_, hdvd⟩
  rw [heq, hlimit]
  omega

/-- Without an offset the pointer has its header, with one it is 8 bytes at least. -/
theorem allocAligned_cases {k : Nat} (hk : k < 64) (hs : h.data.Reached)
    (hmalloc : h.data.Provides malloc) (halign : 8 < 2 ^ k)
    (hrun : h.allocAligned malloc size (2 ^ k) flags = some (p, h')) :
    ∃ raw, h.allocExtended malloc (padSize size (2 ^ k)) flags = some (raw, h') ∧
      (2 ^ k ∣ raw ∧ p = raw ∨ ¬ 2 ^ k ∣ raw ∧ raw + 8 ≤ p) := by
  unfold Heap.allocAligned at hrun
  rw [if_neg (Nat.not_le.mpr halign)] at hrun
  obtain ⟨⟨raw, h₁⟩, halloc, heq⟩ := Option.bind_eq_some_iff.mp hrun
  cases heq
  refine ⟨raw, halloc, ?_⟩
  obtain ⟨-, -, -, -, hpos, hdvd, hle, -⟩ := allocExtended_returned hs hmalloc halloc
  have hbound : raw ≤ 2 ^ 57 := by omega
  obtain ⟨offset, hlt, hoffset, hdvd'⟩ := offset_spec hk hbound
  rw [hoffset]
  by_cases hraw : 2 ^ k ∣ raw
  · have hzero : offset = 0 := Nat.eq_zero_of_dvd_of_lt ((Nat.dvd_add_right hraw).mp hdvd') hlt
    left
    exact ⟨hraw, by omega⟩
  · right
    refine ⟨hraw, ?_⟩
    have height : 8 ∣ 2 ^ k := Nat.pow_dvd_pow 2 (m := 3) (by
      by_contra hsmall
      have hle : 2 ^ k ≤ 2 ^ 3 := Nat.pow_le_pow_right (by decide) (by omega)
      omega)
    have hoff : 8 ∣ offset := (Nat.dvd_add_right hdvd).mp (Nat.dvd_trans height hdvd')
    have hne : offset ≠ 0 := by
      rintro rfl
      exact hraw hdvd'
    obtain ⟨n, rfl⟩ := hoff
    omega

/-! ### Reallocation -/

theorem allocSet_methodsRealloc_context {s : AllocSet} (hdata : h.data = .allocSet s)
    (hs : s.Reached) (hmalloc : s.Provides malloc) (howns : h.Owns pointer)
    (hrun : h.methodsRealloc malloc pointer size = some (p, h')) :
    8 ≤ p ∧ getMemoryChunkContext h'.mem p = h.ctx.val := by
  unfold Heap.methodsRealloc at hrun
  rw [hdata] at hrun
  obtain ⟨⟨new, h₁⟩, halloc, hrun⟩ := Option.bind_eq_some_iff.mp hrun
  obtain ⟨h₂, hfree, heq⟩ := Option.bind_eq_some_iff.mp hrun
  cases heq
  unfold Heap.Owns at howns
  rw [hdata] at howns
  obtain ⟨d, hd, rfl, -⟩ := howns
  unfold Heap.alloc at halloc
  rw [hdata] at halloc
  obtain ⟨⟨_, s₁⟩, hset, heq⟩ := Option.map_eq_some_iff.mp halloc
  cases heq
  obtain ⟨c, rfl, hfor, hc⟩ := AllocSet.handed_of_alloc hset
  have hstart := hs.placed.start_of_handed hmalloc.aligned hc
  have hheaded : AllocSet.Headed (AllocSet.writeHeader h.ctx c h.mem) h.ctx c :=
    AllocSet.headed_writeHeader hfor.lt
  have hhdr : kChunkHdrSize = 16 := rfl
  refine ⟨by omega, ?_⟩
  unfold Heap.free at hfree
  dsimp only at hfree
  obtain ⟨d', hd', hfree⟩ := Option.bind_eq_some_iff.mp hfree
  obtain ⟨s₂, -, heq⟩ := Option.bind_eq_some_iff.mp hfree
  cases heq
  dsimp only
  have hpointer := List.find?_some hd'
  simp only [decide_eq_true_eq] at hpointer
  have hsame : d'.start = d.start := by omega
  -- The old chunk starts elsewhere, and both starts are multiples of 16.
  have hne := hs.sound.start_ne hmalloc hc hfor.lt hd
  have hdvd := (hs.placed.live d hd).1
  rw [AllocSet.writeChunk_eq hc.live]
  exact (hheaded.moved (by omega)).context hfor.lt

theorem realloc_context (hs : h.data.Reached) (hmalloc : h.data.Provides malloc)
    (howns : pointer ≠ 0 → h.Owns pointer) (hsize : 0 < size)
    (hrun : h.realloc malloc pointer size = some (p, h')) :
    8 ≤ p ∧ getMemoryChunkContext h'.mem p = h.ctx.val := by
  unfold Heap.realloc at hrun
  by_cases hpointer : pointer = 0
  · rw [if_pos hpointer] at hrun
    obtain ⟨-, -, -, hcontext, hpos, -⟩ := allocExtended_returned hs hmalloc hrun
    exact ⟨hpos, hcontext⟩
  · rw [if_neg hpointer, if_neg (by omega)] at hrun
    split at hrun
    case isFalse => cases hrun
    case isTrue =>
      cases hdata : h.data with
      | allocSet s =>
        rw [hdata] at hs hmalloc
        exact allocSet_methodsRealloc_context hdata hs hmalloc (howns hpointer) hrun
      | bump s =>
        unfold Heap.methodsRealloc at hrun
        rw [hdata] at hrun
        obtain ⟨⟨new, h₁⟩, halloc, heq⟩ := Option.bind_eq_some_iff.mp hrun
        cases heq
        obtain ⟨-, hret⟩ := alloc_returned hs hmalloc halloc
        refine ⟨hret.pos, ?_⟩
        rw [← hret.context]
        apply getMemoryChunkContext_congr hret.pos
        intro x hx
        exact ByteMemory.write_of_outside (Or.inl hx)

/-! ### The entry points -/

inductive Request where
  | extended (size flags : Nat)
  | aligned (size align flags : Nat)
  | realloc (pointer size : Nat)
  | realloc0 (pointer oldSize newSize : Nat)

def serve (h : Heap) (malloc : Malloc) : Request → Option (Nat × Heap)
  | .extended size flags => h.allocExtended malloc size flags
  | .aligned size align flags => h.allocAligned malloc size align flags
  | .realloc pointer size => h.realloc malloc pointer size
  | .realloc0 pointer oldSize newSize => h.realloc0 malloc pointer oldSize newSize

/-- The alignment is a power of two, and what is reallocated is handed out, for a positive size. -/
def Legal (h : Heap) : Request → Prop
  | .extended _ _ => True
  | .aligned _ align _ => ∃ k < 64, align = 2 ^ k
  | .realloc pointer size => (pointer ≠ 0 → h.Owns pointer) ∧ 0 < size
  | .realloc0 pointer _ newSize => (pointer ≠ 0 → h.Owns pointer) ∧ 0 < newSize

/-- Where the context returns a padded request, it happens to be aligned. -/
def Direct (data : ContextData) (malloc : Malloc) : Request → Prop
  | .aligned size align flags => 8 < align →
    (flags &&& kMCXT_ALLOC_HUGE = 0 → padSize size align ≤ kMaxAllocSize) →
      ∀ raw, data.place malloc (padSize size align) = some raw → align ∣ raw
  | _ => True

/-- Whatever the memory contains. -/
def Owned (ctx : ContextAddress) (data : ContextData) (malloc : Malloc) (r : Request) : Prop :=
  ∀ mem, Heap.Legal ⟨ctx, data, mem⟩ r → ∀ p h', Heap.serve ⟨ctx, data, mem⟩ malloc r = some (p, h') →
    getMemoryChunkContext h'.mem p = ctx.val

theorem realloc0_context {oldSize : Nat} (hs : h.data.Reached) (hmalloc : h.data.Provides malloc)
    (howns : pointer ≠ 0 → h.Owns pointer) (hsize : 0 < size)
    (hrun : h.realloc0 malloc pointer oldSize size = some (p, h')) :
    getMemoryChunkContext h'.mem p = h.ctx.val := by
  obtain ⟨⟨new, h₁⟩, hrealloc, heq⟩ := Option.bind_eq_some_iff.mp hrun
  cases heq
  obtain ⟨hpos, hcontext⟩ := realloc_context hs hmalloc howns hsize hrealloc
  dsimp only
  rw [← hcontext]
  apply getMemoryChunkContext_congr hpos
  intro x hx
  split
  · exact ByteMemory.write_of_outside (Or.inl (Nat.lt_of_lt_of_le hx (Nat.le_add_right ..)))
  · rfl

/-- In a memory of zeros there is no header before a pointer that was moved up. -/
theorem getMemoryChunkContext_of_zero {m : ByteMemory} (hraw : raw + 8 ≤ p)
    (hzero : ∀ x, raw ≤ x → m x = 0) : getMemoryChunkContext m p = 0 := by
  have hload : m.load64 (p - 8) = 0 := by
    apply ByteMemory.load64_zero
    intro i _
    apply hzero
    omega
  unfold getMemoryChunkContext
  rw [if_neg (by omega)]
  dsimp only
  rw [hload]
  rfl

variable {ctx : ContextAddress} {data : ContextData}

/-- A request that has a place is served. -/
theorem exists_allocAligned (ctx : ContextAddress) (mem : ByteMemory) (halign : 8 < align)
    (hlimit : flags &&& kMCXT_ALLOC_HUGE = 0 → padSize size align ≤ kMaxAllocSize)
    (hplace : data.place malloc (padSize size align) = some raw) :
    ∃ p h', Heap.allocAligned ⟨ctx, data, mem⟩ malloc size align flags = some (p, h') := by
  obtain ⟨h₁, halloc⟩ : ∃ h₁, Heap.alloc ⟨ctx, data, mem⟩ malloc (padSize size align) =
      some (raw, h₁) := by
    unfold Heap.alloc
    unfold ContextData.place at hplace
    cases data with
    | allocSet s =>
      obtain ⟨⟨_, s'⟩, hs, rfl⟩ := Option.map_eq_some_iff.mp hplace
      exact ⟨_, congrArg (Option.map _) hs⟩
    | bump s =>
      obtain ⟨⟨_, s'⟩, hs, rfl⟩ := Option.map_eq_some_iff.mp hplace
      exact ⟨_, congrArg (Option.map _) hs⟩
  unfold Heap.allocAligned Heap.allocExtended
  rw [if_neg (by omega), if_neg (by omega), halloc]
  exact ⟨_, _, rfl⟩

theorem direct_of_owned (hs : data.Reached) (hmalloc : data.Provides malloc) {r : Request}
    (hr : ∀ size align flags, r = .aligned size align flags → ∃ k < 64, align = 2 ^ k)
    (howned : Owned ctx data malloc r) : Direct data malloc r := by
  cases r with
  | extended size flags => trivial
  | realloc pointer size => trivial
  | realloc0 pointer oldSize newSize => trivial
  | aligned size align flags =>
    obtain ⟨k, hk, rfl⟩ := hr size align flags rfl
    intro halign hlimit raw hplace
    by_contra hraw
    -- With zeros everywhere the bytes before the pointer are those of the chunk.
    have hmem := exists_allocAligned ctx (fun _ => 0) halign hlimit hplace
    obtain ⟨p, h', hrun⟩ := hmem
    have hcontext := howned (fun _ => 0) ⟨k, hk, rfl⟩ p h' hrun
    obtain ⟨raw', halloc, hcases⟩ := allocAligned_cases hk hs hmalloc halign hrun
    obtain ⟨-, hplace', -, -, -, -, -, hpayload⟩ := allocExtended_returned hs hmalloc halloc
    obtain rfl : raw = raw' := Option.some.inj (hplace.symm.trans hplace')
    rcases hcases with ⟨hdvd, -⟩ | ⟨-, hle⟩
    · exact hraw hdvd
    · have hzero := getMemoryChunkContext_of_zero hle fun x hx => (hpayload x hx).elim id id
      have hpos := ctx.pos
      omega

/-- The header law, in every reached state and for every request. -/
theorem owned_iff (hs : data.Reached) (hmalloc : data.Provides malloc) (r : Request)
    (hr : ∀ size align flags, r = .aligned size align flags → ∃ k < 64, align = 2 ^ k) :
    Owned ctx data malloc r ↔ Direct data malloc r := by
  constructor
  · exact direct_of_owned hs hmalloc hr
  · intro hdirect mem hlegal p h' hrun
    cases r with
    | extended size flags => exact (allocExtended_returned hs hmalloc hrun).2.2.2.1
    | realloc pointer size => exact (realloc_context hs hmalloc hlegal.1 hlegal.2 hrun).2
    | realloc0 pointer oldSize newSize => exact realloc0_context hs hmalloc hlegal.1 hlegal.2 hrun
    | aligned size align flags =>
      obtain ⟨k, hk, rfl⟩ := hlegal
      change Heap.allocAligned _ _ _ _ _ = _ at hrun
      by_cases halign : 8 < 2 ^ k
      · obtain ⟨raw, halloc, ⟨-, rfl⟩ | ⟨hnot, -⟩⟩ := allocAligned_cases hk hs hmalloc halign hrun
        · exact (allocExtended_returned hs hmalloc halloc).2.2.2.1
        · obtain ⟨hlimit, hplace, -⟩ := allocExtended_returned hs hmalloc halloc
          exact absurd (hdirect halign hlimit raw hplace) hnot
      · unfold Heap.allocAligned at hrun
        rw [if_pos (Nat.not_lt.mp halign)] at hrun
        exact (allocExtended_returned hs hmalloc hrun).2.2.2.1

/-- A new set whose `malloc` gives one block. -/
theorem provides_create : ContextData.Provides (.allocSet (AllocSet.create 8192 65536))
    (AllocSet.mallocAt 1000 100000 8192) := by
  refine ⟨?_, ?_, nofun⟩
  · apply AllocSet.mallocs_mallocAt
    exact ⟨by decide, by decide⟩
  · intro cap storage data hm
    unfold AllocSet.mallocAt at hm
    split at hm
    · cases hm
      omega
    · cases hm

theorem reached_create : ContextData.Reached (.allocSet (AllocSet.create 8192 65536)) :=
  AllocSet.Reached.create 8192 65536

theorem place_create : ContextData.place (AllocSet.mallocAt 1000 100000 8192) 108
    (.allocSet (AllocSet.create 8192 65536)) = some 100016 := rfl

/-- The first chunk starts at a multiple of 16. -/
theorem owned_aligned16 : Owned ⟨4096, by decide, by decide⟩
    (.allocSet (AllocSet.create 8192 65536)) (AllocSet.mallocAt 1000 100000 8192)
    (.aligned 100 16 0) := by
  refine (owned_iff reached_create provides_create _ ?_).mpr ?_
  · intro size align flags heq
    cases heq
    exact ⟨4, by decide, rfl⟩
  · intro _ _ raw hplace
    have hpad : padSize 100 16 = 108 := rfl
    rw [hpad, place_create] at hplace
    cases hplace
    decide

/-- An alignment of 64 takes the pointer 16 bytes away from its header. -/
theorem not_owned : ¬ ∀ ctx data malloc, data.Reached → data.Provides malloc → ∀ r : Request,
    (∀ size align flags, r = .aligned size align flags → ∃ k < 64, align = 2 ^ k) →
      Owned ctx data malloc r := by
  intro hall
  have hpow (size align flags : Nat) (heq : Request.aligned 52 64 0 = .aligned size align flags) :
      ∃ k < 64, align = 2 ^ k := by
    cases heq
    exact ⟨6, by decide, rfl⟩
  have howned := hall ⟨4096, by decide, by decide⟩ _ _ reached_create provides_create
    (.aligned 52 64 0) hpow
  have hdirect := direct_of_owned reached_create provides_create hpow howned
  have hdvd := hdirect (by decide) (fun _ => by decide) 100016 place_create
  revert hdvd
  decide

end Heap

end JiaMiaoDB
