import JiaMiaoDB.Common.ReallocContents
import JiaMiaoDB.Lib.Chain

/-!
# Chunks and free lists in the memory

Between two calls the program writes where it likes, except to the headers of the chunks and to the
links of the free ones. What the set says of its chunks and free lists is then what the memory says.
-/

set_option autoImplicit false

namespace JiaMiaoDB
namespace AllocSet
variable {s s' : AllocSet} {malloc : Malloc} {c d : Chunk} {i p size : Nat} {ctx : ContextAddress}
  {m m' : ByteMemory}

/-- The free chunk that a free one is linked to. -/
def nextFree (m : ByteMemory) (p : Nat) : Option Nat :=
  if m.load64 p = 0 then none else some (m.load64 p)

/-- Chunks have their headers, and following the links from the head of a free list visits the free
chunks of that size and ends with null. -/
structure InMemory (ctx : ContextAddress) (s : AllocSet) (m : ByteMemory) : Prop where
  headed : ∀ c ∈ s.live, Headed m ctx c
  linked : ∀ i < kAllocSetNumFreelists,
    Chain (nextFree m) (s.freelist i).head? (s.freelist i) none

/-- Nothing is written to the headers and the links. -/
structure Leaves (s : AllocSet) (m m' : ByteMemory) : Prop where
  headers : ∀ c ∈ s.live, ByteMemory.AgreeOn ⟨c.start, kChunkHdrSize⟩ m m'
  links : ∀ i < kAllocSetNumFreelists, ∀ p ∈ s.freelist i, ByteMemory.AgreeOn ⟨p, 8⟩ m m'

inductive HeapRun (ctx : ContextAddress) : AllocSet → ByteMemory → Prop
  | create (initSize maxSize : Nat) (m : ByteMemory) : HeapRun ctx (AllocSet.create initSize maxSize) m
  | alloc {s s' : AllocSet} {m m' : ByteMemory} {malloc : Malloc} {size p : Nat} : HeapRun ctx s m →
    s.Provides malloc → s.Fit size →
    Heap.alloc ⟨ctx, .allocSet s, m⟩ malloc size = some (p, ⟨ctx, .allocSet s', m'⟩) → HeapRun ctx s' m'
  | free {s s' : AllocSet} {m m' : ByteMemory} {c : Chunk} : HeapRun ctx s m → c ∈ s.live →
    Heap.memoryContextFree ⟨ctx, .allocSet s, m⟩ (c.start + kChunkHdrSize) =
      some ⟨ctx, .allocSet s', m'⟩ → HeapRun ctx s' m'
  | reset {s : AllocSet} {m : ByteMemory} : HeapRun ctx s m →
    (s.freeptr = none ∨ s.freeptr = s.blocks.head?.map AllocBlock.storage) → HeapRun ctx s.reset m
  | write {s : AllocSet} {m m' : ByteMemory} : HeapRun ctx s m → s.Leaves m m' → HeapRun ctx s m'

/-! ### What one call does -/

theorem nextFree_congr (h : ByteMemory.AgreeOn ⟨p, 8⟩ m m') : nextFree m' p = nextFree m p := by
  unfold nextFree
  rw [h.load64_eq]

/-- A chunk and a free one are apart. -/
theorem Sound.free_ne (h : Sound s) (hc : c ∈ s.live) (hi : i < kAllocSetNumFreelists)
    (hp : p ∈ s.freelist i) : c.start ≠ p := by
  have happart := (List.pairwise_append.mp h.tiled.apart).2.2 _ (List.mem_map_of_mem hc) _
    (mem_freeChunks hi hp)
  have hsize := (h.fits c hc).size
  have hbucket := allocSetFreeListSize_pos i
  have hhdr : kChunkHdrSize = 16 := rfl
  unfold Span.Apart Span.stop Chunk.span at happart
  dsimp only at happart
  omega

theorem Sound.one_le_free (h : Sound s) (hi : i < kAllocSetNumFreelists) (hp : p ∈ s.freelist i) :
    1 ≤ p ∧ p < sizeLimit := by
  have hpieces := List.mem_append_right (s.live.map Chunk.span) (mem_freeChunks hi hp)
  obtain ⟨-, b, hb, hin, -⟩ := h.tiled.placed _ hpieces
  have hbounds := h.tiled.bounds b.span (List.mem_flatMap.mpr ⟨b, hb, .tail _ (.head _)⟩)
  have hbucket := allocSetFreeListSize_pos i
  unfold Span.Inside Span.stop at *
  dsimp only at *
  omega

/-- Writes that leave the headers and links leave what they say. -/
theorem InMemory.leaves (h : InMemory ctx s m) (hm : s.Leaves m m') : InMemory ctx s m' where
  headed c hc := (h.headed c hc).congr (hm.headers c hc)
  linked i hi := by
    apply (h.linked i hi).congr
    intro p hp
    exact nextFree_congr (hm.links i hi p hp)

/-- A new header is apart from the others and from the links. -/
theorem InMemory.alloc (h : InMemory ctx s m) (hs : s.Reached) (hs' : Sound s')
    (hmalloc : s.Provides malloc) (hidx : d.idx < kAllocSetNumFreelists)
    (hd : Handed s malloc d s') (hplaced : Placed s') :
    InMemory ctx s' (writeHeader ctx d m) := by
  have hfresh (x : Chunk) (hx : x ∈ s.live) := hs.sound.start_ne hmalloc hd hidx hx
  have hmem : d ∈ s'.live := by
    rw [hd.live]
    exact List.mem_cons_self ..
  -- The lists before the header is written.
  have hlists (i : Nat) (hi : i < kAllocSetNumFreelists) :
      Chain (nextFree m) (s'.freelist i).head? (s'.freelist i) none := by
    cases hd with
    | @reused rest hfree _ =>
      change Chain (nextFree m) (Function.update s.freelist d.idx rest i).head?
        (Function.update s.freelist d.idx rest i) none
      by_cases heq : i = d.idx
      · subst i
        have hchain := h.linked d.idx hi
        rw [hfree, Chain.cons_iff] at hchain
        rw [Function.update_self]
        have hrest := hchain.2
        have hstart := hrest.start
        rw [Option.or_none] at hstart
        rwa [hstart] at hrest
      · rw [Function.update_of_ne heq]
        exact h.linked i hi
    | cut => exact h.linked i hi
    | opened => exact h.linked i hi
    | own => exact h.linked i hi
  constructor
  · intro c hc
    rw [hd.live] at hc
    rcases List.mem_cons.mp hc with rfl | hc
    · exact headed_writeHeader hidx
    · apply (h.headed c hc).congr
      have hne := hfresh c hc
      have hdvd := (hplaced.live c (by rw [hd.live]; exact List.mem_cons_of_mem d hc)).1
      have hdvd' := (hplaced.live d hmem).1
      have hhdr : kChunkHdrSize = 16 := rfl
      apply agreeOn_writeHeader
      unfold Span.Apart Span.stop
      dsimp only
      omega
  · intro i hi
    apply (hlists i hi).congr
    intro p hp
    have hne := hs'.free_ne hmem hi hp
    have hdvd := hplaced.free i p hp
    have hdvd' := (hplaced.live d hmem).1
    have hhdr : kChunkHdrSize = 16 := rfl
    apply nextFree_congr
    apply agreeOn_writeHeader
    unfold Span.Apart Span.stop
    dsimp only
    omega

theorem Sound.nodup_live (h : Sound s) : s.live.Nodup := by
  have hlive := List.pairwise_map.mp (List.pairwise_append.mp h.tiled.apart).1
  apply hlive.imp_of_mem
  rintro c d hc - happart rfl
  have hsize := (h.fits c hc).size
  have hhdr : kChunkHdrSize = 16 := rfl
  unfold Span.Apart Span.stop Chunk.span at happart
  dsimp only at happart
  omega

/-- The chunk that is freed is linked before the others of its size. -/
theorem InMemory.free (h : InMemory ctx s m) (hs : s.Reached) (hc : c ∈ s.live)
    (hfree : s.free (c.start + kChunkHdrSize) = some s') : InMemory ctx s' (s.writeLink c m) := by
  have hhdr : kChunkHdrSize = 16 := rfl
  obtain ⟨hstart, -, hidx⟩ := hs.placed.live c hc
  obtain ⟨x, hx, hpointer, hlive, -, hlists⟩ := free_cases hfree
  obtain rfl := hs.sound.eq_of_start hc hx (Nat.add_right_cancel hpointer)
  have hlink (i : Nat) (hi : i < kAllocSetNumFreelists) :
      Chain (nextFree (s.writeLink c m)) (s.freelist i).head? (s.freelist i) none := by
    apply (h.linked i hi).congr
    intro p hp
    apply nextFree_congr
    apply agreeOn_writeLink
    intro _
    have hne := hs.sound.free_ne hc hi hp
    have hdvd := hs.placed.free i p hp
    unfold Span.Apart Span.stop
    dsimp only
    omega
  constructor
  · intro d hd
    rw [hlive] at hd
    obtain ⟨hne, hd⟩ := (hs.sound.nodup_live.mem_erase_iff).mp hd
    have hdvd := (hs.placed.live d hd).1
    have hstarts : d.start ≠ c.start := fun heq => hne (hs.sound.eq_of_start hd hc heq)
    apply (h.headed d hd).congr
    apply agreeOn_writeLink
    intro _
    unfold Span.Apart Span.stop
    dsimp only
    omega
  · intro i hi
    rcases hlists with ⟨-, hsame⟩ | ⟨hsmall, -, hnew⟩
    · rw [hsame]
      exact hlink i hi
    · rw [hnew]
      by_cases heq : i = c.idx
      · subst i
        rw [Function.update_self, List.head?_cons, Chain.cons_iff]
        refine ⟨rfl, ?_⟩
        have hnext : nextFree (s.writeLink c m) c.start = (s.freelist c.idx).head? := by
          unfold nextFree writeLink
          rw [if_neg (Bool.eq_false_iff.mp hsmall)]
          cases hold : s.freelist c.idx with
          | nil => rw [List.headD_nil, ByteMemory.load64_store64 (by decide)]; rfl
          | cons p rest =>
            have hbound := hs.sound.one_le_free hidx (hold ▸ List.mem_cons_self ..)
            have hlt : p < 256 ^ 8 := hbound.2
            rw [List.headD_cons, ByteMemory.load64_store64 hlt, if_neg (by omega), List.head?_cons]
        rw [hnext]
        exact hlink c.idx hidx
      · rw [Function.update_of_ne heq]
        exact hlink i hi

/-! ### Runs -/

theorem memoryContextFree_eq (h : InMemory ctx s m) (hs : s.Reached) (hc : c ∈ s.live) :
    ∃ s', s.free (c.start + kChunkHdrSize) = some s' ∧
      Heap.memoryContextFree ⟨ctx, .allocSet s, m⟩ (c.start + kChunkHdrSize) =
        some ⟨ctx, .allocSet s', s.writeLink c m⟩ := by
  have hctx := (h.headed c hc).context (hs.placed.live c hc).2.2
  have hpos := ctx.pos
  obtain ⟨s', hfree⟩ : ∃ s', s.free (c.start + kChunkHdrSize) = some s' := by
    unfold AllocSet.free
    rw [hs.sound.find_live hc]
    exact ⟨_, rfl⟩
  refine ⟨s', hfree, ?_⟩
  unfold Heap.memoryContextFree
  dsimp only
  rw [hctx, if_neg (by unfold kChunkHdrSize; omega), if_neg (by omega), if_pos rfl]
  unfold Heap.free
  dsimp only
  rw [hs.sound.find_live hc, hfree]
  rfl

theorem alloc_eq {p : Nat} (hrun : Heap.alloc ⟨ctx, .allocSet s, m⟩ malloc size =
    some (p, ⟨ctx, .allocSet s', m'⟩)) :
    s.alloc malloc size = some (p, s') ∧ ∃ d, p = d.start + kChunkHdrSize ∧
      d.idx < kAllocSetNumFreelists ∧ Handed s malloc d s' ∧ m' = writeHeader ctx d m := by
  obtain ⟨⟨_, s₁⟩, halloc, heq⟩ := Option.map_eq_some_iff.mp hrun
  cases heq
  obtain ⟨d, hp, hfor, hd⟩ := handed_of_alloc halloc
  exact ⟨halloc, d, hp, hfor.lt, hd, writeChunk_eq hd.live⟩

/-- Whatever the program does with its chunks, their headers and the free lists are in the memory. -/
theorem HeapRun.inMemory (h : HeapRun ctx s m) : s.Reached ∧ InMemory ctx s m := by
  induction h with
  | create initSize maxSize m =>
    refine ⟨.create initSize maxSize, nofun, ?_⟩
    intro i _
    rfl
  | alloc _ hmalloc hfit hrun ih =>
    obtain ⟨hs, hm⟩ := ih
    obtain ⟨halloc, d, -, hidx, hd, rfl⟩ := alloc_eq hrun
    have hs' := Reached.alloc hs hmalloc hfit halloc
    exact ⟨hs', hm.alloc hs hs'.sound hmalloc hidx hd hs'.placed⟩
  | free _ hc hrun ih =>
    obtain ⟨hs, hm⟩ := ih
    obtain ⟨s', hfree, hrun'⟩ := memoryContextFree_eq hm hs hc
    cases hrun'.symm.trans hrun
    exact ⟨.free hs hfree, hm.free hs hc hfree⟩
  | reset _ hcurrent ih =>
    refine ⟨.reset ih.1 hcurrent, nofun, ?_⟩
    intro i _
    rfl
  | write _ hleaves ih => exact ⟨ih.1, ih.2.leaves hleaves⟩

/-- A chunk of 100 bytes that is freed again. -/
theorem inMemory_freed : ∃ ctx s m, HeapRun ctx s m ∧ s.freelist 4 = [200000] ∧ s.Reached ∧
    InMemory ctx s m := by
  let ctx : ContextAddress := ⟨4096, by decide, by decide⟩
  have hmalloc : (create 8192 65536).Provides (mallocAt 2000 200000 16384) :=
    provides_mallocAt ⟨by decide, by decide⟩ nofun (by decide)
  have hfit : (create 8192 65536).Fit 100 := ⟨by decide, fun _ => by decide⟩
  obtain ⟨s, m, h, hlive, hfree⟩ : ∃ s m, HeapRun ctx s m ∧ s.live = [⟨200000, 100, 4, false⟩] ∧
      s.freelist 4 = [] :=
    ⟨_, _, .alloc (.create 8192 65536 fun _ => 0) hmalloc hfit rfl, rfl, rfl⟩
  have hc : ⟨200000, 100, 4, false⟩ ∈ s.live := by
    rw [hlive]
    exact List.mem_cons_self ..
  obtain ⟨hs, hm⟩ := h.inMemory
  obtain ⟨s', hrun, hcall⟩ := memoryContextFree_eq hm hs hc
  have h' := HeapRun.free h hc hcall
  refine ⟨ctx, s', _, h', ?_, h'.inMemory⟩
  obtain ⟨x, hx, -, -, -, hlists⟩ := free_cases hrun
  rw [hlive, List.mem_singleton] at hx
  subst x
  rcases hlists with ⟨hexternal, -⟩ | ⟨-, -, hlists⟩
  · cases hexternal
  · rw [hlists, Function.update_self, hfree]

end AllocSet
end JiaMiaoDB
