import JiaMiaoDB.Common.AllocSet
import JiaMiaoDB.Lib.Carving
import Mathlib.Tactic.Common

/-!
# Bump contexts

A request above the largest block size gets a block of its own at the head of the list, and the block
does not continue behind it. A reset rewinds the block at the head and takes it off the list like the
others.
-/

set_option autoImplicit false

namespace JiaMiaoDB

/-- `sizeof(uint64_t)` -/
def bumpHeaderSize : Nat := 8

/-- `sizeof(RawBlock)`: four pointers and a size. -/
def sizeofRawBlock : Nat := 40

/-- What `malloc` has handed out for a block. -/
structure BumpBuffer where
  node : Nat
  data : Nat
  cap : Nat
deriving DecidableEq

/-- A `RawBlock`; its `endptr` is the end of the buffer. -/
structure BumpBlock extends BumpBuffer where
  freeptr : Nat
deriving DecidableEq

/-- A chunk that was returned, with the requested size; it starts with its header. -/
structure BumpChunk where
  start : Nat
  size : Nat
deriving DecidableEq

structure BumpContext where
  /-- The list from `current_block` on. -/
  blocks : List BumpBlock
  initBlockSize : Nat
  maxBlockSize : Nat
  memAllocated : Nat
  isReset : Bool
  /-- What `malloc` has handed out and not got back. -/
  system : List BumpBuffer
  /-- What was returned since the last reset. -/
  live : List BumpChunk

namespace BumpContext

/-- `JMBumpContextCreate` -/
def create (initSize maxSize : Nat) : BumpContext where
  blocks := []
  initBlockSize := initSize
  maxBlockSize := maxSize
  memAllocated := 0
  isReset := true
  system := []
  live := []

/-- The payload, rounded up to 8 bytes, and the header. -/
def totalSize (size : Nat) : Nat := (alignSize size + bumpHeaderSize) % sizeLimit

/-- `while (new_cap < total) new_cap *= 2`: 64 rounds are enough for a positive start. -/
def doubled (total : Nat) : Nat → Nat → Nat
  | 0, cap => cap
  | rounds + 1, cap => if cap < total then doubled total rounds (cap * 2 % sizeLimit) else cap

section
variable (s : BumpContext)

def createBlock (malloc : Malloc) (cap : Nat) : Option BumpBlock :=
  (malloc cap).map fun (node, data) => ⟨⟨node, data, cap⟩, data⟩

/-- A new block comes to the head of the list. -/
def link (b : BumpBlock) : BumpContext :=
  { s with blocks := b :: s.blocks, system := b.toBumpBuffer :: s.system }

/-- A chunk is returned and charged. -/
def hand (start size : Nat) : Nat × BumpContext :=
  (start + bumpHeaderSize,
    { s with
      memAllocated := (s.memAllocated + totalSize size) % sizeLimit
      isReset := false
      live := ⟨start, size⟩ :: s.live })

def newCap (total : Nat) : Nat :=
  let cap := doubled total 64 s.initBlockSize
  if s.maxBlockSize < cap then s.maxBlockSize else cap

/-- The block at the head, when the chunk still fits in it, and the blocks behind. -/
def room (total : Nat) : Option (BumpBlock × List BumpBlock) :=
  match s.blocks with
  | [] => none
  | b :: rest => if b.freeptr + total ≤ b.data + b.cap then some (b, rest) else none

/-- `BumpAlloc`: the pointer for the user, or none where `std::bad_alloc` is thrown. -/
def alloc (malloc : Malloc) (size : Nat) : Option (Nat × BumpContext) :=
  let total := totalSize size
  if s.maxBlockSize < total then
    (createBlock malloc total).map fun b => (s.link b).hand b.data size
  else
    match s.room total with
    | some (b, rest) =>
      let s' := { s with blocks := { b with freeptr := b.freeptr + total } :: rest }
      some (s'.hand b.freeptr size)
    | none =>
      (createBlock malloc (s.newCap total)).map fun b =>
        (s.link { b with freeptr := b.freeptr + total }).hand b.freeptr size

/-- `BumpReset` frees the blocks behind the first one. The first one is rewound, but the list starts
behind it and ends up empty. -/
def reset : BumpContext :=
  { s with
    blocks := []
    memAllocated := 0
    isReset := true
    system := s.blocks.tail.foldl (fun system b => system.erase b.toBumpBuffer) s.system
    live := [] }

end

/-! ### Sizes -/

variable {s s' : BumpContext} {malloc : Malloc} {size total cap pointer : Nat} {b : BumpBlock}

theorem totalSize_eq (h : size ≤ kMaxAllocSize) :
    totalSize size = alignSize size + 8 ∧ totalSize size < 2 ^ 31 := by
  have hmax : kMaxAllocSize = 1073741823 := rfl
  have hlimit : sizeLimit = 18446744073709551616 := rfl
  unfold totalSize alignSize bumpHeaderSize
  rw [hlimit]
  omega

theorem totalSize_pos (h : size ≤ kMaxAllocSize) : 0 < totalSize size := by
  have htotal := (totalSize_eq h).1
  omega

/-- The induction is on the rounds that are left: they reach the size from what has been reached. -/
theorem le_doubled (hsize : total ≤ 2 ^ 63) (rounds : Nat) (hcap : total ≤ 2 ^ rounds * cap) :
    total ≤ doubled total rounds cap := by
  induction rounds generalizing cap with
  | zero =>
    rw [Nat.pow_zero, Nat.one_mul] at hcap
    exact hcap
  | succ rounds ih =>
    unfold doubled
    split
    · apply ih
      have hlimit : cap * 2 < sizeLimit := by
        have heq : sizeLimit = 18446744073709551616 := rfl
        omega
      rw [Nat.mod_eq_of_lt hlimit, Nat.mul_comm cap, ← Nat.mul_assoc, ← Nat.pow_succ]
      exact hcap
    · omega

theorem le_newCap (hinit : 0 < s.initBlockSize) (hsize : total ≤ 2 ^ 63)
    (hmax : total ≤ s.maxBlockSize) : total ≤ s.newCap total := by
  have hdoubled : total ≤ doubled total 64 s.initBlockSize := by
    apply le_doubled hsize
    omega
  unfold newCap
  dsimp only
  split
  · exact hmax
  · exact hdoubled

end BumpContext

/-! ### Integrity -/

namespace BumpBuffer

def span (x : BumpBuffer) : Span := ⟨x.data, x.cap⟩

def spans (x : BumpBuffer) : List Span := [⟨x.node, sizeofRawBlock⟩, x.span]

end BumpBuffer

/-- A block that was made for one large chunk counts as used up. -/
def BumpBlock.region (b : BumpBlock) : Region :=
  ⟨b.span, if b.freeptr = b.data then b.cap else b.freeptr - b.data⟩

def BumpChunk.span (c : BumpChunk) : Span := ⟨c.start, BumpContext.totalSize c.size⟩

namespace BumpContext
variable {s s' : BumpContext} {malloc : Malloc} {size total cap pointer : Nat} {b : BumpBlock}

/-- The chunks are apart and in blocks of the list, and the list has what `malloc` has not got
back. -/
structure Intact (s : BumpContext) : Prop where
  apart : s.live.Pairwise fun c d => c.span.Apart d.span
  inside : ∀ c ∈ s.live, ∃ b ∈ s.blocks, c.span.Inside b.span
  linked : ∀ x, x ∈ s.system ↔ x ∈ s.blocks.map BumpBlock.toBumpBuffer

structure Sound (s : BumpContext) : Prop where
  init : 0 < s.initBlockSize
  carved : Carved (s.blocks.map BumpBlock.region) (s.live.map BumpChunk.span)
  system : s.system = s.blocks.map BumpBlock.toBumpBuffer
  sizes : ∀ c ∈ s.live, c.size ≤ kMaxAllocSize
  freeptr : ∀ b ∈ s.blocks, b.data ≤ b.freeptr
  own : ∀ b ∈ s.blocks, b.freeptr = b.data →
    s.maxBlockSize < b.cap ∧ ∃ c ∈ s.live, c.start = b.data

theorem sound_create {initSize : Nat} (h : 0 < initSize) (maxSize : Nat) :
    Sound (create initSize maxSize) where
  init := h
  carved := .nil
  system := rfl
  sizes := nofun
  freeptr := nofun
  own := nofun

theorem Sound.intact (h : Sound s) : Intact s where
  apart := List.pairwise_map.mp h.carved.apart
  inside c hc := by
    obtain ⟨r, hr, hin⟩ := h.carved.inside_span (List.mem_map_of_mem hc)
    obtain ⟨b, hb, rfl⟩ := List.mem_map.mp hr
    exact ⟨b, hb, hin⟩
  linked x := by rw [h.system]

/-- What `malloc` hands out is apart from all that it has not got back. -/
def Mallocs (s : BumpContext) (malloc : Malloc) : Prop :=
  ∀ cap node data, malloc cap = some (node, data) → ∀ r ∈ (BumpBuffer.mk node data cap).spans,
    ∀ x ∈ s.system, ∀ t ∈ x.spans, r.Apart t

theorem Mallocs.fresh (h : Mallocs s malloc) (hblock : createBlock malloc cap = some b) :
    b.cap = cap ∧ b.freeptr = b.data ∧ ∀ x ∈ s.system, b.span.Apart x.span := by
  obtain ⟨⟨node, data⟩, hdata, rfl⟩ := Option.map_eq_some_iff.mp hblock
  refine ⟨rfl, rfl, ?_⟩
  intro x hx
  exact h cap node data hdata _ (.tail _ (.head _)) x hx _ (.tail _ (.head _))

/-- The chunk takes the first bytes of a new block. -/
theorem Sound.handNew (h : Sound s) (hsize : size ≤ kMaxAllocSize)
    (hfresh : ∀ x ∈ s.system, b.span.Apart x.span) (hdata : b.data ≤ b.freeptr)
    (hfits : totalSize size ≤ b.region.used) (hused : b.region.used ≤ b.cap)
    (hown : b.freeptr = b.data → s.maxBlockSize < b.cap) :
    Sound ((s.link b).hand b.data size).2 where
  init := h.init
  carved := by
    have hnew : Carved (⟨b.span, 0⟩ :: s.blocks.map BumpBlock.region)
        (s.live.map BumpChunk.span) := by
      apply h.carved.push (Nat.zero_le _)
      intro r hr
      obtain ⟨x, hx, rfl⟩ := List.mem_map.mp hr
      apply hfresh x.toBumpBuffer
      rw [h.system]
      exact List.mem_map_of_mem hx
    exact hnew.carve_head (p := BumpChunk.span ⟨b.data, size⟩) (Nat.le_refl _)
      (Nat.add_le_add_left hfits _) hused
  system := congrArg _ h.system
  sizes c hc := by
    rcases List.mem_cons.mp hc with rfl | hc
    · exact hsize
    · exact h.sizes c hc
  freeptr x hx := by
    rcases List.mem_cons.mp hx with rfl | hx
    · exact hdata
    · exact h.freeptr x hx
  own x hx hfree := by
    rcases List.mem_cons.mp hx with rfl | hx
    · exact ⟨hown hfree, _, List.mem_cons_self .., rfl⟩
    · obtain ⟨hmax, c, hc, hstart⟩ := h.own x hx hfree
      exact ⟨hmax, c, List.mem_cons_of_mem _ hc, hstart⟩

/-- The chunk is cut from the block at the head, which was not made for one large chunk. -/
theorem Sound.handRoom (h : Sound s) {rest : List BumpBlock} (hblocks : s.blocks = b :: rest)
    (hregular : b.freeptr ≠ b.data) (hsize : size ≤ kMaxAllocSize)
    (hroom : b.freeptr + totalSize size ≤ b.data + b.cap) :
    Sound ({ s with blocks := { b with freeptr := b.freeptr + totalSize size } :: rest }.hand
      b.freeptr size).2 := by
  have hpos := totalSize_pos hsize
  have hb : b ∈ s.blocks := hblocks ▸ List.mem_cons_self ..
  have hfree := h.freeptr b hb
  have hregion : b.region = ⟨b.span, b.freeptr - b.data⟩ := by
    unfold BumpBlock.region
    rw [if_neg hregular]
  have hregion' : BumpBlock.region { b with freeptr := b.freeptr + totalSize size } =
      ⟨b.span, b.freeptr + totalSize size - b.data⟩ := by
    unfold BumpBlock.region
    rw [if_neg (by dsimp only; omega)]
  refine ⟨h.init, ?_, ?_, ?_, ?_, ?_⟩
  · have hcarved := h.carved
    rw [hblocks, List.map_cons, hregion] at hcarved
    change Carved (BumpBlock.region _ :: rest.map BumpBlock.region)
      (BumpChunk.span ⟨b.freeptr, size⟩ :: s.live.map BumpChunk.span)
    rw [hregion']
    apply hcarved.carve_head (p := BumpChunk.span ⟨b.freeptr, size⟩)
    · change b.data + (b.freeptr - b.data) ≤ b.freeptr
      omega
    · change b.freeptr + totalSize size ≤ b.data + (b.freeptr + totalSize size - b.data)
      omega
    · change b.freeptr + totalSize size - b.data ≤ b.cap
      omega
  · have hsystem := h.system
    rw [hblocks] at hsystem
    exact hsystem
  · intro c hc
    rcases List.mem_cons.mp hc with rfl | hc
    · exact hsize
    · exact h.sizes c hc
  · intro x hx
    rcases List.mem_cons.mp hx with rfl | hx
    · change b.data ≤ b.freeptr + totalSize size
      omega
    · exact h.freeptr x (hblocks ▸ List.mem_cons_of_mem b hx)
  · intro x hx hown
    rcases List.mem_cons.mp hx with rfl | hx
    · have hsame : b.freeptr + totalSize size = b.data := hown
      omega
    · obtain ⟨hmax, c, hc, hstart⟩ := h.own x (hblocks ▸ List.mem_cons_of_mem b hx) hown
      exact ⟨hmax, c, List.mem_cons_of_mem _ hc, hstart⟩

theorem room_eq {rest : List BumpBlock} (h : s.room total = some (b, rest)) :
    s.blocks = b :: rest ∧ b.freeptr + total ≤ b.data + b.cap := by
  unfold room at h
  split at h
  · cases h
  · rename_i hblocks
    split at h
    · cases h
      exact ⟨hblocks, ‹_›⟩
    · cases h

/-- A regular request does not meet a block that was made for one large chunk. -/
def MeetsRegular (s : BumpContext) (size : Nat) : Prop :=
  totalSize size ≤ s.maxBlockSize → ∀ b ∈ s.blocks.head?, b.freeptr ≠ b.data

theorem Sound.alloc (h : Sound s) (hmalloc : Mallocs s malloc) (hsize : size ≤ kMaxAllocSize)
    (hregular : MeetsRegular s size) (hrun : s.alloc malloc size = some (pointer, s')) :
    Sound s' := by
  have hpos := totalSize_pos hsize
  have hbound := (totalSize_eq hsize).2
  unfold BumpContext.alloc at hrun
  dsimp only at hrun
  split at hrun
  · rename_i hlarge
    obtain ⟨b, hblock, heq⟩ := Option.map_eq_some_iff.mp hrun
    obtain ⟨hcap, hfree, hfresh⟩ := hmalloc.fresh hblock
    have hused : b.region.used = totalSize size := (if_pos hfree).trans hcap
    have hnew : Sound ((s.link b).hand b.data size).2 :=
      h.handNew hsize hfresh hfree.ge hused.ge (by omega) fun _ => by omega
    rw [heq] at hnew
    exact hnew
  · rename_i hsmall
    have hmax := Nat.not_lt.mp hsmall
    split at hrun
    · rename_i b rest hroom
      obtain ⟨hblocks, hfits⟩ := room_eq hroom
      have hne : b.freeptr ≠ b.data := by
        apply hregular hmax b
        rw [hblocks]
        rfl
      have hnew := h.handRoom hblocks hne hsize hfits
      rw [Option.some.inj hrun] at hnew
      exact hnew
    · obtain ⟨b, hblock, heq⟩ := Option.map_eq_some_iff.mp hrun
      obtain ⟨hcap, hfree, hfresh⟩ := hmalloc.fresh hblock
      have hfits := le_newCap h.init (by omega) hmax
      have hused : BumpBlock.region { b with freeptr := b.freeptr + totalSize size } =
          ⟨b.span, totalSize size⟩ := by
        unfold BumpBlock.region
        dsimp only
        rw [if_neg (by omega), hfree, Nat.add_sub_cancel_left]
      have hnew : Sound ((s.link { b with freeptr := b.freeptr + totalSize size }).hand
          b.data size).2 := by
        apply h.handNew (b := { b with freeptr := b.freeptr + totalSize size }) hsize hfresh
        · dsimp only
          omega
        · rw [hused]
        · rw [hused]
          dsimp only
          omega
        · intro hown
          dsimp only at hown
          omega
      rw [← hfree, heq] at hnew
      exact hnew

/-! ### Runs -/

inductive Event where
  | alloc (malloc : Malloc) (size : Nat)
  | reset

/-- A request that throws changes nothing. -/
def step (s : BumpContext) : Event → BumpContext
  | .alloc malloc size => ((s.alloc malloc size).map Prod.snd).getD s
  | .reset => s.reset

/-- The request is within the limit, and `malloc` keeps what it hands out apart. -/
def Legal (s : BumpContext) : Event → Prop
  | .alloc malloc size => Mallocs s malloc ∧ size ≤ kMaxAllocSize
  | .reset => True

def LegalRun (s : BumpContext) : List Event → Prop
  | [] => True
  | e :: events => s.Legal e ∧ (s.step e).LegalRun events

/-- Every state of the run is intact. -/
def IntactRun (s : BumpContext) : List Event → Prop
  | [] => s.Intact
  | e :: events => s.Intact ∧ (s.step e).IntactRun events

/-- No regular request comes while a block of one large chunk is at the head, and no reset while there
is a block. -/
def Guarded (s : BumpContext) : Event → Prop
  | .alloc _ size => s.MeetsRegular size
  | .reset => s.blocks = []

def GuardedRun (s : BumpContext) : List Event → Prop
  | [] => True
  | e :: events => s.Guarded e ∧ (s.step e).GuardedRun events

theorem IntactRun.intact {events : List Event} (h : s.IntactRun events) : s.Intact := by
  cases events with
  | nil => exact h
  | cons e events => exact h.1

theorem Sound.step (h : Sound s) {e : Event} (hlegal : s.Legal e) (hguarded : s.Guarded e) :
    Sound (s.step e) := by
  cases e with
  | alloc malloc size =>
    change Sound (((s.alloc malloc size).map Prod.snd).getD s)
    cases hrun : s.alloc malloc size with
    | none => exact h
    | some r => exact h.alloc hlegal.1 hlegal.2 hguarded hrun
  | reset =>
    have hblocks : s.blocks = [] := hguarded
    have hsystem : s.system = [] := by rw [h.system, hblocks, List.map_nil]
    refine ⟨h.init, Carved.nil, ?_, nofun, nofun, nofun⟩
    change s.blocks.tail.foldl _ s.system = []
    rw [hblocks, hsystem]
    rfl

/-- Freed one by one, the blocks of a list leave all but as many. -/
theorem length_foldl_erase (blocks : List BumpBlock) (system : List BumpBuffer) :
    system.length ≤
      (blocks.foldl (fun system b => system.erase b.toBumpBuffer) system).length + blocks.length := by
  induction blocks generalizing system with
  | nil => exact Nat.le_refl _
  | cons b blocks ih =>
    rw [List.foldl_cons, List.length_cons]
    have hrest := ih (system.erase b.toBumpBuffer)
    have herase := List.le_length_erase (a := b.toBumpBuffer) (l := system)
    omega

/-- The block that a reset keeps is not linked any more. -/
theorem Sound.not_intact_reset (h : Sound s) (hblocks : s.blocks ≠ []) : ¬ Intact s.reset := by
  intro hintact
  have hkept : s.reset.system ≠ [] := by
    intro hnil
    have hlength : s.system.length ≤ s.reset.system.length + s.blocks.tail.length :=
      length_foldl_erase s.blocks.tail s.system
    have hpos := List.length_pos_of_ne_nil hblocks
    rw [h.system, List.length_map, hnil, List.length_nil, List.length_tail] at hlength
    omega
  obtain ⟨x, hx⟩ := List.exists_mem_of_ne_nil _ hkept
  exact List.not_mem_nil ((hintact.linked x).mp hx)

/-- The chunk is cut from the block of a large chunk, and begins where that begins. -/
theorem Sound.not_intact_alloc (h : Sound s) (hsize : size ≤ kMaxAllocSize)
    (hmeets : ¬ MeetsRegular s size) : ¬ Intact (s.step (.alloc malloc size)) := by
  unfold MeetsRegular at hmeets
  push Not at hmeets
  obtain ⟨hregular, b, hhead, hfree⟩ := hmeets
  obtain ⟨rest, hblocks⟩ : ∃ rest, s.blocks = b :: rest := by
    cases hblocks : s.blocks with
    | nil =>
      rw [hblocks] at hhead
      cases hhead
    | cons x rest =>
      rw [hblocks] at hhead
      cases hhead
      exact ⟨rest, rfl⟩
  obtain ⟨hmax, c, hc, hstart⟩ := h.own b (hblocks ▸ List.mem_cons_self ..) hfree
  have hroom : s.room (totalSize size) = some (b, rest) := by
    unfold room
    rw [hblocks]
    exact if_pos (by omega)
  have hlive : (s.step (.alloc malloc size)).live = ⟨b.freeptr, size⟩ :: s.live := by
    unfold BumpContext.step BumpContext.alloc
    dsimp only
    rw [if_neg (Nat.not_lt.mpr hregular), hroom]
    rfl
  intro hintact
  have happart := hintact.apart
  rw [hlive, List.pairwise_cons] at happart
  have hc' := happart.1 c hc
  have hpos := totalSize_pos hsize
  have hposc := totalSize_pos (h.sizes c hc)
  unfold Span.Apart Span.stop BumpChunk.span at hc'
  dsimp only at hc'
  omega

/-- A run is intact in all its states if and only if each step is guarded. -/
theorem intactRun_iff_of_sound (h : Sound s) {events : List Event} (hlegal : s.LegalRun events) :
    s.IntactRun events ↔ s.GuardedRun events := by
  induction events generalizing s with
  | nil => exact ⟨fun _ => trivial, fun _ => h.intact⟩
  | cons e events ih =>
    obtain ⟨hstep, hrest⟩ := hlegal
    constructor
    · rintro ⟨-, hrun⟩
      have hguarded : s.Guarded e := by
        by_contra hnot
        cases e with
        | alloc malloc size => exact h.not_intact_alloc hstep.2 hnot hrun.intact
        | reset => exact h.not_intact_reset hnot hrun.intact
      exact ⟨hguarded, (ih (h.step hstep hguarded) hrest).mp hrun⟩
    · rintro ⟨hguarded, hrun⟩
      exact ⟨h.intact, (ih (h.step hstep hguarded) hrest).mpr hrun⟩

theorem intactRun_iff {initSize maxSize : Nat} (hinit : 0 < initSize) {events : List Event}
    (hlegal : (create initSize maxSize).LegalRun events) :
    (create initSize maxSize).IntactRun events ↔ (create initSize maxSize).GuardedRun events :=
  intactRun_iff_of_sound (sound_create hinit maxSize) hlegal

/-- A `malloc` that is asked once. -/
theorem legalRun_once (size next : Nat) (hsize : size ≤ kMaxAllocSize) (hnext : next ≤ kMaxAllocSize) :
    (create 1024 8192).LegalRun
      [.alloc (fun _ => some (1000, 100000)) size, .alloc (fun _ => none) next] := by
  refine ⟨⟨?_, hsize⟩, ⟨nofun, hnext⟩, trivial⟩
  intro cap node data _ r _ x hx
  exact absurd hx List.not_mem_nil

/-- Two regular chunks in one block. -/
theorem intactRun_twoChunks : (create 1024 8192).IntactRun
    [.alloc (fun _ => some (1000, 100000)) 100, .alloc (fun _ => none) 16] := by
  refine (intactRun_iff (by decide) (legalRun_once 100 16 (by decide) (by decide))).mpr ?_
  refine ⟨?_, ?_, trivial⟩
  · intro _ b hb
    cases hb
  · intro _ b hb
    cases hb
    decide

/-- The second chunk lies in the first, which has a block of its own. -/
theorem not_intactRun : ¬ ∀ initSize maxSize, 0 < initSize → initSize ≤ maxSize → ∀ events,
    (create initSize maxSize).LegalRun events → (create initSize maxSize).IntactRun events := by
  intro hall
  obtain ⟨-, -, hintact⟩ := hall 1024 8192 (by decide) (by decide) _
    (legalRun_once 10000 16 (by decide) (by decide))
  have happart := (List.pairwise_cons.mp hintact.apart).1 ⟨100000, 10000⟩ (List.mem_cons_self ..)
  revert happart
  decide

end BumpContext
end JiaMiaoDB
