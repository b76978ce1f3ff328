import JiaMiaoDB.Common.AllocSet
import Mathlib.Tactic.Common

/-!
# Integrity of allocation sets

The chunks that are handed out and those on the free lists are apart, and those in the current
block end below the pointer where it continues. A reset that keeps another block than the current
one leaves a pointer to a block that was freed.
-/

set_option autoImplicit false

namespace JiaMiaoDB

namespace AllocBlock

def span (b : AllocBlock) : Span := ⟨b.data, b.cap⟩

/-- What `malloc` handed out for the block. -/
def spans (b : AllocBlock) : List Span := [⟨b.storage, sizeofBlockStorage⟩, b.span]

@[simp]
theorem storage_bump (storage n : Nat) (b : AllocBlock) :
    (b.bump storage n).storage = b.storage := by
  unfold bump
  split <;> rfl

@[simp]
theorem span_bump (storage n : Nat) (b : AllocBlock) : (b.bump storage n).span = b.span := by
  unfold bump
  split <;> rfl

theorem spans_bump (storage n : Nat) (b : AllocBlock) : (b.bump storage n).spans = b.spans := by
  rw [spans, spans, storage_bump, span_bump]

end AllocBlock

namespace Chunk
variable (c : Chunk)

/-- The bucket of a small chunk, the whole block of an external one. -/
def space : Nat :=
  if c.external then alignSize (c.size + kChunkHdrSize) else allocSetFreeListSize c.idx

def span : Span := ⟨c.start, c.space⟩

def charge : Nat := if c.external then c.space + sizeofBlockStorage else c.space

end Chunk

/-! ### Blocks and the pieces they are cut into -/

/-- A piece in the current block ends below the pointer where the block continues. -/
def Placed (blocks : List AllocBlock) (current : Option Nat) (r : Span) : Prop :=
  0 < r.size ∧
    ∃ b ∈ blocks, r.Inside b.span ∧ (current = some b.storage → r.stop ≤ b.freeptr)

structure Tiled (blocks : List AllocBlock) (current : Option Nat) (pieces : List Span) : Prop where
  spans : (blocks.flatMap AllocBlock.spans).Pairwise Span.Apart
  bounds : ∀ r ∈ blocks.flatMap AllocBlock.spans, 1 ≤ r.start ∧ r.stop ≤ sizeLimit
  current_mem : ∀ p, current = some p → ∃ b ∈ blocks, b.storage = p
  bumped : ∀ b ∈ blocks, current = some b.storage → b.data ≤ b.freeptr
  apart : pieces.Pairwise Span.Apart
  placed : ∀ r ∈ pieces, Placed blocks current r

/-- What `malloc` hands out for a block is apart from all that the blocks have. -/
structure Fresh (blocks : List AllocBlock) (b : AllocBlock) : Prop where
  spans : (b.spans ++ blocks.flatMap AllocBlock.spans).Pairwise Span.Apart
  bounds : ∀ r ∈ b.spans, 1 ≤ r.start ∧ r.stop ≤ sizeLimit

theorem Fresh.storage_ne {blocks : List AllocBlock} {b x : AllocBlock} (h : Fresh blocks b)
    (hx : x ∈ blocks) : x.storage ≠ b.storage := by
  intro hstorage
  have happart := (List.pairwise_append.mp h.spans).2.2 ⟨b.storage, sizeofBlockStorage⟩ (.head _)
    ⟨x.storage, sizeofBlockStorage⟩ (List.mem_flatMap.mpr ⟨x, hx, .head _⟩)
  unfold Span.Apart Span.stop sizeofBlockStorage at happart
  dsimp only at happart
  omega

theorem Fresh.span_apart {blocks : List AllocBlock} {b x : AllocBlock} (h : Fresh blocks b)
    (hx : x ∈ blocks) : b.span.Apart x.span :=
  (List.pairwise_append.mp h.spans).2.2 b.span (.tail _ (.head _)) x.span
    (List.mem_flatMap.mpr ⟨x, hx, .tail _ (.head _)⟩)

namespace Tiled

variable {blocks : List AllocBlock} {current : Option Nat} {pieces pieces' : List Span}
  {b x y : AllocBlock} {n : Nat}

theorem empty : Tiled [] none [] where
  spans := .nil
  bounds := nofun
  current_mem := nofun
  bumped := nofun
  apart := .nil
  placed := nofun

theorem apart_of_ne (h : Tiled blocks current pieces) (hx : x ∈ blocks) (hy : y ∈ blocks)
    (hne : x ≠ y) : ∀ r ∈ x.spans, ∀ t ∈ y.spans, r.Apart t := by
  have hblocks := (List.pairwise_flatMap.mp h.spans).2
  have hsymm : Std.Symm fun x y : AllocBlock => ∀ r ∈ x.spans, ∀ t ∈ y.spans, r.Apart t :=
    ⟨fun _ _ hxy r hr t ht => (hxy t ht r hr).symm⟩
  exact hblocks.forall hx hy hne

theorem span_apart (h : Tiled blocks current pieces) (hx : x ∈ blocks) (hy : y ∈ blocks)
    (hne : x ≠ y) : x.span.Apart y.span :=
  h.apart_of_ne hx hy hne _ (.tail _ (.head _)) _ (.tail _ (.head _))

theorem storage_apart (h : Tiled blocks current pieces) (hx : x ∈ blocks) (hy : y ∈ blocks) :
    x.span.Apart ⟨y.storage, sizeofBlockStorage⟩ := by
  by_cases heq : x = y
  · subst y
    have hown := (List.pairwise_flatMap.mp h.spans).1 x hx
    exact ((List.pairwise_cons.mp hown).1 _ (.head _)).symm
  · exact h.apart_of_ne hx hy heq _ (.tail _ (.head _)) _ (.head _)

theorem perm (h : Tiled blocks current pieces) (hp : pieces.Perm pieces') :
    Tiled blocks current pieces' where
  spans := h.spans
  bounds := h.bounds
  current_mem := h.current_mem
  bumped := h.bumped
  apart := (Span.pairwise_apart_perm hp).mp h.apart
  placed r hr := h.placed r (hp.mem_iff.mpr hr)

/-- A piece is cut from the current block. -/
theorem bump (h : Tiled blocks current pieces) (hb : b ∈ blocks)
    (hcurrent : current = some b.storage) (hroom : b.freeptr + n ≤ b.data + b.cap) (hn : 0 < n) :
    Tiled (blocks.map (AllocBlock.bump b.storage n)) current (⟨b.freeptr, n⟩ :: pieces) := by
  have hspans : (blocks.map (AllocBlock.bump b.storage n)).flatMap AllocBlock.spans =
      blocks.flatMap AllocBlock.spans := by
    rw [List.flatMap_map]
    exact List.flatMap_congr fun x _ => AllocBlock.spans_bump ..
  have hlow := h.bumped b hb hcurrent
  refine ⟨hspans ▸ h.spans, hspans ▸ h.bounds, fun p hp => ?_, fun y hy hcx => ?_,
    List.pairwise_cons.mpr ⟨fun r hr => ?_, h.apart⟩, fun r hr => ?_⟩
  · obtain ⟨x, hx, rfl⟩ := h.current_mem p hp
    exact ⟨_, List.mem_map_of_mem hx, AllocBlock.storage_bump ..⟩
  · obtain ⟨x, hx, rfl⟩ := List.mem_map.mp hy
    rw [AllocBlock.storage_bump] at hcx
    have hle := h.bumped x hx hcx
    unfold AllocBlock.bump
    split
    · exact Nat.le_trans hle (Nat.le_add_right ..)
    · exact hle
  · -- The new piece starts where the pieces of its block end.
    obtain ⟨-, x, hx, hin, hbelow⟩ := h.placed r hr
    by_cases hxb : x = b
    · subst x
      exact .inr (hbelow hcurrent)
    · have hnew : Span.Inside ⟨b.freeptr, n⟩ b.span := ⟨hlow, hroom⟩
      exact ((h.span_apart hb hx (Ne.symm hxb)).of_inside hnew).symm.of_inside hin |>.symm
  · rcases List.mem_cons.mp hr with rfl | hr
    · refine ⟨hn, _, List.mem_map_of_mem hb, ?_, fun _ => ?_⟩
      · rw [AllocBlock.span_bump]
        exact ⟨hlow, hroom⟩
      · rw [AllocBlock.bump, if_pos rfl]
        exact Nat.le_refl _
    · obtain ⟨hsize, x, hx, hin, hbelow⟩ := h.placed r hr
      refine ⟨hsize, _, List.mem_map_of_mem hx, ?_, fun hcx => ?_⟩
      · rwa [AllocBlock.span_bump]
      · rw [AllocBlock.storage_bump] at hcx
        have hle := hbelow hcx
        unfold AllocBlock.bump
        split
        · exact Nat.le_trans hle (Nat.le_add_right ..)
        · exact hle

/-- A new block comes with its first piece. -/
theorem addBlock (h : Tiled blocks current pieces) (hb : Fresh blocks b) (hn : 0 < n)
    (hcap : n ≤ b.cap) {current' : Option Nat}
    (hcurrent : current' = current ∨ current' = some b.storage ∧ b.data + n = b.freeptr) :
    Tiled (b :: blocks) current' (⟨b.data, n⟩ :: pieces) := by
  have hold (x : AllocBlock) (hx : x ∈ blocks) (hcx : current' = some x.storage) :
      current = some x.storage := by
    rcases hcurrent with hsame | ⟨hnew, -⟩
    · rw [← hsame, hcx]
    · exact absurd (Option.some.inj (hcx.symm.trans hnew)) (hb.storage_ne hx)
  have hfirst (hcb : current' = some b.storage) : b.data + n = b.freeptr := by
    rcases hcurrent with hsame | ⟨-, hnew⟩
    · obtain ⟨x, hx, hxb⟩ := h.current_mem _ (hsame.symm.trans hcb)
      exact absurd hxb (hb.storage_ne hx)
    · exact hnew
  have hpiece : Span.Inside ⟨b.data, n⟩ b.span :=
    ⟨Nat.le_refl _, Nat.add_le_add_left hcap _⟩
  refine ⟨hb.spans, fun r hr => ?_, fun p hp => ?_, fun x hx hcx => ?_,
    List.pairwise_cons.mpr ⟨fun r hr => ?_, h.apart⟩, fun r hr => ?_⟩
  · rcases List.mem_append.mp hr with hr | hr
    · exact hb.bounds r hr
    · exact h.bounds r hr
  · rcases hcurrent with hsame | ⟨hnew, -⟩
    · obtain ⟨x, hx, hxp⟩ := h.current_mem p (hsame ▸ hp)
      exact ⟨x, .tail _ hx, hxp⟩
    · exact ⟨b, .head _, Option.some.inj (hnew.symm.trans hp)⟩
  · rcases List.mem_cons.mp hx with rfl | hx
    · rw [← hfirst hcx]
      exact Nat.le_add_right ..
    · exact h.bumped x hx (hold x hx hcx)
  · obtain ⟨-, x, hx, hin, -⟩ := h.placed r hr
    exact (((hb.span_apart hx).of_inside hpiece).symm.of_inside hin).symm
  · rcases List.mem_cons.mp hr with rfl | hr
    · exact ⟨hn, b, .head _, hpiece, fun hcb => Nat.le_of_eq (hfirst hcb)⟩
    · obtain ⟨hsize, x, hx, hin, hbelow⟩ := h.placed r hr
      exact ⟨hsize, x, .tail _ hx, hin, fun hcx => hbelow (hold x hx hcx)⟩

/-- A block that one piece fills is freed with the piece. -/
theorem unlink (h : Tiled blocks current (b.span :: pieces)) (hb : b ∈ blocks)
    (hcurrent : current ≠ some b.storage) : Tiled (blocks.erase b) current pieces := by
  obtain ⟨hapart, hpieces⟩ := List.pairwise_cons.mp h.apart
  have hsub : ((blocks.erase b).flatMap AllocBlock.spans).Sublist
      (blocks.flatMap AllocBlock.spans) := List.Sublist.flatMap List.erase_sublist _
  have hkeep (x : AllocBlock) (hx : x ∈ blocks) (hne : x ≠ b) : x ∈ blocks.erase b :=
    (List.mem_erase_of_ne hne).mpr hx
  refine ⟨h.spans.sublist hsub, fun r hr => h.bounds r (hsub.subset hr), fun p hp => ?_,
    fun x hx => h.bumped x (List.mem_of_mem_erase hx), hpieces, fun r hr => ?_⟩
  · obtain ⟨x, hx, rfl⟩ := h.current_mem p hp
    refine ⟨x, hkeep x hx ?_, rfl⟩
    rintro rfl
    exact hcurrent hp
  · obtain ⟨hsize, x, hx, hin, hbelow⟩ := h.placed r (.tail _ hr)
    refine ⟨hsize, x, hkeep x hx ?_, hin, hbelow⟩
    rintro rfl
    exact hin.not_apart hsize (hapart r hr).symm

theorem reset {rest : List AllocBlock} (h : Tiled (b :: rest) current pieces)
    (hcurrent : current = none ∨ current = some b.storage) :
    Tiled [{ b with freeptr := b.data }] current [] := by
  have hsub : [b].Sublist (b :: rest) := List.cons_sublist_cons.mpr (List.nil_sublist _)
  have hsub' := List.Sublist.flatMap hsub AllocBlock.spans
  refine ⟨h.spans.sublist hsub', fun r hr => h.bounds r (hsub'.subset hr), fun p hp => ?_,
    fun x hx _ => ?_, .nil, nofun⟩
  · rcases hcurrent with hnone | hcurrent
    · cases hnone.symm.trans hp
    · exact ⟨_, .head _, Option.some.inj (hcurrent.symm.trans hp)⟩
  · obtain rfl := List.mem_singleton.mp hx
    exact Nat.le_refl _

end Tiled

/-! ### Sizes -/

theorem allocSetFreeListSize_pos (idx : Nat) : 0 < allocSetFreeListSize idx := by
  rw [allocSetFreeListSize, Nat.shiftLeft_eq]
  exact Nat.mul_pos (by decide) (Nat.two_pow_pos idx)

theorem allocSetFreeListIndex_lt (size : Nat) :
    allocSetFreeListIndex size < kAllocSetNumFreelists := by
  unfold allocSetFreeListIndex kAllocSetNumFreelists
  repeat' split
  all_goals omega

/-- A bucket is as large as the sizes it is for. -/
theorem le_allocSetFreeListSize {size : Nat} (h : size ≤ kAllocChunkLimit) :
    size ≤ allocSetFreeListSize (allocSetFreeListIndex size) := by
  have hlimit : kAllocChunkLimit = 8192 := rfl
  unfold allocSetFreeListIndex allocSetFreeListSize
  repeat' split
  all_goals simp only [Nat.reduceShiftLeft]
  all_goals omega

theorem allocSetFreeListSize_le {idx : Nat} (h : idx < kAllocSetNumFreelists) :
    allocSetFreeListSize idx ≤ kAllocChunkLimit := by
  rw [allocSetFreeListSize, Nat.shiftLeft_eq, show kAllocChunkLimit = 8 * 2 ^ 10 from rfl]
  exact Nat.mul_le_mul_left 8 (Nat.pow_le_pow_right (by decide) (Nat.le_of_lt_succ h))

theorem le_alignSize {n : Nat} (h : n + 7 < sizeLimit) : n ≤ alignSize n := by
  rw [alignSize, Nat.mod_eq_of_lt h]
  omega

theorem alignSize_alignSize {n : Nat} (h : n + 7 < sizeLimit) :
    alignSize (alignSize n) = alignSize n := by
  unfold alignSize
  rw [Nat.mod_eq_of_lt h, Nat.mod_eq_of_lt]
  · omega
  · unfold sizeLimit at *
    omega

/-! ### Contexts -/

namespace AllocSet

variable {s s' : AllocSet} {malloc : Malloc} {c : Chunk} {b : AllocBlock} {pointer size idx : Nat}

/-- What is on the free lists. -/
def freeChunks (freelist : Nat → List Nat) : List Span :=
  (List.range kAllocSetNumFreelists).flatMap fun i =>
    (freelist i).map fun p => ⟨p, allocSetFreeListSize i⟩

def pieces (s : AllocSet) : List Span := s.live.map Chunk.span ++ freeChunks s.freelist

structure Intact (s : AllocSet) : Prop where
  current : ∀ p, s.freeptr = some p → ∃ b ∈ s.blocks, b.storage = p
  apart : s.live.Pairwise fun c c' => c.span.Apart c'.span
  inside : ∀ c ∈ s.live, c.size + kChunkHdrSize ≤ c.space ∧ ∃ b ∈ s.blocks, c.span.Inside b.span
  free : ∀ r ∈ freeChunks s.freelist, ∀ c ∈ s.live, r.Apart c.span
  charged : s.memAllocated = (s.live.map Chunk.charge).sum

/-- What the header of a chunk says fits its block. -/
structure Fits (blocks : List AllocBlock) (current : Option Nat) (c : Chunk) : Prop where
  size : c.size + kChunkHdrSize ≤ c.space
  idx : c.external = false → c.idx < kAllocSetNumFreelists
  external : c.external = true →
    ∃ b ∈ blocks, b.span = c.span ∧ current ≠ some b.storage

structure Sound (s : AllocSet) : Prop where
  limit : s.allocChunkLimit ≤ kAllocChunkLimit
  tiled : Tiled s.blocks s.freeptr s.pieces
  fits : ∀ c ∈ s.live, Fits s.blocks s.freeptr c
  charged : s.memAllocated = (s.live.map Chunk.charge).sum % sizeLimit

theorem sound_create (initSize maxSize : Nat) : Sound (create initSize maxSize) where
  limit := by
    rw [create]
    have hlimit : kAllocChunkLimit = 8192 := rfl
    have hinit : kAllocSetDefaultInitSize = 8192 := rfl
    dsimp only [kAllocChunkFraction]
    split
    · omega
    · exact Nat.le_refl _
  tiled := by
    have hpieces : (create initSize maxSize).pieces = [] := by
      simp [create, pieces, freeChunks]
    exact hpieces ▸ .empty
  fits := nofun
  charged := rfl

/-- A list of places for each index, with a place put in front at one of them. -/
theorem flatMap_update_perm {l : List Nat} (hl : l.Nodup) (hidx : idx ∈ l)
    (freelist : Nat → List Nat) (p : Nat) (rest : List Nat) (f : Nat → Nat → Span) :
    (l.flatMap fun i => (Function.update freelist idx (p :: rest) i).map (f i)).Perm
      (f idx p :: l.flatMap fun i => (Function.update freelist idx rest i).map (f i)) := by
  induction l with
  | nil => cases hidx
  | cons i l ih =>
    obtain ⟨hi, hl⟩ := List.nodup_cons.mp hl
    rw [List.flatMap_cons, List.flatMap_cons]
    by_cases heq : i = idx
    · subst i
      have hcongr (xs : List Nat) :
          (l.flatMap fun i => (Function.update freelist idx xs i).map (f i)) =
            l.flatMap fun i => (freelist i).map (f i) := by
        refine List.flatMap_congr fun j hj => ?_
        rw [Function.update_of_ne]
        rintro rfl
        exact hi hj
      rw [hcongr, hcongr, Function.update_self, Function.update_self, List.map_cons,
        List.cons_append]
    · rw [Function.update_of_ne heq, Function.update_of_ne heq]
      have hidx' : idx ∈ l := (List.mem_cons.mp hidx).resolve_left (Ne.symm heq)
      exact ((ih hl hidx').append_left _).trans List.perm_middle

theorem freeChunks_update (hidx : idx < kAllocSetNumFreelists) (freelist : Nat → List Nat)
    (p : Nat) (rest : List Nat) :
    (freeChunks (Function.update freelist idx (p :: rest))).Perm
      (⟨p, allocSetFreeListSize idx⟩ :: freeChunks (Function.update freelist idx rest)) :=
  flatMap_update_perm List.nodup_range (List.mem_range.mpr hidx) freelist p rest
    fun i p => ⟨p, allocSetFreeListSize i⟩

theorem Fits.congr {blocks blocks' : List AllocBlock} {current current' : Option Nat}
    (h : Fits blocks current c) (hblocks : ∀ b ∈ blocks, c.span = b.span →
      current ≠ some b.storage → ∃ b' ∈ blocks', b'.span = b.span ∧ current' ≠ some b'.storage) :
    Fits blocks' current' c where
  size := h.size
  idx := h.idx
  external hc := by
    obtain ⟨b, hb, hspan, hcurrent⟩ := h.external hc
    obtain ⟨b', hb', hspan', hcurrent'⟩ := hblocks b hb hspan.symm hcurrent
    exact ⟨b', hb', hspan'.trans hspan, hcurrent'⟩

/-- Handing out a chunk, once there is a place for it. -/
theorem sound_hand (hlimit : s.allocChunkLimit ≤ kAllocChunkLimit)
    (htiled : Tiled s.blocks s.freeptr (c.span :: s.pieces))
    (hlive : ∀ c ∈ s.live, Fits s.blocks s.freeptr c) (hc : Fits s.blocks s.freeptr c)
    (hcharged : s.memAllocated = (s.live.map Chunk.charge).sum % sizeLimit) :
    Sound (s.hand c c.charge) where
  limit := hlimit
  tiled := htiled
  fits := List.forall_mem_cons.mpr ⟨hc, hlive⟩
  charged := by
    show (s.memAllocated + c.charge) % sizeLimit = _
    rw [hcharged, hand, List.map_cons, List.sum_cons, Nat.mod_add_mod, Nat.add_comm]

/-- Taking back a chunk, once its place is free. -/
theorem sound_take (hlimit : s.allocChunkLimit ≤ kAllocChunkLimit) (hc : c ∈ s.live)
    (htiled : Tiled s.blocks s.freeptr ((s.live.erase c).map Chunk.span ++ freeChunks s.freelist))
    (hlive : ∀ c' ∈ s.live.erase c, Fits s.blocks s.freeptr c')
    (hcharged : s.memAllocated = (s.live.map Chunk.charge).sum % sizeLimit) :
    Sound (s.take c c.charge) where
  limit := hlimit
  tiled := htiled
  fits := hlive
  charged := by
    have hsum := ((List.perm_cons_erase hc).map Chunk.charge).sum_nat
    rw [List.map_cons, List.sum_cons] at hsum
    show (s.memAllocated + (sizeLimit - c.charge % sizeLimit)) % sizeLimit =
      ((s.live.erase c).map Chunk.charge).sum % sizeLimit
    rw [hcharged, hsum]
    unfold sizeLimit
    omega

theorem sum_charge (l : List Chunk) :
    (l.map Chunk.charge).sum = ((l.map Chunk.span).map Span.size).sum +
      sizeofBlockStorage * (l.filter Chunk.external).length := by
  induction l with
  | nil => rfl
  | cons c l ih =>
    simp only [List.map_cons, List.sum_cons, ih, List.filter_cons]
    have hsize : c.span.size = c.space := rfl
    unfold Chunk.charge
    split
    · rw [List.length_cons, Nat.mul_succ]
      omega
    · omega

/-- What `malloc` promises: whatever it returns is apart from all that the blocks have. -/
def Mallocs (s : AllocSet) (malloc : Malloc) : Prop :=
  ∀ cap storage data, malloc cap = some (storage, data) →
    Fresh s.blocks ⟨storage, data, cap, data⟩

theorem createBlock_eq {cap : Nat} (hmalloc : Mallocs s malloc)
    (h : createBlock malloc cap = some b) :
    Fresh s.blocks b ∧ b.cap = alignSize cap ∧ b.freeptr = b.data := by
  obtain ⟨⟨storage, data⟩, hm, rfl⟩ := Option.map_eq_some_iff.mp h
  exact ⟨hmalloc _ _ _ hm, rfl, rfl⟩

namespace Sound

theorem allocExternal (h : Sound s) (hmalloc : Mallocs s malloc)
    (hsize : size + kChunkHdrSize + 7 < sizeLimit) {r : Nat × AllocSet}
    (hrun : s.allocExternal malloc size (size + kChunkHdrSize) = some r) : Sound r.2 := by
  obtain ⟨b, hb, hrun⟩ := Option.bind_eq_some_iff.mp hrun
  obtain ⟨hfresh, hcap, hfreeptr⟩ := createBlock_eq hmalloc hb
  rw [alignSize_alignSize hsize] at hcap
  cases hrun
  set c : Chunk := ⟨b.data, size, 0, true⟩
  have hspan : c.span = b.span := by rw [AllocBlock.span, hcap]; rfl
  have hle := le_alignSize hsize
  have hpos : 0 < alignSize (size + kChunkHdrSize) := by
    unfold kChunkHdrSize at *
    omega
  refine sound_hand (c := c) (s := { s with blocks := b :: s.blocks }) h.limit ?_ ?_ ?_ h.charged
  · exact h.tiled.addBlock hfresh hpos (Nat.le_of_eq hcap.symm) (.inl rfl)
  · intro c' hc'
    refine (h.fits c' hc').congr fun x hx _ hcurrent => ⟨x, .tail _ hx, rfl, hcurrent⟩
  · refine ⟨hle, nofun, fun _ => ⟨b, .head _, hspan.symm, ?_⟩⟩
    intro hcurrent
    obtain ⟨x, hx, hxb⟩ := h.tiled.current_mem _ hcurrent
    exact hfresh.storage_ne hx hxb

theorem room_eq {bucket : Nat} {place : Option AllocBlock} (h : s.room bucket = some place) :
    ∀ b, place = some b → b ∈ s.blocks ∧ s.freeptr = some b.storage ∧
      b.freeptr + bucket ≤ b.data + b.cap := by
  rintro b rfl
  unfold room at h
  split at h
  · cases h
  case h_2 p hp =>
    obtain ⟨x, hx, h⟩ := Option.bind_eq_some_iff.mp h
    have hstorage := List.find?_some hx
    simp only [decide_eq_true_eq] at hstorage
    split at h
    case isTrue hroom =>
      cases h
      exact ⟨List.mem_of_find?_eq_some hx, hp.trans (congrArg some hstorage.symm), hroom⟩
    case isFalse => cases h

theorem newSize_spec {bucket : Nat} (hnext : s.nextBlockSize + 7 < sizeLimit)
    (hbucket : bucket ≤ kAllocChunkLimit) :
    bucket ≤ alignSize (s.newSize bucket) := by
  have hlimit : kAllocChunkLimit = 8192 := rfl
  have hstorage : sizeofBlockStorage = 72 := rfl
  have hmin : initSizeMin = 1024 := rfl
  set size := if max s.nextBlockSize initSizeMin < bucket then bucket + sizeofBlockStorage
    else max s.nextBlockSize initSizeMin with hsize
  have hle : bucket ≤ size ∧ size + 7 < sizeLimit := by
    unfold sizeLimit at *
    rw [hsize]
    split <;> omega
  rw [newSize, ← hsize, alignSize_alignSize hle.2]
  exact Nat.le_trans hle.1 (le_alignSize hle.2)

theorem allocSmall (h : Sound s) (hmalloc : Mallocs s malloc)
    (hidx : idx < kAllocSetNumFreelists)
    (hsize : size + kChunkHdrSize ≤ allocSetFreeListSize idx)
    (hnext : s.freelist idx = [] → s.room (allocSetFreeListSize idx) = some none →
      s.nextBlockSize + 7 < sizeLimit) {r : Nat × AllocSet}
    (hrun : s.allocSmall malloc size idx = some r) : Sound r.2 := by
  have hpos := allocSetFreeListSize_pos idx
  have hfits (p : Nat) (blocks : List AllocBlock) (current : Option Nat) :
      Fits blocks current ⟨p, size, idx, false⟩ := ⟨hsize, fun _ => hidx, nofun⟩
  unfold AllocSet.allocSmall at hrun
  dsimp only at hrun
  split at hrun
  case h_1 p rest hfree =>
    cases hrun
    set s₁ : AllocSet := { s with freelist := Function.update s.freelist idx rest } with hs₁
    refine sound_hand (c := ⟨p, size, idx, false⟩) (s := s₁) h.limit ?_ h.fits (hfits ..)
      h.charged
    have hupdate : Function.update s.freelist idx (p :: rest) = s.freelist := by
      rw [← hfree, Function.update_eq_self]
    have hperm := freeChunks_update hidx s.freelist p rest
    rw [hupdate] at hperm
    exact h.tiled.perm ((hperm.append_left _).trans List.perm_middle)
  case h_2 hfree =>
    obtain ⟨place, hplace, hrun⟩ := Option.bind_eq_some_iff.mp hrun
    split at hrun
    case h_1 b =>
      cases hrun
      obtain ⟨hb, hcurrent, hroom⟩ := room_eq hplace b rfl
      refine sound_hand (c := ⟨b.freeptr, size, idx, false⟩)
        (s := s.bump b (allocSetFreeListSize idx)) h.limit ?_ ?_ (hfits ..) h.charged
      · exact h.tiled.bump hb hcurrent hroom hpos
      · intro c hc
        refine (h.fits c hc).congr fun x hx _ hx' => ⟨_, List.mem_map_of_mem hx, ?_, ?_⟩
        · exact AllocBlock.span_bump ..
        · rwa [AllocBlock.storage_bump]
    case h_2 =>
      obtain ⟨b, hb, hrun⟩ := Option.bind_eq_some_iff.mp hrun
      obtain ⟨hfresh, hcap, hfreeptr⟩ := createBlock_eq hmalloc hb
      cases hrun
      have hle : allocSetFreeListSize idx ≤ b.cap := by
        rw [hcap]
        exact newSize_spec (hnext hfree hplace) (allocSetFreeListSize_le hidx)
      refine sound_hand (c := ⟨b.data, size, idx, false⟩)
        (s := s.openBlock b (allocSetFreeListSize idx)) h.limit ?_ ?_ (hfits ..) h.charged
      · exact h.tiled.addBlock (b := { b with freeptr := b.data + allocSetFreeListSize idx })
          ⟨hfresh.spans, hfresh.bounds⟩ hpos hle (.inr ⟨rfl, rfl⟩)
      · intro c hc
        refine (h.fits c hc).congr fun x hx _ _ => ⟨x, .tail _ hx, rfl, fun hx' => ?_⟩
        exact hfresh.storage_ne hx (Option.some.inj hx').symm

end Sound

/-- The request is for a small chunk, no free one is there and the current block has no room. -/
def OpensBlock (s : AllocSet) (size : Nat) : Prop :=
  let allocSize := ((if size = 0 then 1 else size) + kChunkHdrSize) % sizeLimit
  let idx := allocSetFreeListIndex allocSize
  allocSize ≤ s.allocChunkLimit ∧ s.freelist idx = [] ∧
    s.room (allocSetFreeListSize idx) = some none

namespace Sound

/-- The size of the chunk and of its block does not wrap around. -/
theorem alloc_of_lt (h : Sound s) (hmalloc : Mallocs s malloc)
    (hsize : (if size = 0 then 1 else size) + kChunkHdrSize + 7 < sizeLimit)
    (hnext : s.OpensBlock size → s.nextBlockSize + 7 < sizeLimit) {r : Nat × AllocSet}
    (hrun : s.alloc malloc size = some r) : Sound r.2 := by
  set n := if size = 0 then 1 else size with hn
  have hmod : (n + kChunkHdrSize) % sizeLimit = n + kChunkHdrSize :=
    Nat.mod_eq_of_lt (by omega)
  unfold AllocSet.alloc at hrun
  dsimp only at hrun
  rw [← hn, hmod] at hrun
  split at hrun
  case isTrue => exact h.allocExternal hmalloc hsize hrun
  case isFalse hsmall =>
    have hle := Nat.le_of_not_lt hsmall
    refine h.allocSmall hmalloc (allocSetFreeListIndex_lt _)
      (le_allocSetFreeListSize (Nat.le_trans hle h.limit)) (fun hfree hplace => hnext ?_) hrun
    unfold OpensBlock
    rw [← hn, hmod]
    exact ⟨hle, hfree, hplace⟩

theorem alloc (h : Sound s) (hmalloc : Mallocs s malloc) (hsize : size ≤ kMaxAllocSize)
    (hnext : s.OpensBlock size → s.nextBlockSize + 7 < sizeLimit) {r : Nat × AllocSet}
    (hrun : s.alloc malloc size = some r) : Sound r.2 := by
  refine h.alloc_of_lt hmalloc ?_ hnext hrun
  unfold kMaxAllocSize at hsize
  unfold kChunkHdrSize sizeLimit
  split <;> omega

/-- The scan finds the block of an external chunk. -/
theorem find_external (h : Sound s) (hb : b ∈ s.blocks) (hspan : b.span = c.span)
    (hsize : c.size + kChunkHdrSize ≤ c.space) :
    (s.blocks.find? fun b => b.data ≤ c.start ∧ c.start < b.data + b.cap) = some b := by
  have hdata : b.data = c.start := congrArg Span.start hspan
  have hcap : b.cap = c.space := congrArg Span.size hspan
  have hpos : 0 < c.space := Nat.lt_of_lt_of_le (by unfold kChunkHdrSize; omega) hsize
  cases hfind : s.blocks.find? fun b => b.data ≤ c.start ∧ c.start < b.data + b.cap with
  | none =>
    have hnot := List.find?_eq_none.mp hfind b hb
    rw [hdata, hcap] at hnot
    simp only [decide_eq_true_eq] at hnot
    omega
  | some x =>
    have hin := List.find?_some hfind
    simp only [decide_eq_true_eq] at hin
    by_contra hne
    have happart := h.tiled.span_apart (List.mem_of_find?_eq_some hfind) hb
      fun hx => hne (congrArg some hx)
    unfold Span.Apart Span.stop AllocBlock.span at happart
    dsimp only at happart
    omega

theorem free (h : Sound s) (hrun : s.free pointer = some s') : Sound s' := by
  obtain ⟨c, hfind, hrun⟩ := Option.bind_eq_some_iff.mp hrun
  have hc := List.mem_of_find?_eq_some hfind
  have hperm := List.perm_cons_erase hc
  have hpieces : Tiled s.blocks s.freeptr
      (c.span :: ((s.live.erase c).map Chunk.span ++ freeChunks s.freelist)) :=
    h.tiled.perm ((hperm.map Chunk.span).append_right _)
  have hothers (c' : Chunk) (hc' : c' ∈ s.live.erase c) := h.fits c' (List.mem_of_mem_erase hc')
  split at hrun
  case isTrue hexternal =>
    cases hrun
    obtain ⟨b, hb, hspan, hcurrent⟩ := (h.fits c hc).external hexternal
    rw [← hspan] at hpieces
    obtain ⟨hapart, -⟩ := List.pairwise_cons.mp hpieces.apart
    have hcap : b.cap = c.space := congrArg Span.size hspan
    have hunlink : s.freeExternal c = (s.unlink b).take c c.charge := by
      rw [freeExternal, h.find_external hb hspan (h.fits c hc).size, Chunk.charge, if_pos hexternal,
        ← hcap]
    have hfreeptr : (s.unlink b).freeptr = s.freeptr := if_neg hcurrent
    rw [hunlink]
    refine sound_take (s := s.unlink b) h.limit hc ?_ (fun c' hc' => ?_) h.charged
    · rw [hfreeptr]
      exact hpieces.unlink hb hcurrent
    · rw [hfreeptr]
      refine (hothers c' hc').congr fun x hx hspan' hx' => ⟨x, ?_, rfl, hx'⟩
      refine (List.mem_erase_of_ne ?_).mpr hx
      rintro rfl
      have hmem : c'.span ∈ (s.live.erase c).map Chunk.span ++ freeChunks s.freelist :=
        List.mem_append_left _ (List.mem_map_of_mem hc')
      exact Span.Inside.not_apart (hspan' ▸ .refl _)
        (hpieces.placed _ (.tail _ hmem)).1 (hapart _ hmem).symm
  case isFalse hsmall =>
    cases hrun
    have hexternal : c.external = false := Bool.eq_false_iff.mpr hsmall
    have hspace : c.space = allocSetFreeListSize c.idx := if_neg hsmall
    have hcharge : c.charge = allocSetFreeListSize c.idx := (if_neg hsmall).trans hspace
    rw [freeSmall, ← hcharge]
    refine sound_take h.limit hc ?_ hothers h.charged
    have hupdate := freeChunks_update ((h.fits c hc).idx hexternal) s.freelist c.start
      (s.freelist c.idx)
    rw [Function.update_eq_self, ← hspace] at hupdate
    refine hpieces.perm ?_
    exact List.perm_middle.symm.trans (hupdate.symm.append_left _)

theorem realloc (h : Sound s) (hmalloc : Mallocs s malloc) (hsize : size ≤ kMaxAllocSize)
    (hnext : size ≠ 0 → s.OpensBlock size → s.nextBlockSize + 7 < sizeLimit)
    {r : Option Nat × AllocSet} (hrun : s.realloc malloc pointer size = some r) : Sound r.2 := by
  unfold AllocSet.realloc at hrun
  split at hrun
  case isTrue =>
    obtain ⟨s₁, hfree, rfl⟩ := Option.map_eq_some_iff.mp hrun
    exact h.free hfree
  case isFalse hne =>
    obtain ⟨⟨new, s₁⟩, halloc, hrun⟩ := Option.bind_eq_some_iff.mp hrun
    obtain ⟨s₂, hfree, hrun⟩ := Option.bind_eq_some_iff.mp hrun
    cases hrun
    exact (h.alloc hmalloc hsize (hnext hne) halloc).free hfree

theorem reset (h : Sound s)
    (hcurrent : s.freeptr = none ∨ s.freeptr = s.blocks.head?.map AllocBlock.storage) :
    Sound s.reset where
  limit := h.limit
  tiled := by
    have hpieces : s.reset.pieces = [] := by simp [AllocSet.reset, pieces, freeChunks]
    rw [hpieces]
    have htiled := h.tiled
    unfold AllocSet.reset
    cases hblocks : s.blocks with
    | nil =>
      rw [hblocks] at hcurrent
      rw [hcurrent.elim id id]
      exact .empty
    | cons keep rest =>
      rw [hblocks] at hcurrent htiled
      exact htiled.reset hcurrent
  fits := nofun
  charged := rfl

/-- Each external chunk has a block of its own. -/
theorem length_external_le (h : Sound s) : (s.live.filter Chunk.external).length ≤ s.blocks.length := by
  have hlive := (List.pairwise_append.mp h.tiled.apart).1
  have hsub : ((s.live.filter Chunk.external).map Chunk.span).Sublist (s.live.map Chunk.span) :=
    List.filter_sublist.map _
  have hnodup : ((s.live.filter Chunk.external).map Chunk.span).Nodup := by
    refine (hlive.sublist hsub).imp_of_mem fun {r t} hr _ happart heq => ?_
    obtain ⟨c, hc, rfl⟩ := List.mem_map.mp hr
    have hmem : c.span ∈ s.pieces :=
      List.mem_append_left _ (List.mem_map_of_mem (List.mem_of_mem_filter hc))
    exact Span.Inside.not_apart (heq ▸ .refl _) (h.tiled.placed _ hmem).1 happart
  have hsubset : (s.live.filter Chunk.external).map Chunk.span ⊆ s.blocks.map AllocBlock.span := by
    intro r hr
    obtain ⟨c, hc, rfl⟩ := List.mem_map.mp hr
    obtain ⟨hc, hexternal⟩ := List.mem_filter.mp hc
    obtain ⟨b, hb, hspan, -⟩ := (h.fits c hc).external hexternal
    exact List.mem_map.mpr ⟨b, hb, hspan⟩
  have hlength := (List.subperm_of_subset hnodup hsubset).length_le
  rwa [List.length_map, List.length_map] at hlength

/-- The chunks and the block storages share the address space. -/
theorem sum_charge_lt (h : Sound s) : (s.live.map Chunk.charge).sum < sizeLimit := by
  have hblocks := List.pairwise_flatMap.mp h.tiled.spans
  set storages := s.blocks.map fun b => (⟨b.storage, sizeofBlockStorage⟩ : Span) with hstorages
  have hin (r : Span) (hr : r ∈ s.live.map Chunk.span) :
      ∃ b ∈ s.blocks, r.Inside b.span := by
    obtain ⟨-, b, hb, hin, -⟩ := h.tiled.placed r (List.mem_append_left _ hr)
    exact ⟨b, hb, hin⟩
  have happart : (s.live.map Chunk.span ++ storages).Pairwise Span.Apart := by
    refine List.pairwise_append.mpr ⟨(List.pairwise_append.mp h.tiled.apart).1,
      List.pairwise_map.mpr (hblocks.2.imp fun hxy => hxy _ (.head _) _ (.head _)),
      fun r hr t ht => ?_⟩
    obtain ⟨x, hx, hrx⟩ := hin r hr
    obtain ⟨y, hy, rfl⟩ := List.mem_map.mp ht
    exact (h.tiled.storage_apart hx hy).of_inside hrx
  have hbounds (r : Span) (hr : r ∈ s.live.map Chunk.span ++ storages) :
      1 ≤ r.start ∧ r.stop ≤ sizeLimit := by
    rcases List.mem_append.mp hr with hr | hr
    · obtain ⟨x, hx, hrx⟩ := hin r hr
      have hx := h.tiled.bounds x.span (List.mem_flatMap.mpr ⟨x, hx, .tail _ (.head _)⟩)
      exact ⟨Nat.le_trans hx.1 hrx.1, Nat.le_trans hrx.2 hx.2⟩
    · obtain ⟨x, hx, rfl⟩ := List.mem_map.mp hr
      exact h.tiled.bounds _ (List.mem_flatMap.mpr ⟨x, hx, .head _⟩)
  have hsum := Span.sum_size_le happart hbounds
  have htotal : (storages.map Span.size).sum = sizeofBlockStorage * s.blocks.length := by
    rw [hstorages, List.map_map]
    show (s.blocks.map fun _ => sizeofBlockStorage).sum = _
    rw [List.map_const', List.sum_replicate_nat, Nat.mul_comm]
  have hexternal := Nat.mul_le_mul_left sizeofBlockStorage h.length_external_le
  rw [List.map_append, List.sum_append, htotal] at hsum
  rw [sum_charge]
  unfold sizeLimit at *
  omega

theorem intact (h : Sound s) : Intact s where
  current := h.tiled.current_mem
  apart := List.pairwise_map.mp (List.pairwise_append.mp h.tiled.apart).1
  inside c hc := by
    have hmem : c.span ∈ s.pieces := List.mem_append_left _ (List.mem_map_of_mem hc)
    obtain ⟨-, b, hb, hin, -⟩ := h.tiled.placed _ hmem
    exact ⟨(h.fits c hc).size, b, hb, hin⟩
  free r hr c hc :=
    ((List.pairwise_append.mp h.tiled.apart).2.2 c.span (List.mem_map_of_mem hc) r hr).symm
  charged := h.charged.trans (Nat.mod_eq_of_lt h.sum_charge_lt)

end Sound

/-! ### Runs -/

inductive Event where
  | alloc (size : Nat)
  | free (pointer : Nat)
  | realloc (pointer size : Nat)
  | reset

inductive Step (s : AllocSet) : Event → AllocSet → Prop
  | alloc {malloc : Malloc} {size pointer : Nat} {s' : AllocSet} : Mallocs s malloc →
    size ≤ kMaxAllocSize → s.alloc malloc size = some (pointer, s') → Step s (.alloc size) s'
  | free {pointer : Nat} {s' : AllocSet} : s.free pointer = some s' → Step s (.free pointer) s'
  | realloc {malloc : Malloc} {pointer size : Nat} {new : Option Nat} {s' : AllocSet} :
    Mallocs s malloc → size ≤ kMaxAllocSize → s.realloc malloc pointer size = some (new, s') →
      Step s (.realloc pointer size) s'
  | reset : Step s .reset s.reset

/-- A reset keeps the current block, and the size of a new block does not wrap around. -/
def Guarded (s : AllocSet) : Event → Prop
  | .alloc size => s.OpensBlock size → s.nextBlockSize + 7 < sizeLimit
  | .free _ => True
  | .realloc _ size => size ≠ 0 → s.OpensBlock size → s.nextBlockSize + 7 < sizeLimit
  | .reset => s.freeptr = none ∨ s.freeptr = s.blocks.head?.map AllocBlock.storage

inductive Run (ok : AllocSet → Event → Prop) : AllocSet → Prop
  | create (initSize maxSize : Nat) : Run ok (AllocSet.create initSize maxSize)
  | step {s s' : AllocSet} {e : Event} : Run ok s → ok s e → Step s e s' → Run ok s'

theorem Sound.step (h : Sound s) {e : Event} (hguarded : Guarded s e) (hstep : Step s e s') :
    Sound s' := by
  cases hstep with
  | alloc hmalloc hsize hrun => exact h.alloc hmalloc hsize hguarded hrun
  | free hrun => exact h.free hrun
  | realloc hmalloc hsize hrun => exact h.realloc hmalloc hsize hguarded hrun
  | reset => exact h.reset hguarded

/-- While every reset keeps the current block, the set is intact in every state. -/
theorem intact_of_guarded (h : Run Guarded s) : Intact s := by
  suffices hs : Sound s from hs.intact
  induction h with
  | create initSize maxSize => exact sound_create initSize maxSize
  | step _ hguarded hstep ih => exact ih.step hguarded hstep

/-- A `malloc` that has one place left, for a block of a bounded size. -/
def mallocAt (storage data room : Nat) : Malloc :=
  fun cap => if cap ≤ room then some (storage, data) else none

theorem mallocs_mallocAt {storage data room : Nat}
    (h : Fresh s.blocks ⟨storage, data, room, data⟩) : Mallocs s (mallocAt storage data room) := by
  intro cap storage' data' hm
  unfold mallocAt at hm
  split at hm
  case isFalse => cases hm
  case isTrue hle =>
    cases hm
    have hin : Span.Inside ⟨data, cap⟩ ⟨data, room⟩ := ⟨Nat.le_refl _, Nat.add_le_add_left hle _⟩
    obtain ⟨hown, hblocks, hcross⟩ := List.pairwise_append.mp h.spans
    refine ⟨List.pairwise_append.mpr ⟨?_, hblocks, fun r hr t ht => ?_⟩, fun r hr => ?_⟩
    · refine List.pairwise_pair.mpr ?_
      exact ((List.pairwise_pair.mp hown).symm.of_inside hin).symm
    · rcases List.mem_pair.mp hr with rfl | rfl
      · exact hcross _ (.head _) t ht
      · exact (hcross _ (.tail _ (.head _)) t ht).of_inside hin
    · rcases List.mem_pair.mp hr with rfl | rfl
      · exact h.bounds _ (.head _)
      · have hbound := h.bounds _ (.tail _ (.head _))
        exact ⟨hbound.1, Nat.le_trans hin.2 hbound.2⟩

theorem intact_reset_iff (h : Sound s) :
    Intact s.reset ↔ s.freeptr = none ∨ s.freeptr = s.blocks.head?.map AllocBlock.storage := by
  refine ⟨fun hintact => ?_, fun hcurrent => (h.reset hcurrent).intact⟩
  cases hfreeptr : s.freeptr with
  | none => exact .inl rfl
  | some p =>
    obtain ⟨b, hb, rfl⟩ := hintact.current p hfreeptr
    unfold AllocSet.reset at hb
    dsimp only at hb
    split at hb
    · cases hb
    case h_2 keep rest hblocks =>
      obtain rfl := List.mem_singleton.mp hb
      right
      rw [hblocks]
      rfl

/-- A small chunk, then a chunk with a block of its own that is freed before the reset. -/
theorem intact_reusedBlock : ∃ s, Run Guarded s ∧ s.freeptr = some 1000 ∧ Intact s := by
  have hfresh : Fresh [] ⟨1000, 100000, 8192, 100000⟩ := ⟨by decide, by decide⟩
  have h₁ : Run Guarded (create 8192 65536) := .create ..
  have h₂ : Run Guarded _ := .step (e := .alloc 100) h₁ (fun _ => by decide)
    (.alloc (mallocs_mallocAt hfresh) (by decide) rfl)
  have hfresh' : Fresh [⟨1000, 100000, 8192, 100128⟩] ⟨2000, 200000, 16384, 200000⟩ :=
    ⟨by decide, by decide⟩
  have h₃ : Run Guarded _ := .step (e := .alloc 9000) h₂ (fun _ => by decide)
    (.alloc (mallocs_mallocAt hfresh') (by decide) rfl)
  have h₄ : Run Guarded _ := .step (e := .free 200016) h₃ trivial (.free rfl)
  have h₅ : Run Guarded _ := .step (e := .reset) h₄ (.inr rfl) .reset
  exact ⟨_, h₅, rfl, intact_of_guarded h₅⟩

/-- The block of the small chunk is freed by the reset and stays the current one. -/
theorem not_intact_externalKept : ∃ s, Run (fun _ _ => True) s ∧ ¬ Intact s := by
  have hfresh : Fresh [] ⟨1000, 100000, 8192, 100000⟩ := ⟨by decide, by decide⟩
  have h₁ : Run (fun _ _ => True) (create 8192 65536) := .create ..
  have h₂ : Run (fun _ _ => True) _ := .step (e := .alloc 100) h₁ trivial
    (.alloc (mallocs_mallocAt hfresh) (by decide) rfl)
  have hfresh' : Fresh [⟨1000, 100000, 8192, 100128⟩] ⟨2000, 200000, 16384, 200000⟩ :=
    ⟨by decide, by decide⟩
  have h₃ : Run (fun _ _ => True) _ := .step (e := .alloc 9000) h₂ trivial
    (.alloc (mallocs_mallocAt hfresh') (by decide) rfl)
  have h₄ : Run (fun _ _ => True) _ := .step (e := .reset) h₃ trivial .reset
  refine ⟨_, h₄, fun hintact => ?_⟩
  obtain ⟨b, hb, hstorage⟩ := hintact.current 1000 rfl
  obtain rfl := List.mem_singleton.mp hb
  cases hstorage

end AllocSet
end JiaMiaoDB
