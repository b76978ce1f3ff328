import JiaMiaoDB.Common.AllocSet
import JiaMiaoDB.Lib.Carving

/-!
# The arena

A small request is cut from the current block, from a block before it, or from a new one; a large one
gets a block of its own before the others. What is returned stays in the used parts of the blocks.
-/

set_option autoImplicit false

namespace JiaMiaoDB

/-- A block is told from the others by its buffer. -/
structure ArenaBlock where
  data : Nat
  cap : Nat
  used : Nat
deriving DecidableEq

structure Arena where
  blocks : List ArenaBlock
  /-- The buffer of the current block. -/
  current : Option Nat
  bytesUsed : Nat
  blockCount : Nat
deriving DecidableEq

/-- `jmalloc`; there is no result where it throws. -/
abbrev JMalloc := Nat → Option Nat

namespace ArenaBlock

def span (b : ArenaBlock) : Span := ⟨b.data, b.cap⟩

def region (b : ArenaBlock) : Region := ⟨b.span, b.used⟩

/-- Cuts from the block at an address that `align`, a power of two, divides. Nothing is cut when the
rest of the block is too short. -/
def allocInBlock (b : ArenaBlock) (bytes align : Nat) : Option (Nat × ArenaBlock) :=
  let start := (b.data + b.used) % sizeLimit
  let aligned := (start + align - 1) % sizeLimit / align * align
  let pad := (aligned + (sizeLimit - start)) % sizeLimit
  if b.cap < b.used + pad + bytes then none
  else some (aligned, { b with used := b.used + pad + bytes })

/-- The first of the blocks that has room even after the worst padding. -/
def allocInFirst (bytes align : Nat) : List ArenaBlock → Option (Nat × List ArenaBlock)
  | [] => none
  | b :: rest =>
    match if bytes + align ≤ b.cap - b.used then b.allocInBlock bytes align else none with
    | some (p, b') => some (p, b' :: rest)
    | none => (allocInFirst bytes align rest).map fun (p, rest') => (p, b :: rest')

end ArenaBlock

namespace Arena

def kBlockSize : Nat := 64 * 1024
def kLargeAllocThreshold : Nat := kBlockSize / 4

def create : Arena := ⟨[], none, 0, 0⟩

def allocBlock (malloc : JMalloc) (cap : Nat) : Option ArenaBlock :=
  (malloc (alignSize cap)).map fun data => ⟨data, alignSize cap, 0⟩

section
variable (s : Arena)

/-- The blocks from the head to the current one, and the others. -/
def split : List ArenaBlock × List ArenaBlock :=
  s.blocks.span fun b => decide (some b.data ≠ s.current)

/-- A block with room for a small request, and the blocks after the request. -/
def allocInBlocks (bytes align : Nat) : Option (Nat × List ArenaBlock) :=
  let (before, rest) := s.split
  let inCurrent : Option (Nat × List ArenaBlock) := match rest with
    | [] => none
    | b :: behind => (b.allocInBlock bytes align).map fun (p, b') => (p, before ++ b' :: behind)
  inCurrent.or ((ArenaBlock.allocInFirst bytes align before).map fun (p, before') =>
    (p, before' ++ rest))

/-- A new block at the head, from which the request is cut. -/
def allocInNew (b : ArenaBlock) (current : Option Nat) (bytes align : Nat) : Option Nat × Arena :=
  let (p, b) := match b.allocInBlock bytes align with
    | some (p, b') => (some p, b')
    | none => (none, b)
  (p, { blocks := b :: s.blocks, current := current
        bytesUsed := s.bytesUsed + bytes, blockCount := s.blockCount + 1 })

/-- The result and the arena, or none where `std::bad_alloc` is thrown. -/
def allocateAligned (malloc : JMalloc) (bytes align : Nat) : Option (Option Nat × Arena) :=
  if bytes = 0 then some (none, s)
  else if kLargeAllocThreshold < bytes then
    (allocBlock malloc ((bytes + align) % sizeLimit)).map fun b =>
      s.allocInNew b s.current bytes align
  else
    match s.allocInBlocks bytes align with
    | some (p, blocks) =>
      some (some p, { s with blocks := blocks, bytesUsed := s.bytesUsed + bytes })
    | none => (allocBlock malloc kBlockSize).map fun b => s.allocInNew b (some b.data) bytes align

def allocate (malloc : JMalloc) (bytes : Nat) : Option (Option Nat × Arena) :=
  s.allocateAligned malloc bytes 8

/-- The number of blocks stays. -/
def reset : Arena := { s with blocks := [], current := none, bytesUsed := 0 }

end

/-! ### One block -/

variable {s s' : Arena} {b b' : ArenaBlock} {bytes align p : Nat} {malloc : JMalloc}
  {blocks blocks' : List ArenaBlock} {results : List Span}

def AlignOk (align : Nat) : Prop := align = 8 ∨ align = 16 ∨ align = 64

theorem sizeLimit_eq : sizeLimit = 18446744073709551616 := rfl

/-- The piece lies between the used part before and the used part after. -/
theorem allocInBlock_spec (halign : AlignOk align) (hused : b.used ≤ b.cap)
    (hbound : b.data + b.cap ≤ sizeLimit) (hbytes : 0 < bytes)
    (h : b.allocInBlock bytes align = some (p, b')) :
    align ∣ p ∧ b.data + b.used ≤ p ∧ p + bytes ≤ b.data + b'.used ∧ b'.used ≤ b.cap ∧
      b'.span = b.span := by
  unfold ArenaBlock.allocInBlock at h
  dsimp only at h
  split at h
  · cases h
  · rename_i hroom
    cases h
    refine ⟨Nat.dvd_mul_left .., ?_, ?_, Nat.not_lt.mp hroom, rfl⟩
    · rw [sizeLimit_eq] at *
      rcases halign with rfl | rfl | rfl <;> omega
    · dsimp only
      rw [sizeLimit_eq] at *
      rcases halign with rfl | rfl | rfl <;> omega

/-- A new block has room for what it was made for. -/
theorem allocInBlock_of_new (halign : AlignOk align) (hused : b.used = 0)
    (hcap : bytes + align ≤ b.cap) :
    ∃ r, b.allocInBlock bytes align = some r := by
  unfold ArenaBlock.allocInBlock
  dsimp only
  rw [if_neg]
  · exact ⟨_, rfl⟩
  · rw [hused]
    rw [sizeLimit_eq] at *
    rcases halign with rfl | rfl | rfl <;> omega

/-! ### All blocks -/

/-- One block of the list has been cut. -/
def Cut (bytes align p : Nat) (blocks blocks' : List ArenaBlock) : Prop :=
  ∃ pre b post b', blocks = pre ++ b :: post ∧ blocks' = pre ++ b' :: post ∧
    b.allocInBlock bytes align = some (p, b')

theorem Cut.append (h : Cut bytes align p blocks blocks') (rest : List ArenaBlock) :
    Cut bytes align p (blocks ++ rest) (blocks' ++ rest) := by
  obtain ⟨pre, b, post, b', rfl, rfl, hcut⟩ := h
  exact ⟨pre, b, post ++ rest, b', by simp, by simp, hcut⟩

theorem cut_of_allocInFirst (h : ArenaBlock.allocInFirst bytes align blocks = some (p, blocks')) :
    Cut bytes align p blocks blocks' := by
  induction blocks generalizing blocks' with
  | nil => cases h
  | cons b rest ih =>
    unfold ArenaBlock.allocInFirst at h
    split at h
    · rename_i hcut
      cases h
      split at hcut
      · exact ⟨[], b, rest, _, rfl, rfl, hcut⟩
      · cases hcut
    · obtain ⟨⟨p', rest'⟩, hrest, heq⟩ := Option.map_eq_some_iff.mp h
      cases heq
      obtain ⟨pre, x, post, x', rfl, rfl, hcut⟩ := ih hrest
      exact ⟨b :: pre, x, post, x', rfl, rfl, hcut⟩

theorem append_split (s : Arena) : s.split.1 ++ s.split.2 = s.blocks := by
  unfold split
  rw [List.span_eq_takeWhile_dropWhile]
  exact List.takeWhile_append_dropWhile

theorem cut_of_allocInBlocks (h : s.allocInBlocks bytes align = some (p, blocks')) :
    Cut bytes align p s.blocks blocks' := by
  rw [← append_split s]
  unfold allocInBlocks at h
  dsimp only at h
  rcases Option.or_eq_some_iff.mp h with hcurrent | ⟨-, hfirst⟩
  · split at hcurrent
    · cases hcurrent
    · rename_i b behind hrest
      obtain ⟨⟨p', b'⟩, hcut, heq⟩ := Option.map_eq_some_iff.mp hcurrent
      cases heq
      exact ⟨s.split.1, b, behind, b', congrArg _ hrest, rfl, hcut⟩
  · obtain ⟨⟨p', before⟩, hcut, heq⟩ := Option.map_eq_some_iff.mp hfirst
    cases heq
    exact (cut_of_allocInFirst hcut).append s.split.2

/-- The results are cut from the blocks, which lie in the address space. -/
structure Intact (blocks : List ArenaBlock) (results : List Span) : Prop where
  carved : Carved (blocks.map ArenaBlock.region) results
  bounds : ∀ b ∈ blocks, b.data + b.cap ≤ sizeLimit

theorem Intact.cut (h : Intact blocks results) (halign : AlignOk align) (hbytes : 0 < bytes)
    (hcut : Cut bytes align p blocks blocks') :
    align ∣ p ∧ Intact blocks' (⟨p, bytes⟩ :: results) := by
  obtain ⟨pre, b, post, b', rfl, rfl, hcut⟩ := hcut
  have hb : b ∈ pre ++ b :: post := List.mem_append_right pre (List.mem_cons_self ..)
  have hbound := h.bounds b hb
  have hused : b.used ≤ b.cap := h.carved.used b.region (List.mem_map_of_mem hb)
  obtain ⟨hdvd, hlo, hhi, hle, hspan⟩ := allocInBlock_spec halign hused hbound hbytes hcut
  have hregion : b'.region = ⟨b.span, b'.used⟩ := congrArg (Region.mk · b'.used) hspan
  refine ⟨hdvd, ?_, ?_⟩
  · have hcarved := h.carved
    rw [List.map_append, List.map_cons] at hcarved ⊢
    rw [hregion]
    exact hcarved.carve (p := ⟨p, bytes⟩) hlo hhi hle
  · intro x hx
    rcases List.mem_append.mp hx with hx | hx
    · exact h.bounds x (List.mem_append_left _ hx)
    · rcases List.mem_cons.mp hx with rfl | hx
      · have hdata : x.data = b.data := congrArg Span.start hspan
        have hcap : x.cap = b.cap := congrArg Span.size hspan
        omega
      · exact h.bounds x (List.mem_append_right _ (List.mem_cons_of_mem b hx))

/-- What `jmalloc` hands out is in the address space and apart from the buffers of the arena. -/
def JMallocs (blocks : List ArenaBlock) (malloc : JMalloc) : Prop :=
  ∀ cap data, malloc cap = some data →
    data + cap ≤ sizeLimit ∧ ∀ b ∈ blocks, Span.Apart ⟨data, cap⟩ b.span

theorem Intact.push (h : Intact blocks results) (hmalloc : JMallocs blocks malloc) {cap : Nat}
    (hblock : allocBlock malloc cap = some b) :
    b.used = 0 ∧ b.cap = alignSize cap ∧ Intact (b :: blocks) results := by
  obtain ⟨data, hdata, rfl⟩ := Option.map_eq_some_iff.mp hblock
  obtain ⟨hbound, hfresh⟩ := hmalloc _ _ hdata
  refine ⟨rfl, rfl, ?_, ?_⟩
  · apply h.carved.push (Nat.zero_le _)
    intro x hx
    obtain ⟨b, hb, rfl⟩ := List.mem_map.mp hx
    exact hfresh b hb
  · intro x hx
    rcases List.mem_cons.mp hx with rfl | hx
    · exact hbound
    · exact h.bounds x hx

theorem allocInNew_eq (s : Arena) (current : Option Nat)
    (hcut : b.allocInBlock bytes align = some (p, b')) :
    s.allocInNew b current bytes align =
      (some p, ⟨b' :: s.blocks, current, s.bytesUsed + bytes, s.blockCount + 1⟩) := by
  unfold allocInNew
  rw [hcut]

/-- A block that is large enough holds the request it was made for. -/
theorem Intact.allocInNew (h : Intact (b :: s.blocks) results) (halign : AlignOk align)
    (hbytes : 0 < bytes) (hused : b.used = 0) (hcap : bytes + align ≤ b.cap)
    (current : Option Nat) :
    ∃ p, (s.allocInNew b current bytes align).1 = some p ∧ align ∣ p ∧
      Intact (s.allocInNew b current bytes align).2.blocks (⟨p, bytes⟩ :: results) := by
  obtain ⟨⟨p, b'⟩, hcut⟩ := allocInBlock_of_new halign hused hcap
  have hhead : Cut bytes align p (b :: s.blocks) (b' :: s.blocks) :=
    ⟨[], b, s.blocks, b', rfl, rfl, hcut⟩
  obtain ⟨hdvd, hnew⟩ := h.cut halign hbytes hhead
  rw [allocInNew_eq s current hcut]
  exact ⟨p, rfl, hdvd, hnew⟩

/-- The buffer of a large request. -/
theorem le_alignSize_of_limit (halign : AlignOk align) (hbound : bytes ≤ kMaxAllocSize) :
    bytes + align ≤ alignSize ((bytes + align) % sizeLimit) := by
  have hmax : kMaxAllocSize = 1073741823 := rfl
  unfold alignSize
  rw [sizeLimit_eq]
  rcases halign with rfl | rfl | rfl <;> omega

theorem le_kBlockSize (halign : AlignOk align) (hsmall : ¬ kLargeAllocThreshold < bytes) :
    bytes + align ≤ alignSize kBlockSize := by
  have hblock : alignSize kBlockSize = 65536 := by decide
  have hthreshold : kLargeAllocThreshold = 16384 := by decide
  rw [hblock]
  rcases halign with rfl | rfl | rfl <;> omega

theorem Intact.allocateAligned {r : Option Nat} (h : Intact s.blocks results)
    (halign : AlignOk align) (hbound : bytes ≤ kMaxAllocSize)
    (hmalloc : JMallocs s.blocks malloc)
    (hrun : s.allocateAligned malloc bytes align = some (r, s')) :
    bytes = 0 ∧ r = none ∧ s' = s ∨
      0 < bytes ∧ ∃ p, r = some p ∧ align ∣ p ∧ Intact s'.blocks (⟨p, bytes⟩ :: results) := by
  unfold Arena.allocateAligned at hrun
  by_cases hzero : bytes = 0
  · rw [if_pos hzero] at hrun
    cases hrun
    exact Or.inl ⟨hzero, rfl, rfl⟩
  have hbytes : 0 < bytes := Nat.pos_of_ne_zero hzero
  refine Or.inr ⟨hbytes, ?_⟩
  rw [if_neg hzero] at hrun
  split at hrun
  · obtain ⟨b, hblock, heq⟩ := Option.map_eq_some_iff.mp hrun
    obtain ⟨hused, hcap, hpush⟩ := h.push hmalloc hblock
    have hroom : bytes + align ≤ b.cap := hcap ▸ le_alignSize_of_limit halign hbound
    obtain ⟨p, hp, hnew⟩ := hpush.allocInNew halign hbytes hused hroom s.current
    rw [heq] at hp hnew
    exact ⟨p, hp, hnew⟩
  · rename_i hsmall
    split at hrun
    · rename_i p blocks' hcut
      cases hrun
      exact ⟨p, rfl, h.cut halign hbytes (cut_of_allocInBlocks hcut)⟩
    · obtain ⟨b, hblock, heq⟩ := Option.map_eq_some_iff.mp hrun
      obtain ⟨hused, hcap, hpush⟩ := h.push hmalloc hblock
      have hroom : bytes + align ≤ b.cap := hcap ▸ le_kBlockSize halign hsmall
      obtain ⟨p, hp, hnew⟩ := hpush.allocInNew halign hbytes hused hroom (some b.data)
      rw [heq] at hp hnew
      exact ⟨p, hp, hnew⟩

/-! ### Runs -/

/-- A range that was handed out, with the alignment it was asked for. -/
structure Result where
  span : Span
  align : Nat

/-- A request within the limit of `jmalloc`, with what `jmalloc` gives it. -/
structure Legal (s : Arena) (malloc : JMalloc) (bytes align : Nat) : Prop where
  align : AlignOk align
  bytes : bytes ≤ kMaxAllocSize
  malloc : JMallocs s.blocks malloc

/-- The arenas reached, with what was handed out since the last reset. -/
inductive Run : Arena → List Result → Prop
  | create : Run create []
  | allocate {s s' : Arena} {results : List Result} {malloc : JMalloc} {bytes align : Nat}
    {r : Option Nat} : Run s results → Legal s malloc bytes align →
    s.allocateAligned malloc bytes align = some (r, s') →
    Run s' ((r.map fun p => ⟨⟨p, bytes⟩, align⟩).toList ++ results)
  | reset {s : Arena} {results : List Result} : Run s results → Run s.reset []

/-- What was handed out is aligned and cut from the blocks. -/
theorem Run.intact {results : List Result} (h : Run s results) :
    Intact s.blocks (results.map Result.span) ∧ ∀ r ∈ results, r.align ∣ r.span.start := by
  induction h with
  | create => exact ⟨⟨Carved.nil, nofun⟩, nofun⟩
  | reset _ _ => exact ⟨⟨Carved.nil, nofun⟩, nofun⟩
  | allocate _ hlegal hrun ih =>
    obtain ⟨hintact, haligned⟩ := ih
    rcases hintact.allocateAligned hlegal.align hlegal.bytes hlegal.malloc hrun with
      ⟨-, rfl, rfl⟩ | ⟨-, p, rfl, hdvd, hnew⟩
    · exact ⟨hintact, haligned⟩
    · refine ⟨hnew, ?_⟩
      intro r hr
      rcases List.mem_cons.mp hr with rfl | hr
      · exact hdvd
      · exact haligned r hr

/-- All that was handed out since the last reset is apart, aligned and inside the blocks, and a
request for more than no bytes gets a range. -/
theorem arena_integrity {results : List Result} (h : Run s results) :
    results.Pairwise (fun r t => r.span.Apart t.span) ∧
      (∀ r ∈ results, r.align ∣ r.span.start ∧ ∃ b ∈ s.blocks, r.span.Inside b.span) ∧
      ∀ malloc bytes align r s', Legal s malloc bytes align → 0 < bytes →
        s.allocateAligned malloc bytes align = some (r, s') → r ≠ none := by
  obtain ⟨hintact, haligned⟩ := h.intact
  refine ⟨List.pairwise_map.mp hintact.carved.apart, ?_, ?_⟩
  · intro r hr
    obtain ⟨x, hx, hin⟩ := hintact.carved.inside_span (List.mem_map_of_mem hr)
    obtain ⟨b, hb, rfl⟩ := List.mem_map.mp hx
    exact ⟨haligned r hr, b, hb, hin⟩
  · intro malloc bytes align r s' hlegal hbytes hrun
    rcases hintact.allocateAligned hlegal.align hlegal.bytes hlegal.malloc hrun with
      ⟨hzero, -, -⟩ | ⟨-, p, hp, -, -⟩
    · exact absurd hzero (Nat.ne_of_gt hbytes)
    · rw [hp]
      exact Option.some_ne_none p

/-- Two results from one block, the second after 28 bytes of padding. -/
theorem arena_integrity_padded : ∃ s, Run s [⟨⟨4224, 24⟩, 64⟩, ⟨⟨4096, 100⟩, 16⟩] ∧
    64 ∣ 4224 ∧ ∃ b ∈ s.blocks, Span.Inside ⟨4224, 24⟩ b.span := by
  have hfirst : Legal create (fun cap => if cap ≤ 65536 then some 4096 else none) 100 16 := by
    refine ⟨Or.inr (Or.inl rfl), by decide, ?_⟩
    intro cap data hdata
    dsimp only at hdata
    split at hdata
    · cases hdata
      rw [sizeLimit_eq]
      exact ⟨by omega, nofun⟩
    · cases hdata
  have hone : Run ⟨[⟨4096, 65536, 100⟩], some 4096, 100, 1⟩ [⟨⟨4096, 100⟩, 16⟩] :=
    .allocate (r := some 4096) .create hfirst (by decide +kernel)
  have hsecond : Legal ⟨[⟨4096, 65536, 100⟩], some 4096, 100, 1⟩ (fun _ => none) 24 64 :=
    ⟨Or.inr (Or.inr rfl), by decide, nofun⟩
  have htwo : Run ⟨[⟨4096, 65536, 152⟩], some 4096, 124, 1⟩
      [⟨⟨4224, 24⟩, 64⟩, ⟨⟨4096, 100⟩, 16⟩] :=
    .allocate (r := some 4224) hone hsecond (by decide +kernel)
  exact ⟨_, htwo, (arena_integrity htwo).2.1 _ (List.mem_cons_self ..)⟩

end Arena
end JiaMiaoDB
