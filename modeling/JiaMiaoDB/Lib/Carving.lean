import JiaMiaoDB.Lib.Span

/-! Blocks that are used up from their start, and the pieces that have been cut from them. -/

set_option autoImplicit false

/-- A block with the number of its first bytes that are used. -/
structure Region where
  span : Span
  used : Nat

/-- The used part of the block. -/
def Region.front (r : Region) : Span := ⟨r.span.start, r.used⟩

/-- Neither the blocks nor the pieces overlap, and each piece is in the used part of a block. -/
structure Carved (regions : List Region) (pieces : List Span) : Prop where
  spans : (regions.map Region.span).Pairwise Span.Apart
  used : ∀ r ∈ regions, r.used ≤ r.span.size
  apart : pieces.Pairwise Span.Apart
  inside : ∀ p ∈ pieces, ∃ r ∈ regions, p.Inside r.front

namespace Carved
variable {regions pre post : List Region} {pieces : List Span} {r : Region} {p : Span} {n : Nat}

theorem nil : Carved [] [] where
  spans := .nil
  used := nofun
  apart := .nil
  inside := nofun

theorem front_inside (h : r.used ≤ r.span.size) : r.front.Inside r.span := by
  unfold Span.Inside Span.stop Region.front
  dsimp only
  omega

/-- The pieces are in the blocks. -/
theorem inside_span (h : Carved regions pieces) (hp : p ∈ pieces) :
    ∃ r ∈ regions, p.Inside r.span := by
  obtain ⟨r, hr, hin⟩ := h.inside p hp
  have hfront := front_inside (h.used r hr)
  refine ⟨r, hr, ?_⟩
  unfold Span.Inside at *
  omega

/-- A block that overlaps no other. -/
theorem push (h : Carved regions pieces) (hused : r.used ≤ r.span.size)
    (hfresh : ∀ x ∈ regions, r.span.Apart x.span) : Carved (r :: regions) pieces where
  spans := by
    rw [List.map_cons, List.pairwise_cons]
    refine ⟨?_, h.spans⟩
    intro t ht
    obtain ⟨x, hx, rfl⟩ := List.mem_map.mp ht
    exact hfresh x hx
  used := by
    intro x hx
    rcases List.mem_cons.mp hx with rfl | hx
    · exact hused
    · exact h.used x hx
  apart := h.apart
  inside p hp := by
    obtain ⟨x, hx, hin⟩ := h.inside p hp
    exact ⟨x, List.mem_cons_of_mem r hx, hin⟩

/-- Two blocks at different places of the list. -/
theorem apart_of_ne (h : Carved (pre ++ r :: post) pieces) {x : Region} (hx : x ∈ pre ++ post) :
    x.span.Apart r.span := by
  have hspans := h.spans
  rw [List.map_append, List.map_cons, List.pairwise_append, List.pairwise_cons] at hspans
  obtain ⟨-, ⟨hpost, -⟩, hpre⟩ := hspans
  rcases List.mem_append.mp hx with hx | hx
  · exact hpre _ (List.mem_map_of_mem hx) _ (List.mem_cons_self ..)
  · exact (hpost _ (List.mem_map_of_mem hx)).symm

/-- A piece is cut from the unused rest of a block. -/
theorem carve (h : Carved (pre ++ r :: post) pieces) (hlo : r.span.start + r.used ≤ p.start)
    (hhi : p.stop ≤ r.span.start + n) (hn : n ≤ r.span.size) :
    Carved (pre ++ ⟨r.span, n⟩ :: post) (p :: pieces) := by
  have hr : r ∈ pre ++ r :: post := List.mem_append_right pre (List.mem_cons_self ..)
  have hused := h.used r hr
  have hsplit {x : Region} : x ∈ pre ++ r :: post ↔ x = r ∨ x ∈ pre ++ post := by
    simp only [List.mem_append, List.mem_cons]
    tauto
  have hsplit' {x : Region} :
      x ∈ pre ++ ⟨r.span, n⟩ :: post ↔ x = ⟨r.span, n⟩ ∨ x ∈ pre ++ post := by
    simp only [List.mem_append, List.mem_cons]
    tauto
  have hstop : p.start ≤ p.stop := Nat.le_add_right ..
  refine ⟨?_, ?_, ?_, ?_⟩
  · have hspans := h.spans
    rw [List.map_append, List.map_cons] at hspans ⊢
    exact hspans
  · intro x hx
    rcases hsplit'.mp hx with rfl | hx
    · exact hn
    · exact h.used x (hsplit.mpr (Or.inr hx))
  · apply List.pairwise_cons.mpr
    refine ⟨?_, h.apart⟩
    intro q hq
    obtain ⟨x, hx, hin⟩ := h.inside q hq
    have hfront := front_inside (h.used x hx)
    rcases hsplit.mp hx with rfl | hx
    · -- The older pieces of the block end where the new one may start.
      unfold Span.Inside Region.front Span.stop at *
      unfold Span.Apart Span.stop
      dsimp only at *
      omega
    · have happart := h.apart_of_ne hx
      unfold Span.Inside Span.Apart Span.stop at *
      omega
  · intro q hq
    rcases List.mem_cons.mp hq with rfl | hq
    · refine ⟨⟨r.span, n⟩, hsplit'.mpr (Or.inl rfl), ?_⟩
      unfold Span.Inside Region.front Span.stop at *
      dsimp only
      omega
    · obtain ⟨x, hx, hin⟩ := h.inside q hq
      rcases hsplit.mp hx with rfl | hx
      · refine ⟨⟨x.span, n⟩, hsplit'.mpr (Or.inl rfl), ?_⟩
        unfold Span.Inside Region.front Span.stop at *
        dsimp only at *
        omega
      · exact ⟨x, hsplit'.mpr (Or.inr hx), hin⟩

/-- The block is the first one. -/
theorem carve_head (h : Carved (r :: post) pieces) (hlo : r.span.start + r.used ≤ p.start)
    (hhi : p.stop ≤ r.span.start + n) (hn : n ≤ r.span.size) :
    Carved (⟨r.span, n⟩ :: post) (p :: pieces) := by
  rw [← List.nil_append (r :: post)] at h
  exact h.carve hlo hhi hn

end Carved
