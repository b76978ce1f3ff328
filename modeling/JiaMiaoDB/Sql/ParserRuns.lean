import JiaMiaoDB.Sql.Parser

/-!
# Runs of the parser on known tokens

`Ahead s l`: the tokens from the position of `s` on are `l`. One equation for each of the token
readers, when the next token is the one asked for and when it is another.
-/

set_option autoImplicit false

namespace JiaMiaoDB
namespace Parser

def Ahead (s : Parser) (l : List Token) : Prop := s.tokens.drop s.pos = l

/-- The state `k` tokens on. -/
def forward (s : Parser) (k : Nat) : Parser := { s with pos := s.pos + k }

@[simp] theorem forward_zero (s : Parser) : s.forward 0 = s := rfl

@[simp] theorem forward_forward (s : Parser) (j k : Nat) :
    (s.forward j).forward k = s.forward (j + k) := by
  unfold forward
  rw [Nat.add_assoc]

theorem ofExcept_ok {α : Type} (a : α) (s : Parser) :
    (ofExcept (.ok a)).run s = (.ok a, s) := rfl

section
variable {s : Parser} {t : Token} {l rest : List Token}

theorem Ahead.forward (h : s.Ahead (l ++ rest)) : (s.forward l.length).Ahead rest := by
  unfold Ahead Parser.forward at *
  dsimp only
  rw [← List.drop_drop, h, List.drop_left]

theorem Ahead.next (h : s.Ahead (t :: rest)) : (s.forward 1).Ahead rest :=
  Ahead.forward (l := [t]) h

theorem Ahead.getElem? (h : s.Ahead (t :: rest)) : s.tokens[s.pos]? = some t := by
  have hget : (s.tokens.drop s.pos)[0]? = some t := by rw [h]; rfl
  rwa [List.getElem?_drop] at hget

theorem tokenAt_eq {i : Nat} (h : s.tokens[i]? = some t) : (tokenAt i).run s = (.ok t, s) := by
  rw [tokenAt, Prog.bind_ok (Prog.run_get s), h]
  rfl

theorem peek_state {s s' : Parser} {t : Token} (h : peek.run s = (.ok t, s')) : s' = s := by
  rw [peek, Prog.bind_ok (Prog.run_get s), tokenAt, Prog.bind_ok (Prog.run_get s)] at h
  split at h
  · cases h
    rfl
  · cases h

theorem exists_of_expect {s s' : Parser} {type : TokenType} {errorMsg : String} {t : Token}
    (h : (expect type errorMsg).run s = (.ok t, s')) :
    ∃ next, peek.run s = (.ok next, s) ∧ next.type = type := by
  obtain ⟨next, s₁, hpeek, hrest⟩ := Prog.exists_of_bind_ok h
  obtain rfl := peek_state hpeek
  refine ⟨next, hpeek, ?_⟩
  by_contra hne
  rw [if_pos hne] at hrest
  cases hrest

theorem peek_eq (h : s.Ahead (t :: rest)) : peek.run s = (.ok t, s) := by
  have hget := h.getElem?
  obtain ⟨hlt, -⟩ := List.getElem?_eq_some_iff.mp hget
  rw [peek, Prog.bind_ok (Prog.run_get s), if_neg (Nat.not_le.mpr hlt)]
  exact tokenAt_eq hget

/-- The token just passed. -/
theorem previous_eq (h : s.Ahead (t :: rest)) :
    previous.run (s.forward 1) = (.ok t, s.forward 1) := by
  rw [previous, Prog.bind_ok (Prog.run_get _)]
  exact tokenAt_eq h.getElem?

theorem isAtEnd_eq (h : s.Ahead (t :: rest)) :
    isAtEnd.run s = (.ok (decide (t.type = .end)), s) := by
  rw [isAtEnd, Prog.bind_ok (peek_eq h), Prog.run_pure]

theorem advance_eq (h : s.Ahead (t :: rest)) (ht : t.type ≠ .end) :
    advance.run s = (.ok t, s.forward 1) := by
  rw [advance, Prog.bind_ok (isAtEnd_eq h)]
  simp only [ht, decide_false, Bool.not_false, if_true]
  rw [Prog.bind_ok (Prog.run_modify _ s)]
  exact previous_eq h

theorem check_eq (h : s.Ahead (t :: rest)) {type : TokenType} (htype : type ≠ .end) :
    (check type).run s = (.ok (decide (t.type = type)), s) := by
  rw [check, Prog.bind_ok (isAtEnd_eq h)]
  by_cases ht : t.type = .end
  · simp [ht, htype.symm]
  · simp only [ht, decide_false, Bool.false_eq_true, if_false]
    rw [Prog.bind_ok (peek_eq h), Prog.run_pure]

theorem matchToken_hit (h : s.Ahead (t :: rest)) (ht : t.type ≠ .end) :
    (matchToken t.type).run s = (.ok true, s.forward 1) := by
  rw [matchToken, Prog.bind_ok (check_eq h ht), if_pos (by simp), Prog.bind_ok (advance_eq h ht),
    Prog.run_pure]

theorem matchToken_miss (h : s.Ahead (t :: rest)) {type : TokenType} (ht : t.type ≠ type)
    (htype : type ≠ .end) : (matchToken type).run s = (.ok false, s) := by
  rw [matchToken, Prog.bind_ok (check_eq h htype), if_neg (by simpa using ht), Prog.run_pure]

theorem matchToken_eq (h : s.Ahead (t :: rest)) {type : TokenType} (htype : type ≠ .end) :
    (matchToken type).run s =
      if t.type = type then (.ok true, s.forward 1) else (.ok false, s) := by
  split
  · next ht =>
    subst ht
    exact matchToken_hit h htype
  · next ht => exact matchToken_miss h ht htype

theorem expect_hit (h : s.Ahead (t :: rest)) (ht : t.type ≠ .end) (errorMsg : String) :
    (expect t.type errorMsg).run s = (.ok t, s.forward 1) := by
  rw [expect, Prog.bind_ok (peek_eq h), if_neg (by simp)]
  exact advance_eq h ht

theorem expect_miss (h : s.Ahead (t :: rest)) {type : TokenType} (ht : t.type ≠ type)
    (errorMsg : String) : ∃ f, (expect type errorMsg).run s = (.error (.failed f), s) := by
  rw [expect, Prog.bind_ok (peek_eq h), if_pos ht]
  exact ⟨_, rfl⟩

theorem matchOneOf_eq {ops : List (TokenType × BinaryOp)} (h : s.Ahead (t :: rest))
    (hops : ∀ p ∈ ops, p.1 ≠ .end) : (matchOneOf ops).run s =
      match ops.lookup t.type with
      | some op => (.ok (some op), s.forward 1)
      | none => (.ok none, s) := by
  induction ops with
  | nil => rfl
  | cons p ops ih =>
    obtain ⟨type, op⟩ := p
    have hne : type ≠ .end := hops _ List.mem_cons_self
    rw [matchOneOf]
    by_cases ht : t.type = type
    · subst ht
      rw [Prog.bind_ok (matchToken_hit h hne), if_pos rfl, List.lookup_cons_self]
      rfl
    · rw [Prog.bind_ok (matchToken_miss h ht hne), if_neg (by decide), List.lookup_cons,
        beq_eq_false_iff_ne.mpr ht]
      exact ih fun p hp => hops p (List.mem_cons_of_mem _ hp)

end
end Parser
end JiaMiaoDB
