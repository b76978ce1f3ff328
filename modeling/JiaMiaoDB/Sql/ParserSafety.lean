import JiaMiaoDB.Lib.Progress
import JiaMiaoDB.Sql.Parser

/-!
# Safety of the parser

Over a token list whose only end token is its last one no access leaves the list, and every
loop and every recursion consumes tokens.
-/

set_option autoImplicit false

namespace JiaMiaoDB
namespace Parser

/-- The state lies over `init` and the end token behind it, at most at the end token. -/
def Inside (init : List Token) (last : Token) (s : Parser) : Prop :=
  s.tokens = init ++ [last] ∧ s.pos ≤ init.length

def left (init : List Token) (s : Parser) : Nat := init.length - s.pos

def Raised : Stop → Prop
  | .failed f => f ≠ .undefined
  | .outOfFuel => False

/-- The parser advances by at least `k` tokens when less than `n` are left. -/
def Advances {α : Type} (init : List Token) (last : Token) (n k : Nat) (p : ParserM α) : Prop :=
  Prog.Uses (Inside init last) (left init) Raised n k p

theorem stoll_defined (text : Str) : Json.stoll text ≠ .error .undefined := by
  unfold Json.stoll
  split <;> simp

theorem stod_defined (text : Str) : Json.stod text ≠ .error .undefined := by
  unfold Json.stod
  split <;> simp

section
variable {init : List Token} {last : Token} {s : Parser} {n k : Nat}

theorem tokenAt_run (hs : Inside init last s) {i : Nat} (hi : i ≤ init.length) :
    ∃ t, (init ++ [last])[i]? = some t ∧ (tokenAt i).run s = (.ok t, s) := by
  have hlt : i < (init ++ [last]).length := by
    rw [List.length_append, List.length_singleton]
    omega
  refine ⟨(init ++ [last])[i], List.getElem?_eq_getElem hlt, ?_⟩
  rw [tokenAt, Prog.bind_ok (Prog.run_get s), hs.1, List.getElem?_eq_getElem hlt]
  rfl

theorem previous_wp (hs : Inside init last s) {Q : Token → Parser → Prop} {E : Stop → Parser → Prop}
    (h : ∀ t, Q t s) : previous.wp Q E s := by
  have hle : (if s.pos = 0 then 0 else s.pos - 1) ≤ init.length := by
    have := hs.2
    split <;> omega
  obtain ⟨t, -, hrun⟩ := tokenAt_run hs hle
  rw [previous, Prog.wp_bind, Prog.wp_get]
  exact Prog.wp_of_ok hrun (h t)

theorem previous_advances {α : Type} {f : Token → ParserM α}
    (h : ∀ t, Advances init last n k (f t)) : Advances init last n k (previous >>= f) := by
  intro s hs hleft
  rw [Prog.wp_bind]
  exact previous_wp hs fun t => h t s hs hleft

theorem parseError_advances {α : Type} (what : Str) :
    Advances init last n k (parseError what : ParserM α) :=
  Prog.Uses.throw (by intro h; cases h)

theorem ofExcept_advances {α : Type} {r : Except Failure α} (h : r ≠ .error .undefined) :
    Advances init last n 0 (ofExcept r) := by
  intro s hs _
  cases r with
  | ok a => exact ⟨hs, Nat.le_refl _⟩
  | error f => exact fun hf => h (congrArg Except.error hf)

/-- The fuel is more than what is left. -/
theorem fuel_advances {α : Type} {f : Nat → ParserM α}
    (h : Advances init last n k (f (init.length + 2))) : Advances init last n k (fuel >>= f) := by
  intro s hs hleft
  have hlen : s.tokens.length + 1 = init.length + 2 := by
    rw [hs.1, List.length_append, List.length_singleton]
  rw [fuel, Prog.wp_bind, Prog.wp_bind, Prog.wp_get, Prog.wp_pure, hlen]
  exact h s hs hleft

variable (hinit : ∀ t ∈ init, t.type ≠ .end) (hlast : last.type = .end)
include hinit hlast

/-- A token other than the end token has tokens left behind it. -/
theorem peek_run (hs : Inside init last s) :
    ∃ t, peek.run s = (.ok t, s) ∧ (t.type = .end ↔ s.pos = init.length) := by
  obtain ⟨htokens, hpos⟩ := hs
  have hlen : s.tokens.length = init.length + 1 := by
    rw [htokens, List.length_append, List.length_singleton]
  obtain ⟨t, ht, hrun⟩ := tokenAt_run ⟨htokens, hpos⟩ hpos
  refine ⟨t, ?_, ?_⟩
  · rw [peek, Prog.bind_ok (Prog.run_get s), if_neg (by omega)]
    exact hrun
  · rcases Nat.lt_or_eq_of_le hpos with hlt | heq
    · rw [List.getElem?_append_left hlt] at ht
      have hmem := List.mem_of_getElem? ht
      exact ⟨fun h => absurd h (hinit t hmem), fun h => absurd h (Nat.ne_of_lt hlt)⟩
    · rw [heq, List.getElem?_concat_length] at ht
      obtain rfl := Option.some.inj ht
      exact ⟨fun _ => heq, fun _ => hlast⟩

theorem peek_advances {α : Type} {f : Token → ParserM α}
    (h : ∀ t, Advances init last n k (f t)) : Advances init last n k (peek >>= f) := by
  intro s hs hleft
  obtain ⟨t, hpeek, -⟩ := peek_run hinit hlast hs
  rw [Prog.wp_bind]
  exact Prog.wp_of_ok hpeek (h t s hs hleft)

theorem isAtEnd_run (hs : Inside init last s) :
    isAtEnd.run s = (.ok (decide (s.pos = init.length)), s) := by
  obtain ⟨t, hpeek, hend⟩ := peek_run hinit hlast hs
  rw [isAtEnd, Prog.bind_ok hpeek, Prog.run_pure]
  simp only [hend]

theorem advance_wp (hs : Inside init last s) {Q : Token → Parser → Prop}
    {E : Stop → Parser → Prop}
    (hend : s.pos = init.length → ∀ t, Q t s)
    (hnext : s.pos < init.length → ∀ t, Q t { s with pos := s.pos + 1 }) : advance.wp Q E s := by
  rw [advance, Prog.wp_bind]
  apply Prog.wp_of_ok (isAtEnd_run hinit hlast hs)
  by_cases hpos : s.pos = init.length
  · simp only [hpos, decide_true, Bool.not_true, Bool.false_eq_true, if_false]
    exact previous_wp hs (hend hpos)
  · simp only [hpos, decide_false, Bool.not_false, if_true]
    have hlt := Nat.lt_of_le_of_ne hs.2 hpos
    rw [Prog.wp_bind, Prog.wp_modify]
    have hs' : Inside init last { s with pos := s.pos + 1 } := ⟨hs.1, hlt⟩
    exact previous_wp hs' (hnext hlt)

theorem advance_advances : Advances init last n 0 advance := by
  intro s hs _
  apply advance_wp hinit hlast hs
  · intro _ _
    exact ⟨hs, Nat.le_refl _⟩
  · intro hlt _
    refine ⟨⟨hs.1, hlt⟩, ?_⟩
    unfold left
    dsimp only
    omega

/-- Before the end token `advance` consumes a token. -/
theorem advance_lt (hs : Inside init last s) (hlt : s.pos < init.length) :
    advance.wp (fun _ s' => Inside init last s' ∧ left init s' + 1 ≤ left init s)
      (fun e _ => Raised e) s := by
  apply advance_wp hinit hlast hs
  · intro hend
    exact absurd hend (Nat.ne_of_lt hlt)
  · intro _ _
    refine ⟨⟨hs.1, hlt⟩, ?_⟩
    unfold left
    dsimp only
    omega

theorem check_wp (hs : Inside init last s) (type : TokenType) {Q : Bool → Parser → Prop}
    {E : Stop → Parser → Prop} (hfalse : Q false s) (htrue : s.pos < init.length → Q true s) :
    (check type).wp Q E s := by
  rw [check, Prog.wp_bind]
  apply Prog.wp_of_ok (isAtEnd_run hinit hlast hs)
  by_cases hpos : s.pos = init.length
  · simp only [hpos, decide_true, if_true]
    exact hfalse
  · simp only [hpos, decide_false, Bool.false_eq_true, if_false]
    obtain ⟨t, hpeek, -⟩ := peek_run hinit hlast hs
    rw [Prog.wp_bind]
    apply Prog.wp_of_ok hpeek
    rw [Prog.wp_pure]
    by_cases ht : t.type = type
    · simp only [ht, decide_true]
      exact htrue (Nat.lt_of_le_of_ne hs.2 hpos)
    · simp only [ht, decide_false]
      exact hfalse

theorem matchToken_wp (type : TokenType) (hs : Inside init last s) :
    (matchToken type).wp
      (fun b s' => Inside init last s' ∧ left init s' + b.toNat ≤ left init s)
      (fun e _ => Raised e) s := by
  rw [matchToken, Prog.wp_bind]
  apply check_wp hinit hlast hs
  · exact ⟨hs, Nat.le_refl _⟩
  · intro hlt
    rw [if_pos rfl, Prog.wp_bind]
    exact advance_lt hinit hlast hs hlt

/-- The rule for `if match(type)`. -/
theorem ite_matchToken {α : Type} {type : TokenType} {p q : ParserM α}
    (hp : Advances init last (n - 1) (k - 1) p) (hq : Advances init last n k q) :
    Advances init last n k (matchToken type >>= fun b => if b = true then p else q) :=
  Prog.Uses.test (fun _ hs _ => matchToken_wp hinit hlast type hs) hp hq

theorem expect_advances {type : TokenType} (htype : type ≠ .end) (errorMsg : String) :
    Advances init last n 1 (expect type errorMsg) := by
  intro s hs hleft
  obtain ⟨t, hpeek, hend⟩ := peek_run hinit hlast hs
  rw [expect, Prog.wp_bind]
  apply Prog.wp_of_ok hpeek
  rw [Prog.wp_ite]
  split
  · exact parseError_advances _ s hs hleft
  · next h =>
    rw [not_not] at h
    apply advance_lt hinit hlast hs
    apply Nat.lt_of_le_of_ne hs.2
    intro hpos
    exact htype (h ▸ hend.mpr hpos)

/-! ### Expressions -/

theorem matchOneOf_wp (ops : List (TokenType × BinaryOp)) (hs : Inside init last s) :
    (matchOneOf ops).wp
      (fun o s' => Inside init last s' ∧ left init s' + o.isSome.toNat ≤ left init s)
      (fun e _ => Raised e) s := by
  induction ops generalizing s with
  | nil => exact ⟨hs, Nat.le_refl _⟩
  | cons p ops ih =>
    obtain ⟨type, op⟩ := p
    rw [matchOneOf, Prog.wp_bind]
    refine Prog.wp_mono (matchToken_wp hinit hlast type hs) ?_ (fun _ _ he => he)
    rintro (_ | _) s' ⟨hs', hused⟩
    · refine Prog.wp_mono (ih hs') ?_ (fun _ _ he => he)
      intro o s'' h''
      exact ⟨h''.1, Nat.le_trans h''.2 hused⟩
    · exact ⟨hs', hused⟩

theorem chain_advances {ops : List (TokenType × BinaryOp)} {operand : ParserM Expression}
    (h : Advances init last n 1 operand) (expr : Expression) :
    Advances init last n 0 (chain ops operand n expr) := by
  induction n generalizing expr with
  | zero => exact Prog.Uses.zero
  | succ n ih =>
    intro s hs hleft
    rw [chain, Prog.wp_bind]
    refine Prog.wp_mono (matchOneOf_wp hinit hlast ops hs) ?_ (fun _ _ he => he)
    rintro (_ | op) s' ⟨hs', hused⟩
    · exact ⟨hs', hused⟩
    · rw [Option.isSome_some, Bool.toNat_true] at hused
      have hrest := (h.mono (Nat.le_succ n) (Nat.zero_le 1)).bind fun right =>
        ih (h.mono (Nat.le_succ n) (Nat.le_refl 1)) (.binary op expr right)
      refine Prog.wp_mono (hrest s' hs' (by omega)) ?_ (fun _ _ he => he)
      intro a s'' h''
      exact ⟨h''.1, by omega⟩

theorem leftAssoc_advances {ops : List (TokenType × BinaryOp)} {operand : ParserM Expression}
    (h : Advances init last n 1 operand) : Advances init last n 1 (leftAssoc ops n operand) :=
  h.bind fun expr => chain_advances hinit hlast h expr

theorem parseComparison_advances {operand : ParserM Expression}
    (h : Advances init last n 1 operand) : Advances init last n 1 (parseComparison operand) := by
  apply h.bind
  intro expr s hs hleft
  rw [Prog.wp_bind]
  refine Prog.wp_mono (matchOneOf_wp hinit hlast comparisonOps hs) ?_ (fun _ _ he => he)
  rintro (_ | op) s' ⟨hs', hused⟩
  · exact ⟨hs', hused⟩
  · have hrest := h.keep.bind fun right => Prog.Uses.pure (Expression.binary op expr right)
    refine Prog.wp_mono (hrest s' hs' (by omega)) ?_ (fun _ _ he => he)
    intro a s'' h''
    exact ⟨h''.1, by omega⟩

theorem parseLevels_advances {unary : ParserM Expression} (h : Advances init last n 1 unary) :
    Advances init last n 1 (parseLevels n unary) := by
  apply leftAssoc_advances hinit hlast
  apply leftAssoc_advances hinit hlast
  apply parseComparison_advances hinit hlast
  apply leftAssoc_advances hinit hlast
  exact leftAssoc_advances hinit hlast h

theorem parsePrimary_advances {expression : ParserM Expression}
    (h : Advances init last n 0 expression) :
    Advances init last (n + 1) 1 (parsePrimary expression) := by
  have hpure : ∀ expr : Expression, Advances init last n 0 (pure expr) := Prog.Uses.pure
  unfold parsePrimary
  apply ite_matchToken hinit hlast
  · apply previous_advances
    intro t
    exact (ofExcept_advances (stoll_defined t.text)).bind fun v => hpure _
  apply ite_matchToken hinit hlast
  · apply previous_advances
    intro t
    exact (ofExcept_advances (stod_defined t.text)).bind fun v => hpure _
  apply ite_matchToken hinit hlast
  · exact previous_advances fun t => hpure _
  apply ite_matchToken hinit hlast
  · exact hpure _
  apply ite_matchToken hinit hlast
  · exact hpure _
  apply ite_matchToken hinit hlast
  · exact hpure _
  apply ite_matchToken hinit hlast
  · exact previous_advances fun t => hpure _
  apply ite_matchToken hinit hlast
  · apply h.bind
    intro expr
    exact (expect_advances hinit hlast (by decide) _).keep.bind fun _ => hpure expr
  · apply peek_advances hinit hlast
    intro t
    exact parseError_advances _

theorem parseUnary_advances (n : Nat) : Advances init last n 1 (parseUnary n) := by
  induction n with
  | zero => exact Prog.Uses.zero
  | succ n ih =>
    apply ite_matchToken hinit hlast
    · exact ih.keep.bind fun inner => Prog.Uses.pure _
    apply ite_matchToken hinit hlast
    · exact ih.keep.bind fun inner => Prog.Uses.pure _
    · exact parsePrimary_advances hinit hlast (parseLevels_advances hinit hlast ih).keep

theorem parseExpression_advances : Advances init last (init.length + 2) 1 parseExpression := by
  apply fuel_advances
  exact parseLevels_advances hinit hlast (parseUnary_advances hinit hlast _)

theorem parsePrimaryHere_advances : Advances init last (init.length + 2) 1 parsePrimaryHere := by
  apply fuel_advances
  have hlevels := parseLevels_advances hinit hlast (parseUnary_advances hinit hlast (init.length + 2))
  exact (parsePrimary_advances hinit hlast hlevels.keep).mono (Nat.le_succ _) (Nat.le_refl 1)

/-! ### Statements -/

theorem whileComma_advances {α : Type} {item : ParserM α} (h : Advances init last n 0 item) :
    Advances init last n 0 (whileComma item n) := by
  induction n with
  | zero => exact Prog.Uses.zero
  | succ n ih =>
    have h := h.mono (Nat.le_succ n) (Nat.le_refl 0)
    apply ite_matchToken hinit hlast
    · apply h.bind
      intro a
      exact (ih h).bind fun rest => Prog.Uses.pure _
    · exact Prog.Uses.pure _

theorem matchToken_advances (type : TokenType) : Advances init last n 0 (matchToken type) := by
  intro s hs _
  refine Prog.wp_mono (matchToken_wp hinit hlast type hs) ?_ (fun _ _ he => he)
  intro b s' h'
  exact ⟨h'.1, Nat.le_trans (Nat.le_add_right _ _) h'.2⟩

theorem check_advances (type : TokenType) : Advances init last n 0 (check type) := by
  intro s hs _
  exact check_wp hinit hlast hs type ⟨hs, Nat.le_refl _⟩ fun _ => ⟨hs, Nat.le_refl _⟩

theorem commaList_advances {α : Type} {item : ParserM α}
    (h : Advances init last (init.length + 2) k item) :
    Advances init last (init.length + 2) k (commaList item) := by
  apply h.bind
  intro a
  apply fuel_advances
  exact (whileComma_advances hinit hlast h.keep).bind fun rest => Prog.Uses.pure _

theorem expectName_advances (errorMsg : String) : Advances init last n 1 (expectName errorMsg) :=
  (expect_advances hinit hlast (by decide) errorMsg).bind fun t => Prog.Uses.pure _

/-- The rule for `if match(type)` when nothing need be consumed. -/
theorem match_or_not {α : Type} {type : TokenType} {p q : ParserM α} (hp : Advances init last n 0 p)
    (hq : Advances init last n 0 q) :
    Advances init last n 0 (matchToken type >>= fun b => if b = true then p else q) :=
  ite_matchToken hinit hlast (hp.mono (Nat.sub_le n 1) (Nat.le_refl 0)) hq

theorem parseWhere_advances : Advances init last (init.length + 2) 0 parseWhere := by
  apply match_or_not hinit hlast
  · exact (parseExpression_advances hinit hlast).keep.map
  · exact Prog.Uses.pure _

theorem parseSelectColumns_advances :
    Advances init last (init.length + 2) 0 parseSelectColumns := by
  apply match_or_not hinit hlast
  · exact Prog.Uses.pure _
  · exact commaList_advances hinit hlast (expectName_advances hinit hlast _).keep

theorem advance_unit_advances : Advances init last n 0 (do let _ ← advance; pure ()) :=
  (advance_advances hinit hlast).bind fun _ => Prog.Uses.pure _

theorem skipOrderBy_advances : Advances init last n 0 skipOrderBy := by
  apply match_or_not hinit hlast
  · apply (expect_advances hinit hlast (by decide) _).keep.bind
    intro _
    apply (advance_advances hinit hlast).bind
    intro _
    apply match_or_not hinit hlast
    · exact Prog.Uses.pure _
    · exact (matchToken_advances hinit hlast _).bind fun _ => Prog.Uses.pure _
  · exact Prog.Uses.pure _

theorem skipLimit_advances : Advances init last n 0 skipLimit := by
  apply match_or_not hinit hlast
  · apply peek_advances hinit hlast
    intro t
    apply Prog.Uses.ite
    · intro _
      exact advance_unit_advances hinit hlast
    · intro _
      exact Prog.Uses.pure _
  · exact Prog.Uses.pure _

theorem parseSelect_advances : Advances init last (init.length + 2) 1 parseSelect := by
  apply (expect_advances hinit hlast (by decide) _).bind
  intro _
  apply (parseSelectColumns_advances hinit hlast).bind
  intro columns
  apply (expect_advances hinit hlast (by decide) _).keep.bind
  intro _
  apply (expectName_advances hinit hlast _).keep.bind
  intro table
  apply (parseWhere_advances hinit hlast).bind
  intro filter
  apply (skipOrderBy_advances hinit hlast).bind
  intro _
  exact (skipLimit_advances hinit hlast).bind fun _ => Prog.Uses.pure _

/-- The token looked at behind a parenthesis is in the list, since a parenthesis is not the end. -/
theorem parseColumnList_advances : Advances init last (init.length + 2) 0 parseColumnList := by
  intro s hs hleft
  obtain ⟨t, hpeek, hend⟩ := peek_run hinit hlast hs
  rw [parseColumnList, Prog.wp_bind]
  apply Prog.wp_of_ok hpeek
  rw [Prog.wp_bind, Prog.wp_get, Prog.wp_ite]
  split
  · next hparen =>
    have hpos : s.pos ≠ init.length := by
      intro hpos
      have := hend.mpr hpos
      rw [hparen] at this
      cases this
    have hlt := Nat.lt_of_le_of_ne hs.2 hpos
    obtain ⟨t', -, hnext⟩ := tokenAt_run hs hlt
    rw [Prog.wp_bind]
    apply Prog.wp_of_ok hnext
    have hlist : Advances init last (init.length + 2) 0 (do
        let _ ← expect .lparen "期望 ("
        let columns ← commaList (expectName "期望列名")
        let _ ← expect .rparen "期望 )"
        pure columns) := by
      apply (expect_advances hinit hlast (by decide) _).keep.bind
      intro _
      apply (commaList_advances hinit hlast (expectName_advances hinit hlast _).keep).bind
      intro columns
      exact (expect_advances hinit hlast (by decide) _).keep.bind fun _ => Prog.Uses.pure _
    exact Prog.Uses.ite (fun _ => hlist) (fun _ => Prog.Uses.pure _) s hs hleft
  · exact Prog.Uses.pure _ s hs hleft

theorem skipValues_advances : Advances init last n 0 skipValues := by
  apply peek_advances hinit hlast
  intro t
  apply Prog.Uses.ite
  · intro _
    exact advance_unit_advances hinit hlast
  · intro _
    exact Prog.Uses.pure _

theorem parseRow_advances (opening closing : String) :
    Advances init last (init.length + 2) 0 (parseRow opening closing) := by
  apply (expect_advances hinit hlast (by decide) _).keep.bind
  intro _
  apply (commaList_advances hinit hlast (parsePrimaryHere_advances hinit hlast).keep).bind
  intro row
  exact (expect_advances hinit hlast (by decide) _).keep.bind fun _ => Prog.Uses.pure _

theorem parseInsert_advances : Advances init last (init.length + 2) 1 parseInsert := by
  refine Prog.Uses.bind ?_ fun parts => Prog.Uses.pure _
  apply (expect_advances hinit hlast (by decide) _).bind
  intro _
  apply (expect_advances hinit hlast (by decide) _).keep.bind
  intro _
  apply (expectName_advances hinit hlast _).keep.bind
  intro table
  apply (parseColumnList_advances hinit hlast).bind
  intro columns
  apply (skipValues_advances hinit hlast).bind
  intro _
  apply (parseRow_advances hinit hlast _ _).bind
  intro row
  apply fuel_advances
  apply (whileComma_advances hinit hlast (parseRow_advances hinit hlast _ _)).bind
  exact fun rows => Prog.Uses.pure _

theorem parseAssignment_advances : Advances init last (init.length + 2) 0 parseAssignment := by
  apply (expectName_advances hinit hlast _).keep.bind
  intro column
  apply (expect_advances hinit hlast (by decide) _).keep.bind
  intro _
  exact (parseExpression_advances hinit hlast).keep.bind fun expr => Prog.Uses.pure _

theorem parseUpdate_advances : Advances init last (init.length + 2) 1 parseUpdate := by
  apply (expect_advances hinit hlast (by decide) _).bind
  intro _
  apply (expectName_advances hinit hlast _).keep.bind
  intro table
  apply (expect_advances hinit hlast (by decide) _).keep.bind
  intro _
  apply (commaList_advances hinit hlast (parseAssignment_advances hinit hlast)).bind
  intro assignments
  exact (parseWhere_advances hinit hlast).bind fun filter => Prog.Uses.pure _

theorem parseDelete_advances : Advances init last (init.length + 2) 1 parseDelete := by
  apply (expect_advances hinit hlast (by decide) _).bind
  intro _
  apply (expect_advances hinit hlast (by decide) _).keep.bind
  intro _
  apply (expectName_advances hinit hlast _).keep.bind
  intro table
  exact (parseWhere_advances hinit hlast).bind fun filter => Prog.Uses.pure _

/-- KEY behind PRIMARY. -/
theorem expectKey_advances (errorMsg : String) (col : ColumnDef) :
    Advances init last n 0 (do let _ ← expect .key errorMsg; pure col) :=
  (expect_advances hinit hlast (by decide) _).keep.bind fun _ => Prog.Uses.pure _

theorem parseModifier_advances (mod : Str) (col : ColumnDef) :
    Advances init last n 0 (parseModifier mod col) := by
  apply Prog.Uses.ite
  · intro _
    exact (expect_advances hinit hlast (by decide) _).keep.bind fun _ => Prog.Uses.pure _
  · intro _
    apply Prog.Uses.ite
    · intro _
      exact expectKey_advances hinit hlast _ _
    · intro _
      exact Prog.Uses.pure _

theorem parseSecondModifier_advances (col : ColumnDef) :
    Advances init last n 0 (parseSecondModifier col) := by
  apply peek_advances hinit hlast
  intro t
  apply Prog.Uses.ite
  · intro _
    apply (advance_advances hinit hlast).bind
    intro mod2
    apply Prog.Uses.ite
    · intro _
      exact expectKey_advances hinit hlast _ _
    · intro _
      exact Prog.Uses.pure _
  · intro _
    exact Prog.Uses.pure _

theorem parseModifiers_advances (col : ColumnDef) :
    Advances init last n 0 (parseModifiers col) := by
  apply peek_advances hinit hlast
  intro t
  apply Prog.Uses.ite
  · intro _
    apply (advance_advances hinit hlast).bind
    intro mod
    apply (parseModifier_advances hinit hlast _ _).bind
    exact fun col => parseSecondModifier_advances hinit hlast col
  · intro _
    exact Prog.Uses.pure _

theorem parseColumnDef_advances : Advances init last n 0 parseColumnDef := by
  apply (expectName_advances hinit hlast _).keep.bind
  intro name
  refine Prog.Uses.bind ((expectName_advances hinit hlast _).keep.bind fun _ => Prog.Uses.pure _) ?_
  intro type
  apply (parseModifiers_advances hinit hlast _).bind
  intro col
  apply match_or_not hinit hlast
  · exact expectKey_advances hinit hlast _ _
  · exact Prog.Uses.pure _

theorem parseColumnOrKey_advances : Advances init last n 0 parseColumnOrKey := by
  apply peek_advances hinit hlast
  intro t
  apply Prog.Uses.ite
  · intro _
    apply (advance_advances hinit hlast).bind
    intro _
    apply (advance_advances hinit hlast).bind
    intro _
    apply (expect_advances hinit hlast (by decide) _).keep.bind
    intro _
    apply (advance_advances hinit hlast).bind
    intro _
    exact (expect_advances hinit hlast (by decide) _).keep.bind fun _ => Prog.Uses.pure _
  · intro _
    exact (parseColumnDef_advances hinit hlast).map

theorem parseCreateTable_advances : Advances init last (init.length + 2) 0 parseCreateTable := by
  apply (expectName_advances hinit hlast _).keep.bind
  intro name
  apply (expect_advances hinit hlast (by decide) _).keep.bind
  intro _
  apply (parseColumnDef_advances hinit hlast).bind
  intro col
  apply fuel_advances
  apply (whileComma_advances hinit hlast (parseColumnOrKey_advances hinit hlast)).bind
  intro cols
  exact (expect_advances hinit hlast (by decide) _).keep.bind fun _ => Prog.Uses.pure _

theorem parseCreateIndex_advances : Advances init last n 0 parseCreateIndex := by
  apply (expectName_advances hinit hlast _).keep.bind
  intro indexName
  apply (expect_advances hinit hlast (by decide) _).keep.bind
  intro _
  apply (expectName_advances hinit hlast _).keep.bind
  intro table
  apply (expect_advances hinit hlast (by decide) _).keep.bind
  intro _
  apply (expectName_advances hinit hlast _).keep.bind
  intro column
  exact (expect_advances hinit hlast (by decide) _).keep.bind fun _ => Prog.Uses.pure _

theorem parseCreateUser_advances : Advances init last n 0 parseCreateUser := by
  apply (expectName_advances hinit hlast _).keep.bind
  intro name
  apply match_or_not hinit hlast
  · apply peek_advances hinit hlast
    intro t
    apply Prog.Uses.ite
    · intro _
      apply (advance_advances hinit hlast).bind
      intro _
      exact (expect_advances hinit hlast (by decide) _).keep.bind fun _ => Prog.Uses.pure _
    · intro _
      exact parseError_advances _
  · exact parseError_advances _

/-- A statement that is its name. -/
theorem map_expectName_advances {α : Type} (f : Str → α) (errorMsg : String) :
    Advances init last n 0 (f <$> expectName errorMsg) :=
  (expectName_advances hinit hlast errorMsg).keep.map

theorem parseCreate_advances : Advances init last (init.length + 2) 1 parseCreate := by
  apply (expect_advances hinit hlast (by decide) _).bind
  intro _
  apply match_or_not hinit hlast
  · exact parseCreateIndex_advances hinit hlast
  apply match_or_not hinit hlast
  · exact map_expectName_advances hinit hlast _ _
  apply match_or_not hinit hlast
  · exact map_expectName_advances hinit hlast _ _
  apply match_or_not hinit hlast
  · exact parseCreateUser_advances hinit hlast
  apply (expect_advances hinit hlast (by decide) _).keep.bind
  intro _
  exact parseCreateTable_advances hinit hlast

theorem parseDropTable_advances : Advances init last n 1 parseDropTable := by
  apply (expect_advances hinit hlast (by decide) _).bind
  intro _
  apply match_or_not hinit hlast
  · exact map_expectName_advances hinit hlast _ _
  apply match_or_not hinit hlast
  · exact map_expectName_advances hinit hlast _ _
  apply (expect_advances hinit hlast (by decide) _).keep.bind
  intro _
  exact map_expectName_advances hinit hlast _ _

theorem skipTransactionWord_advances : Advances init last n 0 skipTransactionWord := by
  apply match_or_not hinit hlast
  · exact Prog.Uses.pure _
  apply (check_advances hinit hlast _).bind
  intro b
  apply Prog.Uses.ite
  · intro _
    apply peek_advances hinit hlast
    intro t
    apply Prog.Uses.ite
    · intro _
      exact advance_unit_advances hinit hlast
    · intro _
      exact Prog.Uses.pure _
  · intro _
    exact Prog.Uses.pure _

theorem parseTransaction_advances {type : TokenType} (htype : type ≠ .end) (errorMsg : String)
    (stmt : SqlStatement) : Advances init last n 1 (parseTransaction type errorMsg stmt) := by
  apply (expect_advances hinit hlast htype _).bind
  intro _
  exact (skipTransactionWord_advances hinit hlast).bind fun _ => Prog.Uses.pure _

theorem parseUse_advances : Advances init last n 1 parseUse := by
  apply (expect_advances hinit hlast (by decide) _).bind
  intro _
  exact map_expectName_advances hinit hlast _ _

theorem parseShow_advances : Advances init last n 1 parseShow := by
  apply (expect_advances hinit hlast (by decide) _).bind
  intro _
  apply match_or_not hinit hlast
  · exact Prog.Uses.pure _
  apply match_or_not hinit hlast
  · exact Prog.Uses.pure _
  apply match_or_not hinit hlast
  · exact Prog.Uses.pure _
  apply peek_advances hinit hlast
  intro t
  exact parseError_advances _

theorem parseStatement_advances : Advances init last (init.length + 2) 1 parseStatement := by
  apply peek_advances hinit hlast
  intro t
  split
  · exact parseSelect_advances hinit hlast
  · exact parseInsert_advances hinit hlast
  · exact parseUpdate_advances hinit hlast
  · exact parseDelete_advances hinit hlast
  · exact parseCreate_advances hinit hlast
  · exact parseDropTable_advances hinit hlast
  · exact parseTransaction_advances hinit hlast (by decide) _ _
  · exact parseTransaction_advances hinit hlast (by decide) _ _
  · exact parseTransaction_advances hinit hlast (by decide) _ _
  · exact parseUse_advances hinit hlast
  · exact parseShow_advances hinit hlast
  · exact parseError_advances _

/-- Every round of the loop over statements consumes a token, and it stops at the end token. -/
theorem parseStatements_wp (n : Nat) : ∀ s, Inside init last s → left init s < n →
    (parseStatements n).wp (fun _ s' => s' = ⟨init ++ [last], init.length⟩)
      (fun e _ => Raised e) s := by
  induction n with
  | zero =>
    intro s _ hleft
    exact absurd hleft (Nat.not_lt_zero _)
  | succ n ih =>
    intro s hs hleft
    rw [parseStatements, Prog.wp_bind]
    apply Prog.wp_of_ok (isAtEnd_run hinit hlast hs)
    by_cases hpos : s.pos = init.length
    · simp only [hpos, decide_true, if_true]
      obtain ⟨tokens, pos⟩ := s
      exact congrArg₂ Parser.mk hs.1 hpos
    simp only [hpos, decide_false, Bool.false_eq_true, if_false]
    have hlt := Nat.lt_of_le_of_ne hs.2 hpos
    obtain ⟨t, hpeek, -⟩ := peek_run hinit hlast hs
    rw [Prog.wp_bind]
    apply Prog.wp_of_ok hpeek
    rw [Prog.wp_ite]
    split
    · rw [Prog.wp_bind]
      refine Prog.wp_mono (advance_lt hinit hlast hs hlt) ?_ (fun _ _ he => he)
      intro _ s' h'
      have hused := h'.2
      exact ih s' h'.1 (by omega)
    · have hstmt : Advances init last (init.length + 2) 1 (do
          let stmt ← parseStatement
          let _ ← matchToken .semicolon
          pure stmt) := by
        apply (parseStatement_advances hinit hlast).bind
        intro stmt
        exact (matchToken_advances hinit hlast _).bind fun _ => Prog.Uses.pure _
      have hwp := hstmt s hs (by unfold left; omega)
      rw [Prog.wp_bind] at hwp ⊢
      refine Prog.wp_mono hwp ?_ (fun _ _ he => he)
      intro stmt s₁ h₁
      rw [Prog.wp_bind] at h₁ ⊢
      refine Prog.wp_mono h₁ ?_ (fun _ _ he => he)
      intro _ s' h'
      rw [Prog.wp_pure] at h'
      have hused := h'.2
      rw [Prog.wp_bind]
      exact Prog.wp_mono (ih s' h'.1 (by omega)) (fun _ _ h => h) (fun _ _ he => he)

end

/-- The only end token is the last token. -/
def EndsOnce (tokens : List Token) : Prop :=
  ∃ init last, tokens = init ++ [last] ∧ (∀ t ∈ init, t.type ≠ .end) ∧ last.type = .end

/-- Parsing such a list reads no token outside it, ends, and either throws or has consumed every
token before the end token. -/
theorem parseAll_total (tokens : List Token) (h : EndsOnce tokens) :
    (∃ stmts, parseAll.run ⟨tokens, 0⟩ = (.ok stmts, ⟨tokens, tokens.length - 1⟩)) ∨
      ∃ f s, parseAll.run ⟨tokens, 0⟩ = (.error (.failed f), s) ∧ f ≠ .undefined := by
  obtain ⟨init, last, rfl, hinit, hlast⟩ := h
  have hstart : Inside init last ⟨init ++ [last], 0⟩ := ⟨rfl, Nat.zero_le _⟩
  have hlen : (init ++ [last]).length = init.length + 1 := by
    rw [List.length_append, List.length_singleton]
  have hwp := parseStatements_wp hinit hlast (init.length + 2) _ hstart
    (by unfold left; omega)
  have hrun : parseAll.run ⟨init ++ [last], 0⟩ =
      (parseStatements (init.length + 2)).run ⟨init ++ [last], 0⟩ := by
    change (parseStatements ((init ++ [last]).length + 1)).run _ = _
    rw [hlen]
  rw [hrun]
  unfold Prog.wp at hwp
  split at hwp
  · next stmts s' hstmts =>
    subst hwp
    rw [hstmts, hlen]
    exact .inl ⟨stmts, rfl⟩
  · next e s' herror =>
    rw [herror]
    cases e with
    | failed f => exact .inr ⟨f, s', rfl, hwp⟩
    | outOfFuel => exact hwp.elim

/-- SELECT * FROM: the name is missing. -/
theorem parseAll_total_select :
    let tokens : List Token := [⟨.select, str "SELECT", 1, 1⟩, ⟨.star, str "*", 1, 8⟩,
      ⟨.from, str "FROM", 1, 10⟩, ⟨.end, [], 1, 14⟩]
    (∃ stmts, parseAll.run ⟨tokens, 0⟩ = (.ok stmts, ⟨tokens, 3⟩)) ∨
      ∃ f s, parseAll.run ⟨tokens, 0⟩ = (.error (.failed f), s) ∧ f ≠ .undefined :=
  parseAll_total _ ⟨[⟨.select, str "SELECT", 1, 1⟩, ⟨.star, str "*", 1, 8⟩,
    ⟨.from, str "FROM", 1, 10⟩], ⟨.end, [], 1, 14⟩, rfl, by decide, rfl⟩

end Parser
end JiaMiaoDB
