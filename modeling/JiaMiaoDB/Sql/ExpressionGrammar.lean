import JiaMiaoDB.Lib.Decimal
import JiaMiaoDB.Sql.ParserRuns
import Mathlib.Data.List.Forall2

/-!
# The expression grammar

Levels, from the loosest: 0 OR, 1 AND, 2 comparison, 3 addition, 4 multiplication, 5 unary.
`render` writes an expression with the parentheses that the levels ask for, and the parser reads
it back.
-/

set_option autoImplicit false

namespace JiaMiaoDB

/-- A token up to what the parser does not look at: its place, and the text of a symbol. -/
inductive Lexeme where
  | symbol (type : TokenType)
  | word (type : TokenType) (text : Str)

namespace Lexeme

def type : Lexeme → TokenType
  | symbol type | word type _ => type

def Is : Lexeme → Token → Prop
  | symbol type, t => t.type = type
  | word type text, t => t.type = type ∧ t.text = text

theorem Is.type_eq {x : Lexeme} {t : Token} (h : x.Is t) : t.type = x.type := by
  cases x with
  | symbol => exact h
  | word => exact h.1

end Lexeme

/-- The tokens are the lexemes, one for one. -/
def Spelled : List Lexeme → List Token → Prop := List.Forall₂ Lexeme.Is

namespace Spelled

theorem length_eq {ls : List Lexeme} {ts : List Token} (h : Spelled ls ts) :
    ls.length = ts.length :=
  List.Forall₂.length_eq h

theorem cons_inv {x : Lexeme} {ls : List Lexeme} {ts : List Token} (h : Spelled (x :: ls) ts) :
    ∃ t ts', ts = t :: ts' ∧ x.Is t ∧ Spelled ls ts' := by
  cases h with
  | cons hx hls => exact ⟨_, _, rfl, hx, hls⟩

theorem append_inv {ls ls' : List Lexeme} {ts : List Token} (h : Spelled (ls ++ ls') ts) :
    ∃ us us', ts = us ++ us' ∧ Spelled ls us ∧ Spelled ls' us' := by
  induction ls generalizing ts with
  | nil => exact ⟨[], ts, rfl, .nil, h⟩
  | cons x ls ih =>
    obtain ⟨t, ts', rfl, hx, hrest⟩ := cons_inv h
    obtain ⟨us, us', rfl, hus, hus'⟩ := ih hrest
    exact ⟨t :: us, us', rfl, .cons hx hus, hus'⟩

end Spelled

def BinaryOp.level : BinaryOp → Nat
  | or => 0
  | and => 1
  | eq | ne | lt | gt | le | ge => 2
  | add | sub => 3
  | mul | div => 4

def BinaryOp.token : BinaryOp → TokenType
  | or => .or
  | and => .and
  | eq => .eq
  | ne => .neq
  | lt => .lt
  | gt => .gt
  | le => .le
  | ge => .ge
  | add => .plus
  | sub => .minus
  | mul => .star
  | div => .div

/-- Operators other than the comparisons take an operand of their own level on the left. -/
def BinaryOp.leftLevel (op : BinaryOp) : Nat := if op.level = 2 then 3 else op.level

def renderLiteral : Value → Lexeme
  | .null => .symbol .nullToken
  | .int i => .word .integerLit (Binary64.decimal i.toInt.toNat)
  | .double d => .word .floatLit d.toDecimal
  | .string s => .word .stringLit s
  | .bool b => .symbol (if b then .trueToken else .falseToken)

/-- The expression where the grammar asks for level `l`. -/
def render (l : Nat) : Expression → List Lexeme
  | .literal v => [renderLiteral v]
  | .columnRef name => [.word .identifier name]
  | .not e => .symbol .not :: render 5 e
  | .binary op left right =>
    let body := render op.leftLevel left ++ .symbol op.token :: render (op.level + 1) right
    if l ≤ op.level then body else .symbol .lparen :: body ++ [.symbol .rparen]

/-- The expressions whose literals are no floating-point numbers and have no sign. -/
def Expression.Plain : Expression → Prop
  | .literal (.int i) => 0 ≤ i
  | .literal (.double _) => False
  | .literal _ => True
  | .columnRef _ => True
  | .not e => e.Plain
  | .binary _ left right => left.Plain ∧ right.Plain

theorem render_ne_nil (l : Nat) (e : Expression) : 0 < (render l e).length := by
  cases e with
  | literal => exact Nat.one_pos
  | columnRef => exact Nat.one_pos
  | not => exact Nat.succ_pos _
  | binary =>
    unfold render
    dsimp only
    split
    · rw [List.length_append, List.length_cons]
      omega
    · exact Nat.succ_pos _

namespace Parser

def opsAt : Nat → List (TokenType × BinaryOp)
  | 0 => orOps
  | 1 => andOps
  | 2 => comparisonOps
  | 3 => additionOps
  | 4 => multiplicationOps
  | _ => []

/-- The parser of a level. -/
def parseAt (n : Nat) : Nat → ParserM Expression
  | 0 => parseLevels n (parseUnary n)
  | 1 => parseAnd n (parseComparison (parseAddition n (parseMultiplication n (parseUnary n))))
  | 2 => parseComparison (parseAddition n (parseMultiplication n (parseUnary n)))
  | 3 => parseAddition n (parseMultiplication n (parseUnary n))
  | 4 => parseMultiplication n (parseUnary n)
  | _ => parseUnary n

/-- No operator of level `l` or of a tighter one. -/
def StopsAt (l : Nat) (type : TokenType) : Prop := ∀ k, l ≤ k → (opsAt k).lookup type = none

theorem StopsAt.mono {l l' : Nat} {type : TokenType} (h : StopsAt l type) (hl : l ≤ l') :
    StopsAt l' type := fun k hk => h k (Nat.le_trans hl hk)

theorem opsAt_ne_end (l : Nat) : ∀ p ∈ opsAt l, p.1 ≠ .end := by
  match l with
  | 0 | 1 | 2 | 3 | 4 => decide
  | l + 5 =>
    intro p hp
    cases hp

theorem lookup_token (op : BinaryOp) : (opsAt op.level).lookup op.token = some op := by
  cases op <;> rfl

/-- An operator ends an operand of a tighter level. -/
theorem stopsAt_token (op : BinaryOp) : StopsAt (op.level + 1) op.token := by
  intro k hk
  match k with
  | 0 => exact absurd hk (Nat.not_succ_le_zero _)
  | 1 | 2 | 3 | 4 => cases op <;> first | rfl | exact absurd hk (by decide)
  | k + 5 => rfl

/-- On the lexemes, followed by a token that ends level `l`, `p` gives `e` and stops there. -/
def Reads (l : Nat) (p : ParserM Expression) (ls : List Lexeme) (e : Expression) : Prop :=
  ∀ s toks t rest, Spelled ls toks → s.Ahead (toks ++ t :: rest) → StopsAt l t.type →
    p.run s = (.ok e, s.forward ls.length)

/-- On the lexemes the loop of level `k` comes to hold `e`, after less rounds than lexemes. -/
def Continues (k n : Nat) (ls : List Lexeme) (e : Expression) : Prop :=
  ∃ j < ls.length, ∀ s toks t rest, Spelled ls toks → s.Ahead (toks ++ t :: rest) →
    StopsAt (k + 1) t.type → (parseAt n k).run s =
      (chain (opsAt k) (parseAt n (k + 1)) (n - j) e).run (s.forward ls.length)

section
variable {k l n : Nat} {ls ls' : List Lexeme} {e e' : Expression} {s : Parser} {t : Token}
  {rest : List Token}

theorem chain_stop {operand : ParserM Expression} (hn : 0 < n) (h : s.Ahead (t :: rest))
    (ht : (opsAt k).lookup t.type = none) :
    (chain (opsAt k) operand n e).run s = (.ok e, s) := by
  obtain ⟨n, rfl⟩ := Nat.exists_eq_succ_of_ne_zero (Nat.pos_iff_ne_zero.mp hn)
  have hmatch := matchOneOf_eq h (opsAt_ne_end k)
  rw [ht] at hmatch
  rw [chain, Prog.bind_ok hmatch]
  rfl

theorem chain_next {operand : ParserM Expression} (hn : 0 < n) (h : s.Ahead (t :: rest))
    {op : BinaryOp} (ht : (opsAt k).lookup t.type = some op) {s' : Parser}
    (hoperand : operand.run (s.forward 1) = (.ok e', s')) :
    (chain (opsAt k) operand n e).run s =
      (chain (opsAt k) operand (n - 1) (.binary op e e')).run s' := by
  obtain ⟨n, rfl⟩ := Nat.exists_eq_succ_of_ne_zero (Nat.pos_iff_ne_zero.mp hn)
  have hmatch := matchOneOf_eq h (opsAt_ne_end k)
  rw [ht] at hmatch
  rw [chain, Prog.bind_ok hmatch]
  exact Prog.bind_ok hoperand

/-- The levels with a loop: all but the comparison. -/
theorem parseAt_loop (hk : k ≤ 4) (hk' : k ≠ 2) :
    parseAt n k = leftAssoc (opsAt k) n (parseAt n (k + 1)) := by
  match k with
  | 0 | 1 | 3 | 4 => rfl
  | 2 => exact absurd rfl hk'
  | k + 5 => omega

theorem continues_of_reads (hk : k ≤ 4) (hk' : k ≠ 2) (hls : 0 < ls.length)
    (h : Reads (k + 1) (parseAt n (k + 1)) ls e) : Continues k n ls e := by
  refine ⟨0, hls, ?_⟩
  intro s toks t rest hspelled hs ht
  rw [parseAt_loop hk hk', leftAssoc, Prog.bind_ok (h s toks t rest hspelled hs ht)]
  rfl

theorem reads_of_continues (hlen : ls.length ≤ n) (h : Continues k n ls e) :
    Reads k (parseAt n k) ls e := by
  obtain ⟨j, hj, hrun⟩ := h
  intro s toks t rest hspelled hs ht
  rw [hrun s toks t rest hspelled hs (ht.mono (Nat.le_succ k)), hspelled.length_eq]
  exact chain_stop (by omega) hs.forward (ht k (Nat.le_refl k))

/-- What a level reads the looser levels read too. -/
theorem reads_down (hl : l ≤ k) (hk : k ≤ 5) (hlen : ls.length ≤ n) (hls : 0 < ls.length)
    (h : Reads k (parseAt n k) ls e) : Reads l (parseAt n l) ls e := by
  induction k with
  | zero =>
    obtain rfl := Nat.le_zero.mp hl
    exact h
  | succ k ih =>
    rcases Nat.lt_or_eq_of_le hl with hlt | rfl
    · apply ih (Nat.le_of_lt_succ hlt) (Nat.le_of_succ_le hk)
      by_cases hk' : k = 2
      · subst hk'
        intro s toks t rest hspelled hs ht
        have hfirst := h s toks t rest hspelled hs (ht.mono (Nat.le_succ 2))
        rw [hspelled.length_eq] at hfirst ⊢
        have hmatch := matchOneOf_eq hs.forward (opsAt_ne_end 2)
        rw [ht 2 (Nat.le_refl 2)] at hmatch
        change (matchOneOf comparisonOps).run _ = _ at hmatch
        change (parseComparison (parseAt n 3)).run s = _
        rw [parseComparison, Prog.bind_ok hfirst, Prog.bind_ok hmatch]
        rfl
      · exact reads_of_continues hlen
          (continues_of_reads (Nat.le_of_succ_le_succ hk) hk' hls h)
    · exact h

/-- One more operator and operand of a loop. -/
theorem continues_binary {op : BinaryOp} (hk' : op.level ≠ 2)
    (h : Continues op.level n ls e)
    (h' : Reads (op.level + 1) (parseAt n (op.level + 1)) ls' e')
    (hlen : (ls ++ .symbol op.token :: ls').length ≤ n) :
    Continues op.level n (ls ++ .symbol op.token :: ls') (.binary op e e') := by
  obtain ⟨j, hj, hrun⟩ := h
  rw [List.length_append, List.length_cons] at hlen
  refine ⟨j + 1, by rw [List.length_append, List.length_cons]; omega, ?_⟩
  intro s toks t rest hspelled hs ht
  obtain ⟨us, ts, rfl, hus, hts⟩ := hspelled.append_inv
  obtain ⟨u, us', rfl, hu, hus'⟩ := hts.cons_inv
  have hu : u.type = op.token := hu
  rw [List.append_assoc, List.cons_append] at hs
  have hstop : StopsAt (op.level + 1) u.type := hu ▸ stopsAt_token op
  have hlookup : (opsAt op.level).lookup u.type = some op := hu ▸ lookup_token op
  have hs' := hs.forward
  rw [← hus.length_eq] at hs'
  have hoperand := h' _ us' t rest hus' hs'.next ht
  rw [hrun s us u (us' ++ t :: rest) hus hs hstop,
    chain_next (by omega) hs' hlookup hoperand, Nat.sub_sub]
  simp only [forward_forward, List.length_append, List.length_cons]
  congr 2
  omega

theorem reads_comparison {op : BinaryOp} (hk : op.level = 2)
    (h : Reads 3 (parseAt n 3) ls e) (h' : Reads 3 (parseAt n 3) ls' e') :
    Reads 2 (parseAt n 2) (ls ++ .symbol op.token :: ls') (.binary op e e') := by
  intro s toks t rest hspelled hs ht
  obtain ⟨us, ts, rfl, hus, hts⟩ := hspelled.append_inv
  obtain ⟨u, us', rfl, hu, hus'⟩ := hts.cons_inv
  have hu : u.type = op.token := hu
  rw [List.append_assoc, List.cons_append] at hs
  have hstop := stopsAt_token op
  have hlookup := lookup_token op
  rw [hk, ← hu] at hstop hlookup
  have hs' := hs.forward
  rw [← hus.length_eq] at hs'
  have hmatch := matchOneOf_eq hs' (opsAt_ne_end 2)
  rw [hlookup] at hmatch
  change (matchOneOf comparisonOps).run _ = _ at hmatch
  have hoperand := h' _ us' t rest hus' hs'.next (ht.mono (Nat.le_succ 2))
  change (parseComparison (parseAt n 3)).run s = _
  rw [parseComparison, Prog.bind_ok (h s us u _ hus hs hstop), Prog.bind_ok hmatch]
  dsimp only
  rw [Prog.bind_ok hoperand, Prog.run_pure]
  simp only [forward_forward, List.length_append, List.length_cons]
  congr 2
  omega

/-! ### Atoms -/

theorem parsePrimary_literal {expression : ParserM Expression} {v : Value}
    (hv : (Expression.literal v).Plain) (hs : s.Ahead (t :: rest)) (ht : (renderLiteral v).Is t) :
    (parsePrimary expression).run s = (.ok (.literal v), s.forward 1) := by
  have hprevious := previous_eq hs
  cases v with
  | null =>
    have ht : t.type = .nullToken := ht
    simp [parsePrimary, Prog.run_bind, matchToken_eq hs, ht]
  | int i =>
    obtain ⟨ht, htext⟩ := ht
    have hi : (i.toInt.toNat : Int) = i.toInt := Int.toNat_of_nonneg (Int64.le_iff_toInt_le.mp hv)
    have hstoll : Json.stoll t.text = .ok i := by
      have hlt := i.toInt_lt
      rw [htext, Json.stoll, Binary64.strtoll_decimal (by omega), hi, Int64.ofInt_toInt]
    simp [-bind_pure_comp, parsePrimary, Prog.run_bind, matchToken_eq hs, ht, hprevious, hstoll,
      ofExcept_ok]
  | double d => exact hv.elim
  | string text =>
    obtain ⟨ht, htext⟩ := ht
    simp [-bind_pure_comp, parsePrimary, Prog.run_bind, matchToken_eq hs, ht, hprevious, htext]
  | bool b =>
    have ht : t.type = if b then .trueToken else .falseToken := ht
    cases b <;> simp [parsePrimary, Prog.run_bind, matchToken_eq hs, ht]

theorem parsePrimary_columnRef {expression : ParserM Expression} {name : Str}
    (hs : s.Ahead (t :: rest)) (ht : (Lexeme.word .identifier name).Is t) :
    (parsePrimary expression).run s = (.ok (.columnRef name), s.forward 1) := by
  have hprevious := previous_eq hs
  obtain ⟨ht, htext⟩ := ht
  simp [-bind_pure_comp, parsePrimary, Prog.run_bind, matchToken_eq hs, ht, hprevious, htext]

theorem parsePrimary_paren {expression : ParserM Expression} {s' : Parser} {t' : Token}
    {rest' : List Token} (hs : s.Ahead (t :: rest)) (ht : t.type = .lparen)
    (hexpr : expression.run (s.forward 1) = (.ok e, s')) (hs' : s'.Ahead (t' :: rest'))
    (ht' : t'.type = .rparen) :
    (parsePrimary expression).run s = (.ok e, s'.forward 1) := by
  have hclose : (expect .rparen "期望 )").run s' = (.ok t', s'.forward 1) := by
    rw [← ht']
    exact expect_hit hs' (by rw [ht']; decide) _
  simp [-bind_pure_comp, parsePrimary, Prog.run_bind, matchToken_eq hs, ht, hexpr, hclose]

/-- A unary parse that starts with neither NOT nor a minus. -/
theorem parseUnary_primary (hs : s.Ahead (t :: rest)) (hnot : t.type ≠ .not)
    (hminus : t.type ≠ .minus) :
    (parseUnary (n + 1)).run s = (parsePrimary (parseAt n 0)).run s := by
  rw [parseUnary, Prog.bind_ok (matchToken_miss hs hnot (by decide)), if_neg (by decide),
    Prog.bind_ok (matchToken_miss hs hminus (by decide)), if_neg (by decide)]
  rfl

theorem reads_atom {x : Lexeme} (hnot : x.type ≠ .not) (hminus : x.type ≠ .minus) (hn : 0 < n)
    (h : ∀ expression s t rest, s.Ahead (t :: rest) → x.Is t →
      (parsePrimary expression).run s = (.ok e, s.forward 1)) :
    Reads 5 (parseUnary n) [x] e := by
  intro s toks t rest hspelled hs _
  obtain ⟨u, us, rfl, hu, hus⟩ := hspelled.cons_inv
  obtain ⟨n, rfl⟩ := Nat.exists_eq_succ_of_ne_zero (Nat.pos_iff_ne_zero.mp hn)
  cases hus
  rw [parseUnary_primary hs (hu.type_eq ▸ hnot) (hu.type_eq ▸ hminus)]
  exact h _ s u _ hs hu

theorem reads_paren (h : Reads 0 (parseAt n 0) ls e) :
    Reads 5 (parseUnary (n + 1)) (.symbol .lparen :: ls ++ [.symbol .rparen]) e := by
  intro s toks t rest hspelled hs _
  rw [List.cons_append] at hspelled
  obtain ⟨u, us, rfl, hu, hus⟩ := hspelled.cons_inv
  obtain ⟨vs, ws, rfl, hvs, hws⟩ := hus.append_inv
  obtain ⟨w, ws, rfl, hw, hws⟩ := hws.cons_inv
  cases hws
  have hu : u.type = .lparen := hu
  have hw : w.type = .rparen := hw
  have hs : s.Ahead (u :: (vs ++ w :: t :: rest)) := by
    simpa only [List.cons_append, List.append_assoc, List.nil_append] using hs
  have hstop : StopsAt 0 w.type := by
    rw [hw]
    intro k _
    match k with
    | 0 | 1 | 2 | 3 | 4 => rfl
    | k + 5 => rfl
  have hexpr := h _ vs w _ hvs hs.next hstop
  have hafter := hs.next.forward
  rw [← hvs.length_eq] at hafter
  rw [parseUnary_primary hs (by rw [hu]; decide) (by rw [hu]; decide),
    parsePrimary_paren hs hu hexpr hafter hw]
  simp only [forward_forward, List.length_append, List.length_cons, List.length_nil]
  congr 2
  omega

theorem reads_not (h : Reads 5 (parseUnary n) ls e) :
    Reads 5 (parseUnary (n + 1)) (.symbol .not :: ls) (.not e) := by
  intro s toks t rest hspelled hs ht
  obtain ⟨u, us, rfl, hu, hus⟩ := hspelled.cons_inv
  have hu : u.type = .not := hu
  have hmatch := matchToken_hit hs (by rw [hu]; decide)
  rw [hu] at hmatch
  rw [parseUnary, Prog.bind_ok hmatch, if_pos rfl, Prog.bind_ok (h _ us t rest hus hs.next ht),
    Prog.run_pure, forward_forward, List.length_cons, Nat.add_comm]

theorem reads_minus (h : Reads 5 (parseUnary n) ls e) :
    Reads 5 (parseUnary (n + 1)) (.symbol .minus :: ls) (.binary .sub (.literal (.int 0)) e) := by
  intro s toks t rest hspelled hs ht
  obtain ⟨u, us, rfl, hu, hus⟩ := hspelled.cons_inv
  have hu : u.type = .minus := hu
  have hmatch := matchToken_hit hs (by rw [hu]; decide)
  rw [hu] at hmatch
  rw [parseUnary, Prog.bind_ok (matchToken_miss hs (by rw [hu]; decide) (by decide)),
    if_neg (by decide), Prog.bind_ok hmatch, if_pos rfl,
    Prog.bind_ok (h _ us t rest hus hs.next ht), Prog.run_pure, forward_forward,
    List.length_cons, Nat.add_comm]

/-! ### Round trip -/

/-- The parsers of all levels read the rendering at that level. -/
def ReadBack (n : Nat) (e : Expression) : Prop :=
  ∀ l ≤ 5, (render l e).length ≤ n → Reads l (parseAt n l) (render l e) e

/-- Every loop comes to hold the expression that stands first in it. -/
def LoopBack (n : Nat) (e : Expression) : Prop :=
  ∀ k ≤ 4, k ≠ 2 → (render k e).length ≤ n → Continues k n (render k e) e

/-- An expression that is written alike at every level. -/
theorem readBack_unary (hrender : ∀ l, render l e = ls) (h : ls.length ≤ n → Reads 5 (parseUnary n) ls e) :
    ReadBack n e ∧ LoopBack n e := by
  have hpos : 0 < ls.length := hrender 0 ▸ render_ne_nil 0 e
  have hread : ∀ l ≤ 5, ls.length ≤ n → Reads l (parseAt n l) ls e := by
    intro l hl hlen
    exact reads_down hl (Nat.le_refl 5) hlen hpos (h hlen)
  constructor
  · intro l hl hlen
    rw [hrender] at hlen ⊢
    exact hread l hl hlen
  · intro k hk hk' hlen
    rw [hrender] at hlen ⊢
    exact continues_of_reads hk hk' hpos (hread (k + 1) (Nat.succ_le_succ hk) hlen)

/-- The operator with its operands, without parentheses around them. -/
def body (op : BinaryOp) (left right : Expression) : List Lexeme :=
  render op.leftLevel left ++ .symbol op.token :: render (op.level + 1) right

theorem level_le (op : BinaryOp) : op.level ≤ 4 := by cases op <;> decide

theorem body_length (op : BinaryOp) (left right : Expression) :
    (body op left right).length =
      (render op.leftLevel left).length + (render (op.level + 1) right).length + 1 := by
  rw [body, List.length_append, List.length_cons, Nat.add_assoc]

theorem reads_body {op : BinaryOp} {left right : Expression}
    (hleft : ReadBack n left) (hloop : LoopBack n left) (hright : ReadBack n right)
    (hlen : (body op left right).length ≤ n) :
    Reads op.level (parseAt n op.level) (body op left right) (.binary op left right) ∧
      (op.level ≠ 2 → Continues op.level n (body op left right) (.binary op left right)) := by
  have hlen' := body_length op left right
  have hop := level_le op
  have hr := hright (op.level + 1) (by omega) (by omega)
  by_cases hk : op.level = 2
  · refine ⟨?_, fun h => absurd hk h⟩
    have hleftLevel : op.leftLevel = 3 := if_pos hk
    rw [hk] at hr ⊢
    rw [body, hleftLevel, hk]
    rw [hleftLevel] at hlen'
    exact reads_comparison hk (hleft 3 (by omega) (by omega)) hr
  · have hleftLevel : op.leftLevel = op.level := if_neg hk
    rw [hleftLevel] at hlen'
    have hl := hloop op.level hop hk (by omega)
    have hcont : Continues op.level n (body op left right) (.binary op left right) := by
      rw [body, hleftLevel] at hlen ⊢
      exact continues_binary hk hl hr hlen
    exact ⟨reads_of_continues hlen hcont, fun _ => hcont⟩

theorem readBack_binary {op : BinaryOp} {left right : Expression}
    (hleft : ∀ n, ReadBack n left ∧ LoopBack n left) (hright : ∀ n, ReadBack n right) :
    ReadBack n (.binary op left right) ∧ LoopBack n (.binary op left right) := by
  have hpos : 0 < (body op left right).length := by
    rw [body_length]
    omega
  have hbody : ∀ n, (body op left right).length ≤ n → ∀ l ≤ op.level,
      Reads l (parseAt n l) (body op left right) (.binary op left right) := by
    intro n hlen l hl
    have hop := level_le op
    exact reads_down hl (by omega) hlen hpos
      (reads_body (hleft n).1 (hleft n).2 (hright n) hlen).1
  -- parentheses spend one unit of the bound and start over at level 0
  have hparen : ∀ n, (body op left right).length + 2 ≤ n → ∀ l ≤ 5,
      Reads l (parseAt n l) (.symbol .lparen :: body op left right ++ [.symbol .rparen])
        (.binary op left right) := by
    intro n hlen l hl
    obtain ⟨n, rfl⟩ := Nat.exists_eq_succ_of_ne_zero (by omega : n ≠ 0)
    apply reads_down hl (Nat.le_refl 5)
    · simp only [List.length_append, List.length_cons, List.length_nil]
      omega
    · exact Nat.succ_pos _
    · exact reads_paren (hbody n (by omega) 0 (Nat.zero_le _))
  have hrender : ∀ l, render l (.binary op left right) = if l ≤ op.level then body op left right
      else Lexeme.symbol .lparen :: body op left right ++ [Lexeme.symbol .rparen] := fun _ => rfl
  have hparenLength :
      (Lexeme.symbol .lparen :: body op left right ++ [Lexeme.symbol .rparen]).length =
      (body op left right).length + 2 := by
    simp only [List.length_append, List.length_cons, List.length_nil]
  constructor
  · intro l hl hlen
    rw [hrender] at hlen ⊢
    split at hlen
    · next h =>
      rw [if_pos h]
      exact hbody n hlen l h
    · next h =>
      rw [if_neg h]
      exact hparen n (hparenLength ▸ hlen) l hl
  · intro k hk hk' hlen
    rw [hrender] at hlen ⊢
    split at hlen
    · next h =>
      rw [if_pos h]
      rcases Nat.lt_or_eq_of_le h with hlt | rfl
      · exact continues_of_reads hk hk' hpos (hbody n hlen (k + 1) hlt)
      · exact (reads_body (hleft n).1 (hleft n).2 (hright n) hlen).2 hk'
    · next h =>
      rw [if_neg h]
      exact continues_of_reads hk hk' (Nat.succ_pos _)
        (hparen n (hparenLength ▸ hlen) (k + 1) (Nat.succ_le_succ hk))

theorem renderLiteral_type (v : Value) :
    (renderLiteral v).type ≠ .not ∧ (renderLiteral v).type ≠ .minus := by
  cases v with
  | bool b => cases b <;> decide
  | _ => exact ⟨fun h => TokenType.noConfusion h, fun h => TokenType.noConfusion h⟩

theorem readBack_all (e : Expression) (he : e.Plain) (n : Nat) : ReadBack n e ∧ LoopBack n e := by
  induction e generalizing n with
  | literal v =>
    have htype := renderLiteral_type v
    refine readBack_unary (fun _ => rfl) fun hlen => reads_atom htype.1 htype.2 hlen ?_
    intro _ s t rest hs ht
    exact parsePrimary_literal he hs ht
  | columnRef name =>
    refine readBack_unary (fun _ => rfl) fun hlen =>
      reads_atom (fun h => TokenType.noConfusion h) (fun h => TokenType.noConfusion h) hlen ?_
    intro _ s t rest hs ht
    exact parsePrimary_columnRef hs ht
  | not e ih =>
    refine readBack_unary (fun _ => rfl) fun hlen => ?_
    obtain ⟨n, rfl⟩ := Nat.exists_eq_succ_of_ne_zero (by
      rw [List.length_cons] at hlen; omega : n ≠ 0)
    exact reads_not ((ih he n).1 5 (Nat.le_refl 5) (Nat.le_of_succ_le_succ hlen))
  | binary op left right ihl ihr =>
    exact readBack_binary (ihl he.1) fun n => (ihr he.2 n).1

end

/-- The operators that join two operands. -/
def operators : List TokenType :=
  [.or, .and, .eq, .neq, .lt, .gt, .le, .ge, .plus, .minus, .mul, .star, .div]

theorem stopsAt_of_not_operator {type : TokenType} (h : type ∉ operators) : StopsAt 0 type := by
  intro k _
  have hsub : ∀ p ∈ opsAt k, p.1 ∈ operators := by
    match k with
    | 0 | 1 | 2 | 3 | 4 => decide
    | k + 5 =>
      intro p hp
      cases hp
  rw [List.lookup_eq_none_iff]
  intro p hp
  rw [bne_iff_ne]
  intro heq
  exact h (heq ▸ hsub p hp)

theorem Ahead.length_le {s : Parser} {l rest : List Token} (h : s.Ahead (l ++ rest)) :
    l.length ≤ s.tokens.length := by
  have hlen := congrArg List.length h
  rw [List.length_drop, List.length_append] at hlen
  omega

theorem parseExpression_reads {s : Parser} {ls : List Lexeme} {e : Expression} {toks : List Token}
    {t : Token} {rest : List Token} (hs : s.Ahead (toks ++ t :: rest)) (hspelled : Spelled ls toks)
    (ht : t.type ∉ operators)
    (h : Reads 0 (parseAt (s.tokens.length + 1) 0) ls e) :
    parseExpression.run s = (.ok e, s.forward toks.length) := by
  have hrun := h s toks t rest hspelled hs (stopsAt_of_not_operator ht)
  rw [hspelled.length_eq] at hrun
  exact hrun

/-- Parsing a rendered expression gives it back and stops at the token behind it; a minus in a unary
position subtracts from zero. -/
theorem parseExpression_render (e : Expression) (he : e.Plain) (s : Parser) (toks : List Token)
    (t : Token) (rest : List Token) (hs : s.Ahead (toks ++ t :: rest)) :
    (Spelled (render 0 e) toks → t.type ∉ operators →
      parseExpression.run s = (.ok e, s.forward toks.length)) ∧
    (Spelled (.symbol .minus :: render 5 e) toks →
      (∀ n, toks.length ≤ n → (parseUnary n).run s =
        (.ok (.binary .sub (.literal (.int 0)) e), s.forward toks.length)) ∧
      (t.type ∉ operators → parseExpression.run s =
        (.ok (.binary .sub (.literal (.int 0)) e), s.forward toks.length))) := by
  have hlen := hs.length_le
  constructor
  · intro hspelled ht
    apply parseExpression_reads hs hspelled ht
    have hle := hspelled.length_eq
    exact (readBack_all e he _).1 0 (Nat.zero_le _) (by omega)
  · intro hspelled
    have hle := hspelled.length_eq
    have hunary : ∀ n, toks.length ≤ n → Reads 5 (parseUnary n) (.symbol .minus :: render 5 e)
        (.binary .sub (.literal (.int 0)) e) := by
      intro n hn
      rw [← hle, List.length_cons] at hn
      obtain ⟨n, rfl⟩ := Nat.exists_eq_succ_of_ne_zero (by omega : n ≠ 0)
      exact reads_minus ((readBack_all e he n).1 5 (Nat.le_refl 5) (Nat.le_of_succ_le_succ hn))
    constructor
    · intro n hn
      have hrun := hunary n hn s toks t rest hspelled hs
        (fun k hk => by obtain ⟨k, rfl⟩ := Nat.exists_eq_add_of_le' hk; rfl)
      rw [hle] at hrun
      exact hrun
    · intro ht
      apply parseExpression_reads hs hspelled ht
      exact reads_down (Nat.zero_le 5) (Nat.le_refl 5) (by omega) (Nat.succ_pos _)
        (hunary _ (by omega))

/-- `a - (b + 1) * 2` -/
theorem parseExpression_render_mixed :
    let e : Expression := .binary .sub (.columnRef (str "a"))
      (.binary .mul (.binary .add (.columnRef (str "b")) (.literal (.int 1))) (.literal (.int 2)))
    let toks : List Token := [⟨.identifier, str "a", 1, 1⟩, ⟨.minus, str "-", 1, 3⟩,
      ⟨.lparen, str "(", 1, 5⟩, ⟨.identifier, str "b", 1, 6⟩, ⟨.plus, str "+", 1, 8⟩,
      ⟨.integerLit, str "1", 1, 10⟩, ⟨.rparen, str ")", 1, 11⟩, ⟨.star, str "*", 1, 13⟩,
      ⟨.integerLit, str "2", 1, 15⟩]
    let last : Token := ⟨.end, [], 1, 16⟩
    parseExpression.run ⟨toks ++ [last], 0⟩ = (.ok e, ⟨toks ++ [last], 9⟩) := by
  intro e toks last
  have he : e.Plain := ⟨trivial, ⟨trivial, (by decide : (0 : Int64) ≤ 1)⟩, (by decide : (0 : Int64) ≤ 2)⟩
  have hs : Ahead ⟨toks ++ [last], 0⟩ (toks ++ last :: []) := rfl
  refine (parseExpression_render e he _ toks last [] hs).1 ?_ (by decide)
  refine .cons ⟨rfl, rfl⟩ (.cons rfl (.cons rfl (.cons ⟨rfl, rfl⟩ (.cons rfl
    (.cons ⟨rfl, ?_⟩ (.cons rfl (.cons rfl (.cons ⟨rfl, ?_⟩ .nil)))))))) <;> decide

end Parser
end JiaMiaoDB
