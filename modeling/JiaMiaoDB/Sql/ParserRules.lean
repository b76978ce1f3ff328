import JiaMiaoDB.Sql.ExpressionGrammar

/-!
# Rules for parsers

`Takes p ls a ends`: on any tokens spelled by `ls`, with a token that `ends` allows behind them, `p`
gives `a` and stops in front of that token. One rule for each way in which the parsers are put
together, so that a parser is followed along its text.
-/

set_option autoImplicit false

namespace JiaMiaoDB
namespace Parser

def Takes {α : Type} (p : ParserM α) (ls : List Lexeme) (a : α) (ends : TokenType → Prop) : Prop :=
  ∀ s toks t rest, Spelled ls toks → s.Ahead (toks ++ t :: rest) → ends t.type →
    p.run s = (.ok a, s.forward ls.length)

/-- The items with commas between them. -/
def separated {γ : Type} (lex : γ → List Lexeme) : List γ → List Lexeme
  | [] => []
  | x :: xs => lex x ++ xs.flatMap fun y => .symbol .comma :: lex y

/-- Whatever stands behind. -/
def anyType : TokenType → Prop := fun _ => True

/-- What stands in front of `ls`, with a token that `ends` allows behind it, satisfies `mid`. -/
def Starts (ls : List Lexeme) (ends mid : TokenType → Prop) : Prop :=
  match ls with
  | [] => ∀ type, ends type → mid type
  | x :: _ => mid x.type

namespace Starts
variable {ls ls' : List Lexeme} {ends mid : TokenType → Prop}

theorem any : Starts ls ends anyType := by
  cases ls with
  | nil => exact fun _ _ => trivial
  | cons => exact trivial

theorem symbol {kind other : TokenType} (h : kind ≠ other) :
    Starts (.symbol kind :: ls) ends (· ≠ other) := h

theorem append (h : Starts ls mid mid) (h' : Starts ls' ends mid) :
    Starts (ls ++ ls') ends mid := by
  cases ls with
  | nil => exact h'
  | cons => exact h

theorem mono {mid' : TokenType → Prop} (h : Starts ls ends mid) (hmid : ∀ type, mid type → mid' type) :
    Starts ls ends mid' := by
  cases ls with
  | nil => exact fun type htype => hmid type (h type htype)
  | cons => exact hmid _ h

/-- The first token behind the place where `ls` begins. -/
theorem head {toks : List Token} {t : Token} (h : Starts ls ends mid) (rest : List Token)
    (hspelled : Spelled ls toks) (ht : ends t.type) :
    ∃ x xs, toks ++ t :: rest = x :: xs ∧ mid x.type := by
  cases ls with
  | nil =>
    cases hspelled
    exact ⟨t, rest, rfl, h t.type ht⟩
  | cons x ls =>
    obtain ⟨u, us, rfl, hu, -⟩ := hspelled.cons_inv
    exact ⟨u, us ++ t :: rest, rfl, hu.type_eq ▸ h⟩

end Starts

namespace Takes
variable {α β : Type} {ls ls' : List Lexeme} {a : α} {b : β} {ends mid : TokenType → Prop}
  {type : TokenType}

theorem pure (a : α) : Takes (Pure.pure a) [] a ends := by
  intro s toks t rest hspelled hs ht
  rfl

theorem mono {p : ParserM α} (h : Takes p ls a mid) (hends : ∀ type, ends type → mid type) :
    Takes p ls a ends :=
  fun s toks t rest hspelled hs ht => h s toks t rest hspelled hs (hends _ ht)

/-- Two parsers in a row: what follows the first is the beginning of the second. -/
theorem bind {p : ParserM α} {f : α → ParserM β} (hp : Takes p ls a mid)
    (hf : Takes (f a) ls' b ends) (hmid : Starts ls' ends mid) :
    Takes (p >>= f) (ls ++ ls') b ends := by
  intro s toks t rest hspelled hs ht
  obtain ⟨us, us', rfl, hus, hus'⟩ := hspelled.append_inv
  obtain ⟨x, xs, hx, hxtype⟩ := hmid.head rest hus' ht
  rw [List.append_assoc] at hs
  have hfirst := hp s us x xs hus (hx ▸ hs) hxtype
  have hsecond := hf (s.forward ls.length) us' t rest hus'
    (by rw [hus.length_eq]; exact hs.forward) ht
  rw [Prog.bind_ok hfirst, hsecond, forward_forward, List.length_append]

/-- The first parser takes nothing. -/
theorem bind_nil {p : ParserM α} {f : α → ParserM β} (hp : Takes p [] a mid)
    (hf : Takes (f a) ls b ends) (hmid : Starts ls ends mid) : Takes (p >>= f) ls b ends :=
  bind hp hf hmid

/-- The first parser takes one token. -/
theorem bind_cons {x : Lexeme} {p : ParserM α} {f : α → ParserM β} (hp : Takes p [x] a mid)
    (hf : Takes (f a) ls b ends) (hmid : Starts ls ends mid) : Takes (p >>= f) (x :: ls) b ends :=
  bind hp hf hmid

theorem map {p : ParserM α} (f : α → β) (hp : Takes p ls a ends) : Takes (f <$> p) ls (f a) ends := by
  rw [map_eq_pure_bind, ← List.append_nil ls]
  exact hp.bind (pure (f a)) fun _ htype => htype

/-- The bound of a loop or of a recursion is above the number of tokens. -/
theorem fuel {f : Nat → ParserM α} (h : ∀ n, ls.length < n → Takes (f n) ls a ends) :
    Takes (Parser.fuel >>= f) ls a ends := by
  intro s toks t rest hspelled hs ht
  have hlen := hs.length_le
  have hspelledLength := hspelled.length_eq
  have hfuel : Parser.fuel.run s = (.ok (s.tokens.length + 1), s) := rfl
  rw [Prog.bind_ok hfuel]
  apply h _ _ s toks t rest hspelled hs ht
  omega

/-- A look at the next token. -/
theorem peek {x : Lexeme} {f : Token → ParserM α} (h : ∀ t, x.Is t → Takes (f t) (x :: ls) a ends) :
    Takes (Parser.peek >>= f) (x :: ls) a ends := by
  intro s toks t rest hspelled hs ht
  have hspelled' := hspelled
  obtain ⟨u, us, rfl, hu, -⟩ := hspelled.cons_inv
  rw [Prog.bind_ok (peek_eq hs)]
  exact h u hu s _ t rest hspelled' hs ht

theorem peek_behind {f : Token → ParserM α} (h : ∀ t : Token, ends t.type → Takes (f t) [] a ends) :
    Takes (Parser.peek >>= f) [] a ends := by
  intro s toks t rest hspelled hs ht
  have hnone := hspelled
  cases hspelled
  rw [Prog.bind_ok (peek_eq hs)]
  exact h t ht s _ t rest hnone hs ht

theorem advance {x : Lexeme} (hx : x.type ≠ .end) {f : Token → ParserM α}
    (h : ∀ t, x.Is t → Takes (f t) ls a ends) : Takes (Parser.advance >>= f) (x :: ls) a ends := by
  intro s toks t rest hspelled hs ht
  obtain ⟨u, us, rfl, hu, hus⟩ := hspelled.cons_inv
  have hadvance := advance_eq hs (hu.type_eq ▸ hx)
  rw [Prog.bind_ok hadvance, h u hu _ us t rest hus hs.next ht, forward_forward, List.length_cons,
    Nat.add_comm]

theorem expect {x : Lexeme} (hx : x.type ≠ .end) {f : Token → ParserM α} {errorMsg : String}
    (h : ∀ t, x.Is t → Takes (f t) ls a ends) :
    Takes (Parser.expect x.type errorMsg >>= f) (x :: ls) a ends := by
  intro s toks t rest hspelled hs ht
  obtain ⟨u, us, rfl, hu, hus⟩ := hspelled.cons_inv
  have hexpect := expect_hit hs (hu.type_eq ▸ hx) errorMsg
  rw [hu.type_eq] at hexpect
  rw [Prog.bind_ok hexpect, h u hu _ us t rest hus hs.next ht, forward_forward, List.length_cons,
    Nat.add_comm]

/-- A token that is asked for and not looked at further. -/
theorem expect_then (htype : type ≠ .end) {p : ParserM α} {errorMsg : String}
    (h : Takes p ls a ends) :
    Takes (Parser.expect type errorMsg >>= fun _ => p) (.symbol type :: ls) a ends :=
  expect (x := .symbol type) htype fun _ _ => h

theorem expectName (name : Str) (errorMsg : String) :
    Takes (Parser.expectName errorMsg) [.word .identifier name] name anyType := by
  have hne : (Lexeme.word .identifier name).type ≠ .end := fun h => TokenType.noConfusion h
  refine expect hne fun t ht => ?_
  rw [ht.2]
  exact pure name

theorem name_then {name : Str} {f : Str → ParserM α} {errorMsg : String}
    (h : Takes (f name) ls a ends) :
    Takes (Parser.expectName errorMsg >>= f) (.word .identifier name :: ls) a ends :=
  bind (expectName name errorMsg) h Starts.any

theorem ifMatch_lexeme {x : Lexeme} (hx : x.type = type) (htype : type ≠ .end) {p q : ParserM α}
    (h : Takes p ls a ends) :
    Takes (matchToken type >>= fun b => if b = true then p else q) (x :: ls) a ends := by
  intro s toks t rest hspelled hs ht
  obtain ⟨u, us, rfl, hu, hus⟩ := hspelled.cons_inv
  have hu := hu.type_eq.trans hx
  subst hu
  rw [Prog.bind_ok (matchToken_hit hs htype), if_pos rfl, h _ us t rest hus hs.next ht,
    forward_forward, List.length_cons, Nat.add_comm]

theorem ifMatch_hit (htype : type ≠ .end) {p q : ParserM α} (h : Takes p ls a ends) :
    Takes (matchToken type >>= fun b => if b = true then p else q) (.symbol type :: ls) a ends :=
  ifMatch_lexeme (x := .symbol type) rfl htype h

theorem ifMatch_miss (htype : type ≠ .end) {p q : ParserM α} (hmid : Starts ls ends (· ≠ type))
    (h : Takes q ls a ends) :
    Takes (matchToken type >>= fun b => if b = true then p else q) ls a ends := by
  intro s toks t rest hspelled hs ht
  obtain ⟨x, xs, hx, hxtype⟩ := hmid.head rest hspelled ht
  rw [Prog.bind_ok (matchToken_miss (hx ▸ hs : s.Ahead (x :: xs)) hxtype htype),
    if_neg Bool.false_ne_true]
  exact h s toks t rest hspelled hs ht

theorem ifCheck_lexeme {x : Lexeme} (hx : x.type = type) (htype : type ≠ .end) {p q : ParserM α}
    (h : Takes p (x :: ls) a ends) :
    Takes (check type >>= fun b => if b = true then p else q) (x :: ls) a ends := by
  intro s toks t rest hspelled hs ht
  have hwhole := hspelled
  obtain ⟨u, us, rfl, hu, -⟩ := hspelled.cons_inv
  have hu := hu.type_eq.trans hx
  rw [Prog.bind_ok (check_eq hs htype), if_pos (decide_eq_true hu)]
  exact h s _ t rest hwhole hs ht

theorem ifCheck_miss (htype : type ≠ .end) {p q : ParserM α} (hmid : Starts ls ends (· ≠ type))
    (h : Takes q ls a ends) :
    Takes (check type >>= fun b => if b = true then p else q) ls a ends := by
  intro s toks t rest hspelled hs ht
  obtain ⟨x, xs, hx, hxtype⟩ := hmid.head rest hspelled ht
  rw [Prog.bind_ok (check_eq (hx ▸ hs : s.Ahead (x :: xs)) htype),
    if_neg (by rw [decide_eq_false hxtype]; exact Bool.false_ne_true)]
  exact h s toks t rest hspelled hs ht

/-- A token that may be there or not and changes nothing. -/
theorem skip_hit (htype : type ≠ .end) {p : ParserM α} (h : Takes p ls a ends) :
    Takes (matchToken type >>= fun _ => p) (.symbol type :: ls) a ends := by
  intro s toks t rest hspelled hs ht
  obtain ⟨u, us, rfl, hu, hus⟩ := hspelled.cons_inv
  have hu : u.type = type := hu
  subst hu
  rw [Prog.bind_ok (matchToken_hit hs htype), h _ us t rest hus hs.next ht, forward_forward,
    List.length_cons, Nat.add_comm]

theorem skip_miss (htype : type ≠ .end) {p : ParserM α} (hmid : Starts ls ends (· ≠ type))
    (h : Takes p ls a ends) : Takes (matchToken type >>= fun _ => p) ls a ends := by
  intro s toks t rest hspelled hs ht
  obtain ⟨x, xs, hx, hxtype⟩ := hmid.head rest hspelled ht
  rw [Prog.bind_ok (matchToken_miss (hx ▸ hs : s.Ahead (x :: xs)) hxtype htype)]
  exact h s toks t rest hspelled hs ht

theorem ifAtEnd_stop {p q : ParserM α} (hends : ∀ type, ends type → type = .end)
    (h : Takes p [] a ends) : Takes (isAtEnd >>= fun b => if b = true then p else q) [] a ends := by
  intro s toks t rest hspelled hs ht
  have hnone := hspelled
  cases hspelled
  rw [Prog.bind_ok (isAtEnd_eq hs), if_pos (decide_eq_true (hends _ ht))]
  exact h s _ t rest hnone hs ht

theorem ifAtEnd_next {x : Lexeme} (hx : x.type ≠ .end) {p q : ParserM α}
    (h : Takes q (x :: ls) a ends) :
    Takes (isAtEnd >>= fun b => if b = true then p else q) (x :: ls) a ends := by
  intro s toks t rest hspelled hs ht
  have hwhole := hspelled
  obtain ⟨u, us, rfl, hu, -⟩ := hspelled.cons_inv
  rw [Prog.bind_ok (isAtEnd_eq hs), if_neg (by rw [hu.type_eq, decide_eq_false hx]; decide)]
  exact h s _ t rest hwhole hs ht

/-! ### Lists -/

section
variable {γ : Type} {lex : γ → List Lexeme} {val : γ → α} {item : ParserM α}

theorem whileComma_stop {n : Nat} (hn : 0 < n) (hends : ∀ type, ends type → type ≠ .comma) :
    Takes (Parser.whileComma item n) [] [] ends := by
  obtain ⟨n, rfl⟩ := Nat.exists_eq_succ_of_ne_zero (Nat.pos_iff_ne_zero.mp hn)
  exact ifMatch_miss (by decide) hends (pure [])

theorem whileComma_next {n : Nat} {as : List α} (hitem : Takes item ls a mid)
    (hrest : Takes (Parser.whileComma item n) ls' as ends) (hmid : Starts ls' ends mid) :
    Takes (Parser.whileComma item (n + 1)) (.symbol .comma :: (ls ++ ls')) (a :: as) ends := by
  refine ifMatch_hit (by decide) (bind hitem ?_ hmid)
  rw [← List.append_nil ls']
  exact bind hrest (pure _) fun _ htype => htype

theorem whileComma (hcomma : mid .comma) (hends : ∀ type, ends type → mid type ∧ type ≠ .comma)
    (xs : List γ) (hitem : ∀ x ∈ xs, Takes item (lex x) (val x) mid) {n : Nat} (hn : xs.length < n) :
    Takes (Parser.whileComma item n) (xs.flatMap fun x => .symbol .comma :: lex x) (xs.map val)
      ends := by
  induction xs generalizing n with
  | nil => exact whileComma_stop hn fun type htype => (hends type htype).2
  | cons x xs ih =>
    obtain ⟨n, rfl⟩ := Nat.exists_eq_succ_of_ne_zero (by omega : n ≠ 0)
    rw [List.length_cons] at hn
    have hrest := ih (fun y hy => hitem y (List.mem_cons_of_mem x hy)) (n := n) (by omega)
    rw [List.flatMap_cons, List.cons_append, List.map_cons]
    refine whileComma_next (hitem x List.mem_cons_self) hrest ?_
    cases xs with
    | nil => exact fun type htype => (hends type htype).1
    | cons => exact hcomma

theorem length_le_flatMap (xs : List γ) :
    xs.length ≤ (xs.flatMap fun x => .symbol .comma :: lex x).length := by
  induction xs with
  | nil => exact Nat.le_refl 0
  | cons x xs ih =>
    rw [List.flatMap_cons, List.length_append, List.length_cons, List.length_cons]
    omega

theorem commaList (hcomma : mid .comma) (hends : ∀ type, ends type → mid type ∧ type ≠ .comma)
    (x : γ) (xs : List γ) (hitem : ∀ y ∈ x :: xs, Takes item (lex y) (val y) mid) :
    Takes (Parser.commaList item) (separated lex (x :: xs)) ((x :: xs).map val) ends := by
  refine bind (hitem x List.mem_cons_self) (fuel fun n hn => ?_) ?_
  · rw [← List.append_nil (xs.flatMap _)]
    have hxs : xs.length ≤ (xs.flatMap fun y => .symbol .comma :: lex y).length :=
      length_le_flatMap xs
    exact bind (whileComma hcomma hends xs (fun y hy => hitem y (List.mem_cons_of_mem x hy))
      (by omega)) (pure _) fun _ htype => htype
  · cases xs with
    | nil => exact fun type htype => (hends type htype).1
    | cons => exact hcomma

end

/-! ### Expressions -/

theorem parseExpression {e : Expression} (he : e.Plain) :
    Takes Parser.parseExpression (render 0 e) e (· ∉ operators) := by
  intro s toks t rest hspelled hs ht
  have hlen := hs.length_le
  have hspelledLength := hspelled.length_eq
  have hread := (readBack_all e he (s.tokens.length + 1)).1 0 (Nat.zero_le 5) (by omega)
  rw [parseExpression_reads hs hspelled ht hread, hspelledLength]

end Takes

/-- An expression that VALUES takes: a literal, a column or something in parentheses. -/
def Primary : Expression → Prop
  | .not _ => False
  | _ => True

instance (e : Expression) : Decidable (Primary e) := by
  cases e <;> unfold Primary <;> infer_instance

theorem render_head {e : Expression} (he : Primary e) :
    ∃ x ls, render 5 e = x :: ls ∧ x.type ≠ .not ∧ x.type ≠ .minus := by
  cases e with
  | literal v => exact ⟨_, [], rfl, renderLiteral_type v⟩
  | columnRef name =>
    exact ⟨_, [], rfl, fun h => TokenType.noConfusion h, fun h => TokenType.noConfusion h⟩
  | not e => exact he.elim
  | binary op left right =>
    have hlevel := level_le op
    refine ⟨.symbol .lparen, body op left right ++ [.symbol .rparen], ?_, by decide, by decide⟩
    rw [render]
    exact if_neg (by omega)

theorem Takes.parsePrimaryHere {e : Expression} (he : e.Plain) (hprimary : Primary e) :
    Takes Parser.parsePrimaryHere (render 5 e) e anyType := by
  refine Takes.fuel fun n hn => ?_
  intro s toks t rest hspelled hs _
  have hspelled' := hspelled
  obtain ⟨x, ls, hx, hnot, hminus⟩ := render_head hprimary
  rw [hx] at hspelled'
  obtain ⟨u, us, rfl, hu, -⟩ := hspelled'.cons_inv
  have hunary := parseUnary_primary (n := n) hs (hu.type_eq ▸ hnot) (hu.type_eq ▸ hminus)
  have hread := (readBack_all e he (n + 1)).1 5 (Nat.le_refl 5) (by omega)
  exact hunary.symm.trans (hread s _ t rest hspelled hs
    (fun k hk => by obtain ⟨k, rfl⟩ := Nat.exists_eq_add_of_le' hk; rfl))

/-! ### Errors -/

/-- On such tokens `p` ends in an error. -/
def Fails {α : Type} (p : ParserM α) (ls : List Lexeme) (ends : TokenType → Prop) : Prop :=
  ∀ s toks t rest, Spelled ls toks → s.Ahead (toks ++ t :: rest) → ends t.type →
    ∃ e s', p.run s = (.error e, s')

namespace Fails
variable {α β : Type} {ls ls' : List Lexeme} {a : α} {ends mid : TokenType → Prop}
  {type : TokenType}

theorem first {p : ParserM α} {f : α → ParserM β} (hp : Fails p ls ends) :
    Fails (p >>= f) ls ends := by
  intro s toks t rest hspelled hs ht
  obtain ⟨e, s', hrun⟩ := hp s toks t rest hspelled hs ht
  exact ⟨e, s', Prog.bind_error hrun⟩

/-- The error comes behind what the first parser takes. -/
theorem bind {p : ParserM α} {f : α → ParserM β} (hp : Takes p ls a mid) (hf : Fails (f a) ls' ends)
    (hmid : Starts ls' ends mid) : Fails (p >>= f) (ls ++ ls') ends := by
  intro s toks t rest hspelled hs ht
  obtain ⟨us, us', rfl, hus, hus'⟩ := hspelled.append_inv
  obtain ⟨x, xs, hx, hxtype⟩ := hmid.head rest hus' ht
  rw [List.append_assoc] at hs
  have hfirst := hp s us x xs hus (hx ▸ hs) hxtype
  rw [Prog.bind_ok hfirst]
  exact hf _ us' t rest hus' (by rw [hus.length_eq]; exact hs.forward) ht

theorem bind_nil {p : ParserM α} {f : α → ParserM β} (hp : Takes p [] a mid)
    (hf : Fails (f a) ls ends) (hmid : Starts ls ends mid) : Fails (p >>= f) ls ends :=
  bind hp hf hmid

theorem name_then {name : Str} {f : Str → ParserM α} {errorMsg : String} (h : Fails (f name) ls ends) :
    Fails (Parser.expectName errorMsg >>= f) (.word .identifier name :: ls) ends :=
  bind (Takes.expectName name errorMsg) h Starts.any

theorem fuel {f : Nat → ParserM α} (h : ∀ n, ls.length < n → Fails (f n) ls ends) :
    Fails (Parser.fuel >>= f) ls ends := by
  intro s toks t rest hspelled hs ht
  have hlen := hs.length_le
  have hspelledLength := hspelled.length_eq
  have hfuel : Parser.fuel.run s = (.ok (s.tokens.length + 1), s) := rfl
  rw [Prog.bind_ok hfuel]
  apply h _ _ s toks t rest hspelled hs ht
  omega

theorem expect_then (htype : type ≠ .end) {p : ParserM α} {errorMsg : String}
    (h : Fails p ls ends) :
    Fails (Parser.expect type errorMsg >>= fun _ => p) (.symbol type :: ls) ends := by
  intro s toks t rest hspelled hs ht
  obtain ⟨u, us, rfl, hu, hus⟩ := hspelled.cons_inv
  have hu : u.type = type := hu
  subst hu
  rw [Prog.bind_ok (expect_hit hs htype errorMsg)]
  exact h _ us t rest hus hs.next ht

theorem expect (hmid : Starts ls ends (· ≠ type)) (errorMsg : String) :
    Fails (Parser.expect type errorMsg) ls ends := by
  intro s toks t rest hspelled hs ht
  obtain ⟨x, xs, hx, hxtype⟩ := hmid.head rest hspelled ht
  obtain ⟨f, hf⟩ := expect_miss (hx ▸ hs : s.Ahead (x :: xs)) hxtype errorMsg
  exact ⟨_, s, hf⟩

theorem expectName (hmid : Starts ls ends (· ≠ .identifier)) (errorMsg : String) :
    Fails (Parser.expectName errorMsg) ls ends := (expect hmid errorMsg).first

end Fails
end Parser
end JiaMiaoDB
