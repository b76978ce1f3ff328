import JiaMiaoDB.Sql.Lexer

/-!
# The text of tokens

The tokens depend on the unread input only, not on the line and the column, and a quoted string
is one token whatever it holds.
-/

set_option autoImplicit false

namespace JiaMiaoDB
namespace Lexer

/-- The kind and the text of each token. -/
def spellings (l : Lexer) : Except Failure (List (TokenType × Str)) :=
  (·.map Token.spelling) <$> l.tokens

/-- What a step of the lexer shows without its place. -/
def unplaced (p : Token × Lexer) : (TokenType × Str) × Str := (p.1.spelling, p.2.rest)

section Next
variable {l l' : Lexer} {c : UInt8} {rest : Str}

theorem next_end (h : l.skipWhitespace.peekChar = 0) :
    l.next = .ok (⟨.end, [], l.skipWhitespace.line, l.skipWhitespace.col⟩, l.skipWhitespace) := by
  rw [next]
  split
  · rfl
  · next c rest hrest =>
    rw [peekChar, hrest, List.headD_cons] at h
    rw [if_pos h]

theorem next_lineComment (h : l.skipWhitespace.rest = 45 :: 45 :: rest) :
    l.next = l.skipWhitespace.skipLineComment.next := by
  rw [next]
  split
  · next hrest => rw [h] at hrest; cases hrest
  · next c rest hrest =>
    rw [h] at hrest
    cases hrest
    rw [if_neg (by decide), dif_pos ⟨rfl, rfl⟩]

theorem next_blockComment (h : l.skipWhitespace.rest = 47 :: 42 :: rest) :
    l.next = (l.skipWhitespace.advanceBy 2).skipBlockComment >>= next := by
  rw [next]
  split
  · next hrest => rw [h] at hrest; cases hrest
  · next c rest hrest =>
    rw [h] at hrest
    cases hrest
    rw [if_neg (by decide), dif_neg (fun h => absurd h.1 (by decide)), if_pos ⟨rfl, rfl⟩]
    split
    · next m hm => rw [hm]; rfl
    · next f hf => rw [hf]; rfl

theorem next_token (h : l.skipWhitespace.rest = c :: rest) (hc : c ≠ 0)
    (hline : ¬ (c = 45 ∧ rest.head? = some 45)) (hblock : ¬ (c = 47 ∧ rest.head? = some 42)) :
    l.next = .ok l.skipWhitespace.readToken := by
  rw [next]
  split
  · next hrest => rw [h] at hrest; cases hrest
  · next c rest hrest =>
    rw [h] at hrest
    cases hrest
    rw [if_neg hc, dif_neg hline, if_neg hblock]

theorem skipBlockComment_ok {m : Lexer} (h : l.rest = l'.rest) (hm : l.skipBlockComment = .ok m) :
    ∃ m', l'.skipBlockComment = .ok m' ∧ m.rest = m'.rest := by
  unfold skipBlockComment at hm ⊢
  rw [← h]
  split at hm
  · next n hn =>
    cases hm
    exact ⟨_, rfl, by rw [advanceBy_rest, advanceBy_rest, h]⟩
  · cases hm

theorem skipBlockComment_error {f : Failure} (h : l.rest = l'.rest)
    (hf : l.skipBlockComment = .error f) : l'.skipBlockComment = .error f := by
  unfold skipBlockComment at hf ⊢
  rw [← h]
  split at hf
  · cases hf
  · exact hf

theorem readToken_congr (h : l.rest = l'.rest) : unplaced l.readToken = unplaced l'.readToken := by
  have hmake : ∀ type text n, unplaced (makeToken type text (l.advanceBy n)) =
      unplaced (makeToken type text (l'.advanceBy n)) := by
    intro type text n
    simp only [unplaced, makeToken, Token.spelling, advanceBy_rest, h]
  have hpeek : l.peekChar = l'.peekChar := by rw [peekChar, peekChar, h]
  have hpeek' : l.advance.peekChar = l'.advance.peekChar := by
    rw [peekChar, peekChar, advance_rest, advance_rest, h]
  unfold readToken
  rw [hpeek]
  dsimp only
  split
  · unfold readIdentifier
    rw [h]
    exact hmake _ _ _
  split
  · unfold readNumber
    rw [h]
    dsimp only
    split
    · exact hmake _ _ _
    · exact hmake _ _ _
  split
  · unfold readString
    rw [h]
    exact hmake _ _ _
  · unfold readSymbol
    rw [hpeek, hpeek']
    exact hmake _ _ _

end Next

/-- Only the unread input matters for what comes next. -/
theorem next_congr {l l' : Lexer} (h : l.rest = l'.rest) :
    unplaced <$> l.next = unplaced <$> l'.next := by
  have hrest : ∀ {a b : Lexer}, a.rest = b.rest → a.skipWhitespace.rest = b.skipWhitespace.rest := by
    intro a b hab
    rw [skipWhitespace_rest, skipWhitespace_rest, hab]
  fun_induction next l generalizing l'
  case case1 l m hm =>
    have hm' := (hrest h).symm.trans hm
    rw [next_end (by rw [peekChar, hm']; rfl)]
    exact congrArg (fun bs => Except.ok ((TokenType.end, []), bs)) (hrest h)
  case case2 l m rest hm =>
    have hm' := (hrest h).symm.trans hm
    rw [next_end (by rw [peekChar, hm']; rfl)]
    exact congrArg (fun bs => Except.ok ((TokenType.end, []), bs)) (hrest h)
  case case3 l m c rest hm hc hline ih =>
    obtain ⟨rfl, hhead⟩ := hline
    obtain ⟨rest, rfl⟩ := List.head?_eq_some_iff.mp hhead
    have hm' := (hrest h).symm.trans hm
    rw [next_lineComment hm']
    apply ih
    rw [skipLineComment, skipLineComment, advanceBy_rest, advanceBy_rest, hm, hm']
  case case4 l m c rest hm hc hline hblock m' hskip ih =>
    obtain ⟨rfl, hhead⟩ := hblock
    obtain ⟨rest, rfl⟩ := List.head?_eq_some_iff.mp hhead
    have hm' := (hrest h).symm.trans hm
    rw [next_blockComment hm']
    have hopen : (l.skipWhitespace.advanceBy 2).rest = (l'.skipWhitespace.advanceBy 2).rest := by
      rw [advanceBy_rest, advanceBy_rest, hrest h]
    obtain ⟨k, hk, hkrest⟩ := skipBlockComment_ok hopen hskip
    rw [hk]
    exact ih hkrest
  case case5 l m c rest hm hc hline hblock f hskip =>
    obtain ⟨rfl, hhead⟩ := hblock
    obtain ⟨rest, rfl⟩ := List.head?_eq_some_iff.mp hhead
    have hm' := (hrest h).symm.trans hm
    rw [next_blockComment hm']
    have hopen : (l.skipWhitespace.advanceBy 2).rest = (l'.skipWhitespace.advanceBy 2).rest := by
      rw [advanceBy_rest, advanceBy_rest, hrest h]
    rw [skipBlockComment_error hopen hskip]
    rfl
  case case6 l m c rest hm hc hline hblock =>
    have hm' := (hrest h).symm.trans hm
    rw [next_token hm' hc hline hblock]
    exact congrArg Except.ok (readToken_congr (hrest h))

theorem spellings_eq (l : Lexer) :
    l.spellings = l.next >>= fun p =>
      if p.1.type = .end then .ok [p.1.spelling] else (p.1.spelling :: ·) <$> p.2.spellings := by
  rw [spellings, tokens]
  split
  · next f hf => rw [hf]; rfl
  · next t l' h =>
    rw [h]
    dsimp only [Bind.bind, Except.bind]
    split
    · rfl
    · rw [spellings]
      cases l'.tokens <;> rfl

theorem spellings_congr {l l' : Lexer} (h : l.rest = l'.rest) : l.spellings = l'.spellings := by
  induction hlen : l.rest.length using Nat.strong_induction_on generalizing l l' with
  | _ len ih =>
    have hnext := next_congr h
    rw [spellings_eq, spellings_eq]
    cases hl : l.next with
    | error f =>
      cases hl' : l'.next with
      | error f' =>
        rw [hl, hl'] at hnext
        cases hnext
        rfl
      | ok p' => rw [hl, hl'] at hnext; cases hnext
    | ok p =>
      cases hl' : l'.next with
      | error f' => rw [hl, hl'] at hnext; cases hnext
      | ok p' =>
        rw [hl, hl'] at hnext
        obtain ⟨hspelling, hrest⟩ := Prod.mk.inj (Except.ok.inj hnext)
        have htype : p.1.type = p'.1.type := congrArg Prod.fst hspelling
        dsimp only [Bind.bind, Except.bind]
        rw [htype, hspelling]
        split
        · rfl
        · next hend =>
          have hlt := next_lt hl (htype ▸ hend)
          rw [ih _ (hlen ▸ hlt) hrest rfl]

/-! ### String literals -/

/-- A backslash before each backslash and each quote. -/
def escape (s : Str) : Str := s.flatMap fun c => if c = 92 ∨ c = 39 then [92, c] else [c]

def quoted (s : Str) : Str := 39 :: escape s ++ [39]

theorem stringBody_quote (text : Str) : stringBody (39 :: text) = ([], 1) := by
  rw [stringBody.eq_def]
  exact if_pos rfl

theorem stringBody_backslash (c : UInt8) (text : Str) :
    stringBody (92 :: c :: text) = (c :: (stringBody text).1, (stringBody text).2 + 2) := by
  rw [stringBody.eq_def]
  rfl

theorem stringBody_plain {c : UInt8} (hquote : c ≠ 39) (hnul : c ≠ 0) (hslash : c ≠ 92) (text : Str) :
    stringBody (c :: text) = (c :: (stringBody text).1, (stringBody text).2 + 1) := by
  rw [stringBody.eq_def]
  dsimp only
  rw [if_neg hquote, if_neg hnul, if_neg hslash]

theorem stringBody_escape {s : Str} (hs : 0 ∉ s) (text : Str) :
    stringBody (escape s ++ 39 :: text) = (s, (escape s).length + 1) := by
  induction s with
  | nil => exact stringBody_quote text
  | cons c s ih =>
    rw [List.mem_cons, not_or] at hs
    obtain ⟨hc, hs⟩ := hs
    rw [escape, List.flatMap_cons, ← escape]
    split
    · have hbody := stringBody_backslash c (escape s ++ 39 :: text)
      rw [ih hs] at hbody
      exact hbody
    · next hplain =>
      rw [not_or] at hplain
      have hbody := stringBody_plain hplain.2 (Ne.symm hc) hplain.1 (escape s ++ 39 :: text)
      rw [ih hs] at hbody
      exact hbody

theorem next_quoted {s : Str} (hs : 0 ∉ s) (text : Str) (line : Nat) (col : Int) :
    unplaced <$> next ⟨quoted s ++ text, line, col⟩ = .ok ((.stringLit, s), text) := by
  let l : Lexer := ⟨quoted s ++ text, line, col⟩
  have hrest : l.skipWhitespace.rest = 39 :: (escape s ++ 39 :: text) := by
    rw [skipWhitespace_rest]
    simp [l, quoted, isSpace]
  have hread : l.skipWhitespace.readToken = l.skipWhitespace.readString := by
    rw [readToken, peekChar, hrest]
    rfl
  have hnext := next_token hrest (by decide) (fun h => absurd h.1 (by decide))
    (fun h => absurd h.1 (by decide))
  rw [hnext, hread, readString, hrest, List.tail_cons, stringBody_escape hs]
  apply congrArg Except.ok
  simp only [unplaced, makeToken, Token.spelling, advanceBy_rest, hrest]
  simp

/-- No content of a quoted string ends it early or adds a token. -/
theorem tokenize_quoted (s text : Str) (hs : 0 ∉ s) :
    (·.map Token.spelling) <$> tokenize (quoted s ++ text) =
      ((.stringLit, s) :: ·) <$> (·.map Token.spelling) <$> tokenize text := by
  have hnext := next_quoted hs text 1 1
  change spellings _ = ((.stringLit, s) :: ·) <$> spellings _
  rw [spellings_eq]
  cases hl : next ⟨quoted s ++ text, 1, 1⟩ with
  | error f => rw [hl] at hnext; cases hnext
  | ok p =>
    rw [hl] at hnext
    obtain ⟨hspelling, hrest⟩ := Prod.mk.inj (Except.ok.inj hnext)
    have htype : p.1.type = .stringLit := congrArg Prod.fst hspelling
    have hafter := @spellings_congr p.2 ⟨text, 1, 1⟩ hrest
    dsimp only [Bind.bind, Except.bind]
    rw [htype, hspelling, if_neg (by decide), hafter]

theorem tokenize_quoted_quote :
    (·.map Token.spelling) <$> tokenize (quoted (str "\\' -- ") ++ str ", 1") =
      ((.stringLit, str "\\' -- ") :: ·) <$> (·.map Token.spelling) <$> tokenize (str ", 1") :=
  tokenize_quoted (str "\\' -- ") (str ", 1") (by decide)

end Lexer
end JiaMiaoDB
