import JiaMiaoDB.Sql.StatementGrammar
import JiaMiaoDB.Sql.StringLiteral

/-!
# Layout

How lexemes are written as text: each in one of its spellings, with any blanks and comments between
them. The lexer gives the lexemes back whatever the layout is.
-/

set_option autoImplicit false

namespace JiaMiaoDB

/-- What may stand between two lexemes. -/
inductive Spacing where
  | space (c : UInt8)
  | line (text : Str)
  | block (text : Str)

namespace Spacing

def text : Spacing → Str
  | space c => [c]
  | line text => 45 :: 45 :: (text ++ [10])
  | block text => 47 :: 42 :: (text ++ [42, 47])

/-- Nothing inside a comment ends it. -/
def Closed : Spacing → Prop
  | space c => Lexer.isSpace c = true
  | line text => 10 ∉ text ∧ 0 ∉ text
  | block text => ¬ [42, 47] <:+: text

end Spacing

def gapText (gap : List Spacing) : Str := gap.flatMap Spacing.text

/-- A word: letters, digits and underscores, no digit in front. -/
def IsWord (text : Str) : Prop :=
  (∃ c rest, text = c :: rest ∧ (Lexer.isAlpha c = true ∨ c = 95)) ∧
    ∀ c ∈ text, Lexer.isWordChar c = true

def IsDigits (text : Str) : Prop := text ≠ [] ∧ ∀ c ∈ text, Lexer.isDigit c = true

/-- The texts of a lexeme, with the bytes that may stand directly behind. -/
inductive Lexeme.Spells : Lexeme → Str → (UInt8 → Prop) → Prop
  | keyword {text : Str} {type : TokenType} (h : IsWord text) (h' : Lexer.wordType text = type) :
      Spells (.symbol type) text fun c => Lexer.isWordChar c = false
  | word {text : Str} {type : TokenType} (h : IsWord text) (h' : Lexer.wordType text = type) :
      Spells (.word type text) text fun c => Lexer.isWordChar c = false
  | integer {text : Str} (h : IsDigits text) :
      Spells (.word .integerLit text) text fun c => Lexer.isDigit c = false ∧ c ≠ 46
  | float {whole part : Str} (h : IsDigits whole) (h' : ∀ c ∈ part, Lexer.isDigit c = true) :
      Spells (.word .floatLit (whole ++ 46 :: part)) (whole ++ 46 :: part)
        fun c => Lexer.isDigit c = false
  | string {s : Str} (h : 0 ∉ s) : Spells (.word .stringLit s) (Lexer.quoted s) fun _ => True
  | symbol {b : UInt8} {type : TokenType} (h : (b, type) ∈ Lexer.symbols) :
      Spells (.symbol type) [b] fun c =>
        (b = 60 ∨ b = 62 → c ≠ 61) ∧ (b = 45 → c ≠ 45) ∧ (b = 47 → c ≠ 42)
  | symbolWithEq {b : UInt8} {type : TokenType} (h : (b, type) ∈ Lexer.symbolsWithEq) :
      Spells (.symbol type) [b, 61] fun _ => True

/-- A lexeme as it is written, and the gap behind it. -/
structure Piece where
  lexeme : Lexeme
  text : Str
  gap : List Spacing

def layoutText : List Piece → Str
  | [] => []
  | p :: ps => p.text ++ (gapText p.gap ++ layoutText ps)

/-- Every piece spells its lexeme and ends where its text does. -/
def WellSpaced : List Piece → Prop
  | [] => True
  | p :: ps =>
    (∃ behind, p.lexeme.Spells p.text behind ∧ behind ((gapText p.gap ++ layoutText ps).headD 0)) ∧
      (∀ b ∈ p.gap, b.Closed) ∧ WellSpaced ps

namespace Lexer

/-! ### Spacing -/

section
variable {l l' : Lexer} {rest : Str}

theorem advance_skip {c : UInt8} (h : l.rest = c :: rest) (hc : isSpace c = true) :
    l.skipWhitespace = l.advance.skipWhitespace := by
  have hadvance : l.advance.rest = rest := by rw [advance_rest, h, List.tail_cons]
  unfold skipWhitespace
  rw [hadvance, h, List.takeWhile_cons_of_pos hc, List.length_cons]
  rfl

theorem next_of_skip (h : l.skipWhitespace = l'.skipWhitespace) : l.next = l'.next := by
  rw [next.eq_def l, next.eq_def l', h]

theorem blockCommentLength_eq {text : Str} (h : ¬ [42, 47] <:+: text) (more : Str) :
    blockCommentLength (text ++ 42 :: 47 :: more) = some (text.length + 2) := by
  induction text with
  | nil => rfl
  | cons c text ih =>
    have hih := ih fun hinner => h (hinner.trans (List.infix_cons (List.infix_refl text)))
    cases text with
    | nil =>
      have hne : ¬ (c = 42 ∧ (42 : UInt8) = 47) := fun h => absurd h.2 (by decide)
      rw [List.cons_append, List.nil_append, blockCommentLength, if_neg hne]
      rfl
    | cons d text =>
      have hne : ¬ (c = 42 ∧ d = 47) := by
        rintro ⟨rfl, rfl⟩
        exact h ⟨[], text, rfl⟩
      rw [List.cons_append, List.cons_append, blockCommentLength, if_neg hne, ← List.cons_append, hih]
      rfl

theorem skipWhitespace_of_head {c : UInt8} (h : l.rest = c :: rest) (hc : isSpace c = false) :
    l.skipWhitespace.rest = c :: rest := by
  rw [skipWhitespace_rest, h, List.dropWhile_cons_of_neg (by rw [hc]; decide)]

/-- The lexer goes over a blank. -/
theorem next_spacing {b : Spacing} (hb : b.Closed) (h : l.rest = b.text ++ rest) :
    ∃ m : Lexer, m.rest = rest ∧ l.next = m.next := by
  have hspace : ∀ {l : Lexer} {c : UInt8}, l.rest = c :: rest → isSpace c = true →
      l.advance.rest = rest ∧ l.next = l.advance.next := by
    intro l c hl hc
    rw [advance_rest, hl]
    exact ⟨rfl, next_of_skip (advance_skip hl hc)⟩
  cases b with
  | space c => exact ⟨_, hspace h hb⟩
  | line text =>
    obtain ⟨hnewline, hnul⟩ := hb
    have hskip : l.skipWhitespace.rest = 45 :: 45 :: (text ++ 10 :: rest) := by
      apply skipWhitespace_of_head ?_ (by decide)
      rw [h, Spacing.text, List.cons_append, List.cons_append, List.append_assoc]
      rfl
    have hplain : ∀ c ∈ 45 :: 45 :: text, (c ≠ 10 && c ≠ 0) = true := by
      intro c hc
      simp only [List.mem_cons] at hc
      rcases hc with rfl | rfl | hc
      · decide
      · decide
      · have h10 : c ≠ 10 := fun heq => hnewline (heq ▸ hc)
        have h0 : c ≠ 0 := fun heq => hnul (heq ▸ hc)
        simp [h10, h0]
    have hcomment : l.skipWhitespace.skipLineComment.rest = 10 :: rest := by
      rw [skipLineComment, advanceBy_rest, drop_length_takeWhile, hskip]
      change ((45 :: 45 :: text) ++ 10 :: rest).dropWhile _ = _
      rw [List.dropWhile_append_of_pos hplain]
      rfl
    obtain ⟨hrest, hnext⟩ := hspace hcomment (by decide)
    exact ⟨_, hrest, (next_lineComment hskip).trans hnext⟩
  | block text =>
    have hskip : l.skipWhitespace.rest = 47 :: 42 :: (text ++ 42 :: 47 :: rest) := by
      apply skipWhitespace_of_head ?_ (by decide)
      rw [h, Spacing.text, List.cons_append, List.cons_append, List.append_assoc]
      rfl
    have hopen : (l.skipWhitespace.advanceBy 2).rest = text ++ 42 :: 47 :: rest := by
      rw [advanceBy_rest, hskip]
      rfl
    have hclose : (l.skipWhitespace.advanceBy 2).skipBlockComment =
        .ok ((l.skipWhitespace.advanceBy 2).advanceBy (text.length + 2)) := by
      rw [skipBlockComment, hopen, blockCommentLength_eq hb]
    refine ⟨_, ?_, (next_blockComment hskip).trans (by rw [hclose]; rfl)⟩
    rw [advanceBy_rest, hopen, ← List.drop_drop, List.drop_left]
    rfl

theorem next_gap {gap : List Spacing} (hgap : ∀ b ∈ gap, b.Closed) (h : l.rest = gapText gap ++ rest) :
    ∃ m : Lexer, m.rest = rest ∧ l.next = m.next := by
  induction gap generalizing l with
  | nil => exact ⟨l, h, rfl⟩
  | cons b gap ih =>
    rw [gapText, List.flatMap_cons, List.append_assoc] at h
    obtain ⟨m, hm, hnext⟩ := next_spacing (hgap b List.mem_cons_self) h
    obtain ⟨m', hm', hnext'⟩ := ih (fun b hb => hgap b (List.mem_cons_of_mem _ hb)) hm
    exact ⟨m', hm', hnext.trans hnext'⟩

end

/-! ### Lexemes -/

section
variable {l : Lexer} {after : Str}

theorem takeWhile_eq {p : UInt8 → Bool} {text : Str} (h : ∀ c ∈ text, p c = true)
    (hafter : p (after.headD 0) = false) : (text ++ after).takeWhile p = text := by
  rw [List.takeWhile_append_of_pos h]
  cases after with
  | nil => exact List.append_nil text
  | cons c after =>
    rw [List.takeWhile_cons_of_neg (by rw [List.headD_cons] at hafter; rw [hafter]; decide),
      List.append_nil]

/-- What `readToken` gives from here on: the kind and the text of a token, and the input behind. -/
def Gives (l : Lexer) (spelling : TokenType × Str) (after : Str) : Prop :=
  unplaced l.readToken = (spelling, after)

theorem gives_makeToken {text : Str} (hl : l.rest = text ++ after) (type : TokenType) (text' : Str) :
    unplaced (makeToken type text' (l.advanceBy text.length)) = ((type, text'), after) := by
  rw [unplaced, makeToken, advanceBy_rest, hl, List.drop_left]
  rfl

theorem gives_word {text : Str} (h : IsWord text) (hafter : isWordChar (after.headD 0) = false)
    (hl : l.rest = text ++ after) : l.Gives (wordType text, text) after := by
  obtain ⟨⟨c, rest, hc, hfirst⟩, hall⟩ := h
  have hpeek : l.peekChar = c := by rw [peekChar, hl, hc]; rfl
  have hread : l.readToken = l.readIdentifier := by
    unfold readToken
    dsimp only
    rw [hpeek, if_pos hfirst]
  unfold Gives
  rw [hread, readIdentifier, hl, takeWhile_eq hall hafter]
  exact gives_makeToken hl _ _

theorem isDigit_not_alpha {c : UInt8} (h : isDigit c = true) : ¬ (isAlpha c = true ∨ c = 95) := by
  unfold isDigit at h
  unfold isAlpha
  simp only [Bool.and_eq_true, Bool.or_eq_true, decide_eq_true_eq, UInt8.le_iff_toNat_le] at *
  change 48 ≤ c.toNat ∧ c.toNat ≤ 57 at h
  rintro (hletter | rfl)
  · change (65 ≤ c.toNat ∧ c.toNat ≤ 90) ∨ (97 ≤ c.toNat ∧ c.toNat ≤ 122) at hletter
    omega
  · exact absurd h (by decide)

theorem readToken_digits {whole more : Str} (h : IsDigits whole) (hl : l.rest = whole ++ more) :
    l.readToken = l.readNumber := by
  obtain ⟨c, rest, rfl⟩ := List.exists_cons_of_ne_nil h.1
  have hc := h.2 c List.mem_cons_self
  have hpeek : l.peekChar = c := by rw [peekChar, hl]; rfl
  unfold readToken
  dsimp only
  rw [hpeek, if_neg (isDigit_not_alpha hc), if_pos hc]

theorem gives_integer {text : Str} (h : IsDigits text)
    (hafter : isDigit (after.headD 0) = false ∧ after.headD 0 ≠ 46) (hl : l.rest = text ++ after) :
    l.Gives (.integerLit, text) after := by
  unfold Gives
  rw [readToken_digits h hl, readNumber, hl, takeWhile_eq h.2 hafter.1, List.drop_left]
  dsimp only
  split
  · next rest => exact absurd rfl hafter.2
  · exact gives_makeToken hl _ _

theorem gives_float {whole part : Str} (h : IsDigits whole) (h' : ∀ c ∈ part, isDigit c = true)
    (hafter : isDigit (after.headD 0) = false) (hl : l.rest = (whole ++ 46 :: part) ++ after) :
    l.Gives (.floatLit, whole ++ 46 :: part) after := by
  have hl' : l.rest = whole ++ (46 :: (part ++ after)) := by rw [hl, List.append_assoc]; rfl
  have hwhole : l.rest.takeWhile isDigit = whole := by
    rw [hl']
    exact takeWhile_eq h.2 (show isDigit 46 = false by decide)
  unfold Gives
  rw [readToken_digits h hl', readNumber, hwhole, hl', List.drop_left]
  change unplaced (makeToken .floatLit (whole ++ 46 :: (part ++ after).takeWhile isDigit)
    (l.advanceBy (whole ++ 46 :: (part ++ after).takeWhile isDigit).length)) = _
  rw [takeWhile_eq h' hafter]
  exact gives_makeToken hl _ _

theorem gives_string {s : Str} (h : 0 ∉ s) (hl : l.rest = quoted s ++ after) :
    l.Gives (.stringLit, s) after := by
  have hl' : l.rest = 39 :: (escape s ++ 39 :: after) := by
    rw [hl, quoted, List.append_assoc]
    rfl
  have hread : l.readToken = l.readString := by
    rw [readToken, peekChar, hl']
    rfl
  unfold Gives
  rw [hread, readString, hl', List.tail_cons, stringBody_escape h]
  have hlen : (escape s).length + 1 + 1 = (quoted s).length := by
    rw [quoted, List.length_append, List.length_cons, List.length_singleton]
  dsimp only
  rw [hlen]
  exact gives_makeToken hl _ _

/-- Neither a word, a number nor a string starts with it. -/
def IsSymbolByte (c : UInt8) : Prop :=
  isAlpha c = false ∧ c ≠ 95 ∧ isDigit c = false ∧ c ≠ 39

instance (c : UInt8) : Decidable (IsSymbolByte c) := by unfold IsSymbolByte; infer_instance

theorem gives_symbol {c : UInt8} {rest text : Str} {type : TokenType} (hc : IsSymbolByte c)
    (hsymbol : symbol c (rest.headD 0) = (type, text)) (hl : l.rest = c :: rest)
    (hafter : text ++ after = c :: rest) : l.Gives (type, text) after := by
  obtain ⟨halpha, hunderscore, hdigit, hquote⟩ := hc
  have hpeek : l.peekChar = c := by rw [peekChar, hl]; rfl
  have hpeek' : l.advance.peekChar = rest.headD 0 := by rw [peekChar, advance_rest, hl]; rfl
  have hread : l.readToken = l.readSymbol := by
    unfold readToken
    dsimp only
    rw [hpeek, halpha, hdigit, if_neg (by simp [hunderscore]), if_neg (by decide), if_neg hquote]
  unfold Gives
  rw [hread, readSymbol, hpeek, hpeek', hsymbol]
  exact gives_makeToken (hl.trans hafter.symm) _ _

theorem symbols_lookup : ∀ p ∈ symbols, symbols.lookup p.1 = some p.2 ∧
    (¬ (p.1 = 60 ∨ p.1 = 62) → symbolsWithEq.lookup p.1 = none) := by decide

theorem symbol_eq {b d : UInt8} {type : TokenType} (h : (b, type) ∈ symbols)
    (hd : b = 60 ∨ b = 62 → d ≠ 61) : symbol b d = (type, [b]) := by
  obtain ⟨hlookup, hnone⟩ := symbols_lookup _ h
  have hlong : (if d = 61 then symbolsWithEq.lookup b else none) = none := by
    split
    · next heq => exact hnone fun hb => hd hb heq
    · rfl
  rw [symbol, hlong, hlookup]
  rfl

theorem symbolWithEq_eq : ∀ p ∈ symbolsWithEq, symbol p.1 61 = (p.2, [p.1, 61]) := by decide

/-- A byte that a lexeme may start with: neither a blank nor the end. -/
def Starting (c : UInt8) : Prop := isSpace c = false ∧ c ≠ 0

instance (c : UInt8) : Decidable (Starting c) := by unfold Starting; infer_instance

theorem symbols_starting : ∀ p ∈ symbols, Starting p.1 ∧ IsSymbolByte p.1 ∧ p.2 ≠ .end := by decide

theorem symbolsWithEq_starting :
    ∀ p ∈ symbolsWithEq, Starting p.1 ∧ IsSymbolByte p.1 ∧ p.1 ≠ 45 ∧ p.1 ≠ 47 ∧ p.2 ≠ .end := by
  decide

theorem starting_of_le {c : UInt8} (h : 48 ≤ c.toNat) : Starting c ∧ c ≠ 45 ∧ c ≠ 47 := by
  have hne : ∀ d : UInt8, d.toNat < 48 → c ≠ d := by
    rintro d hd rfl
    omega
  refine ⟨⟨?_, hne 0 (by decide)⟩, hne 45 (by decide), hne 47 (by decide)⟩
  have h32 : (c = 32) = False := eq_false (hne 32 (by decide))
  have h13 : (c ≤ 13) = False := eq_false fun hle => by
    rw [UInt8.le_iff_toNat_le] at hle
    change c.toNat ≤ 13 at hle
    omega
  unfold isSpace
  simp [h32, h13]

theorem starting_of_digit {c : UInt8} (h : isDigit c = true) : Starting c ∧ c ≠ 45 ∧ c ≠ 47 := by
  simp only [isDigit, Bool.and_eq_true, decide_eq_true_eq, UInt8.le_iff_toNat_le] at h
  exact starting_of_le h.1

theorem starting_of_letter {c : UInt8} (h : isAlpha c = true ∨ c = 95) :
    Starting c ∧ c ≠ 45 ∧ c ≠ 47 := by
  apply starting_of_le
  rcases h with h | rfl
  · simp only [isAlpha, Bool.or_eq_true, Bool.and_eq_true, decide_eq_true_eq,
      UInt8.le_iff_toNat_le] at h
    change (65 ≤ c.toNat ∧ _) ∨ (97 ≤ c.toNat ∧ _) at h
    omega
  · decide

/-- A token that does not start as a comment does. -/
theorem next_of_gives {c : UInt8} {rest : Str} {spelling : TokenType × Str}
    (hl : l.rest = c :: rest) (hc : Starting c) (hline : c = 45 → rest.headD 0 ≠ 45)
    (hblock : c = 47 → rest.headD 0 ≠ 42)
    (h : ∀ m : Lexer, m.rest = l.rest → m.Gives spelling after) :
    ∃ t m, l.next = .ok (t, m) ∧ t.spelling = spelling ∧ m.rest = after := by
  have hskip := skipWhitespace_of_head hl hc.1
  have hhead : ∀ {d : UInt8}, rest.head? = some d → rest.headD 0 = d := by
    intro d hd
    rw [List.headD_eq_head?_getD, hd]
    rfl
  have hnext := next_token hskip hc.2 (fun h => hline h.1 (hhead h.2))
    (fun h => hblock h.1 (hhead h.2))
  have hgives := h l.skipWhitespace (hskip.trans hl.symm)
  exact ⟨_, _, hnext, congrArg Prod.fst hgives, congrArg Prod.snd hgives⟩

theorem wordType_cases (text : Str) :
    wordType text = .identifier ∨ wordType text ∈ keywords.map Prod.snd := by
  unfold wordType
  cases hlookup : keywords.lookup (DataType.toUpper text) with
  | none => exact .inl rfl
  | some type =>
    obtain ⟨l₁, l₂, hkeys, -⟩ := List.lookup_eq_some_iff.mp hlookup
    right
    rw [hkeys, List.map_append, List.map_cons]
    exact List.mem_append_right _ List.mem_cons_self

theorem wordType_ne_end (text : Str) : wordType text ≠ .end := by
  have hkeywords : TokenType.end ∉ keywords.map Prod.snd := by decide
  rcases wordType_cases text with h | h
  · rw [h]
    decide
  · exact fun heq => hkeywords (heq ▸ h)

/-- A lexeme in any of its spellings is read as itself. -/
theorem next_lexeme {x : Lexeme} {text : Str} {behind : UInt8 → Prop} (h : x.Spells text behind)
    (hbehind : behind (after.headD 0)) (hl : l.rest = text ++ after) :
    ∃ t m, l.next = .ok (t, m) ∧ x.Is t ∧ t.type ≠ .end ∧ m.rest = after := by
  have hword : ∀ {text : Str}, IsWord text → isWordChar (after.headD 0) = false →
      l.rest = text ++ after → ∃ t m, l.next = .ok (t, m) ∧ t.spelling = (wordType text, text) ∧
        m.rest = after := by
    intro text hword hafter hl
    obtain ⟨c, rest, rfl, hfirst⟩ := hword.1
    obtain ⟨hc, hline, hblock⟩ := starting_of_letter hfirst
    exact next_of_gives hl hc (fun h => absurd h hline) (fun h => absurd h hblock)
      fun m hm => gives_word hword hafter (hm.trans hl)
  cases h with
  | keyword htext hkind =>
    obtain ⟨t, m, hnext, hspelling, hm⟩ := hword htext hbehind hl
    have htype : t.type = wordType text := congrArg Prod.fst hspelling
    exact ⟨t, m, hnext, htype.trans hkind, htype ▸ wordType_ne_end text, hm⟩
  | word htext hkind =>
    obtain ⟨t, m, hnext, hspelling, hm⟩ := hword htext hbehind hl
    have htype : t.type = wordType text := congrArg Prod.fst hspelling
    exact ⟨t, m, hnext, ⟨htype.trans hkind, congrArg Prod.snd hspelling⟩,
      htype ▸ wordType_ne_end text, hm⟩
  | integer htext =>
    obtain ⟨c, rest, rfl⟩ := List.exists_cons_of_ne_nil htext.1
    obtain ⟨hc, hline, hblock⟩ := starting_of_digit (htext.2 c List.mem_cons_self)
    obtain ⟨t, m, hnext, hspelling, hm⟩ := next_of_gives hl hc (fun h => absurd h hline)
      (fun h => absurd h hblock) fun m hm => gives_integer htext hbehind (hm.trans hl)
    have htype : t.type = .integerLit := congrArg Prod.fst hspelling
    exact ⟨t, m, hnext, ⟨htype, congrArg Prod.snd hspelling⟩, by rw [htype]; decide, hm⟩
  | @float whole part hwhole hpart =>
    obtain ⟨c, rest, rfl⟩ := List.exists_cons_of_ne_nil hwhole.1
    obtain ⟨hc, hline, hblock⟩ := starting_of_digit (hwhole.2 c List.mem_cons_self)
    obtain ⟨t, m, hnext, hspelling, hm⟩ := next_of_gives hl hc (fun h => absurd h hline)
      (fun h => absurd h hblock) fun m hm => gives_float hwhole hpart hbehind (hm.trans hl)
    have htype : t.type = .floatLit := congrArg Prod.fst hspelling
    exact ⟨t, m, hnext, ⟨htype, congrArg Prod.snd hspelling⟩, by rw [htype]; decide, hm⟩
  | string htext =>
    obtain ⟨t, m, hnext, hspelling, hm⟩ := next_of_gives hl (by decide) (fun h => absurd h (by decide))
      (fun h => absurd h (by decide)) fun m hm => gives_string htext (hm.trans hl)
    have htype : t.type = .stringLit := congrArg Prod.fst hspelling
    exact ⟨t, m, hnext, ⟨htype, congrArg Prod.snd hspelling⟩, by rw [htype]; decide, hm⟩
  | @symbol b type hmem =>
    obtain ⟨hstarting, hbyte, hend⟩ := symbols_starting _ hmem
    have hsymbol := symbol_eq hmem hbehind.1
    obtain ⟨t, m, hnext, hspelling, hm⟩ := next_of_gives hl hstarting hbehind.2.1 hbehind.2.2
      fun m hm => gives_symbol hbyte hsymbol (hm.trans hl) rfl
    have htype : t.type = type := congrArg Prod.fst hspelling
    exact ⟨t, m, hnext, htype, htype ▸ hend, hm⟩
  | @symbolWithEq b type hmem =>
    obtain ⟨hstarting, hbyte, hline, hblock, hend⟩ := symbolsWithEq_starting _ hmem
    have hsymbol : symbol b ((61 :: after).headD 0) = (type, [b, 61]) := symbolWithEq_eq _ hmem
    obtain ⟨t, m, hnext, hspelling, hm⟩ := next_of_gives hl hstarting (fun h => absurd h hline)
      (fun h => absurd h hblock)
      fun m hm => gives_symbol hbyte hsymbol (hm.trans hl) rfl
    have htype : t.type = type := congrArg Prod.fst hspelling
    exact ⟨t, m, hnext, htype, htype ▸ hend, hm⟩

end

/-! ### Texts -/

theorem tokens_last {l m : Lexer} {t : Token} (h : l.next = .ok (t, m)) (ht : t.type = .end) :
    l.tokens = .ok [t] := by
  rw [tokens]
  split
  · next f hf => rw [h] at hf; cases hf
  · next t' m' hnext =>
    rw [h] at hnext
    cases hnext
    rw [dif_pos ht]

theorem tokens_cons {l m : Lexer} {t : Token} {ts : List Token} (h : l.next = .ok (t, m))
    (ht : t.type ≠ .end) (hm : m.tokens = .ok ts) : l.tokens = .ok (t :: ts) := by
  rw [tokens]
  split
  · next f hf => rw [h] at hf; cases hf
  · next t' m' hnext =>
    rw [h] at hnext
    cases hnext
    rw [dif_neg ht, hm]
    rfl

theorem tokens_layout (ps : List Piece) (hps : WellSpaced ps) (gap : List Spacing)
    (hgap : ∀ b ∈ gap, b.Closed) (l : Lexer) (hl : l.rest = gapText gap ++ layoutText ps) :
    ∃ toks last, l.tokens = .ok (toks ++ [last]) ∧ last.type = .end ∧
      Spelled (ps.map Piece.lexeme) toks := by
  induction ps generalizing gap l with
  | nil =>
    obtain ⟨m, hm, hnext⟩ := next_gap hgap hl
    have hend : m.skipWhitespace.peekChar = 0 := by
      rw [peekChar, skipWhitespace_rest, hm]
      rfl
    rw [next_end hend] at hnext
    exact ⟨[], _, tokens_last hnext rfl, rfl, .nil⟩
  | cons p ps ih =>
    obtain ⟨⟨behind, hspells, hbehind⟩, hclosed, hrest⟩ := hps
    obtain ⟨m, hm, hnext⟩ := next_gap hgap hl
    obtain ⟨t, m', hnext', hx, ht, hm'⟩ := next_lexeme hspells hbehind hm
    obtain ⟨toks, last, htokens, hlast, hspelled⟩ := ih hrest p.gap hclosed m' hm'
    exact ⟨t :: toks, last, tokens_cons (hnext.trans hnext') ht htokens, hlast, .cons hx hspelled⟩

/-- Whatever spellings, blanks and comments a text is written with, its tokens are the lexemes. -/
theorem tokenize_layout (ps : List Piece) (hps : WellSpaced ps) (gap : List Spacing)
    (hgap : ∀ b ∈ gap, b.Closed) :
    ∃ toks last, tokenize (gapText gap ++ layoutText ps) = .ok (toks ++ [last]) ∧ last.type = .end ∧
      Spelled (ps.map Piece.lexeme) toks :=
  tokens_layout ps hps gap hgap ⟨gapText gap ++ layoutText ps, 1, 1⟩ rfl

/-- `/* x */commit<=1;` -/
theorem tokenize_layout_comment :
    let ps : List Piece := [⟨.symbol .commit, str "commit", []⟩, ⟨.symbol .le, str "<=", []⟩,
      ⟨.word .integerLit (str "1"), str "1", []⟩, ⟨.symbol .semicolon, str ";", []⟩]
    ∃ toks last, tokenize (gapText [.block (str " x ")] ++ layoutText ps) = .ok (toks ++ [last]) ∧
      last.type = .end ∧ Spelled (ps.map Piece.lexeme) toks := by
  intro ps
  have hword : IsWord (str "commit") := ⟨⟨99, str "ommit", rfl, by decide +kernel⟩, by decide +kernel⟩
  have hdigits : IsDigits (str "1") := ⟨by decide, by decide +kernel⟩
  have hnone : ∀ b : Spacing, b ∈ [] → b.Closed := fun _ hb => absurd hb (by simp)
  refine tokenize_layout ps ⟨⟨_, .keyword hword (by decide +kernel), by decide +kernel⟩, hnone, ?_⟩ _ ?_
  · exact ⟨⟨_, .symbolWithEq (b := 60) (by decide), trivial⟩, hnone,
      ⟨_, .integer hdigits, by decide⟩, hnone, ⟨_, .symbol (b := 59) (by decide), by decide⟩, hnone,
      trivial⟩
  · intro b hb
    obtain rfl := List.mem_singleton.mp hb
    exact (by decide : ¬ [42, 47] <:+: str " x ")

end Lexer
end JiaMiaoDB
