import JiaMiaoDB.Sql.Layout

/-!
# Printing

A text for every script over valid names: the lexemes with a blank behind each. Lexing and parsing
give the statements back.
-/

set_option autoImplicit false

namespace JiaMiaoDB

open Lexer Parser

/-- The spelling of a keyword or a symbol; nothing for the other types. -/
def TokenType.text (type : TokenType) : Str :=
  match keywords.find? fun p => p.2 = type with
  | some p => p.1
  | none =>
    match symbols.find? fun p => p.2 = type with
    | some p => [p.1]
    | none =>
      match symbolsWithEq.find? fun p => p.2 = type with
      | some p => [p.1, 61]
      | none => []

namespace Lexeme

def print : Lexeme → Str
  | symbol type => type.text
  | word .stringLit s => quoted s
  | word _ text => text

/-- What is printed is a spelling, and a blank may stand behind it. -/
def Printable (x : Lexeme) : Prop := ∃ behind, x.Spells x.print behind ∧ behind 32

end Lexeme

def printedPieces (ls : List Lexeme) : List Piece := ls.map fun x => ⟨x, x.print, [.space 32]⟩

def printLexemes (ls : List Lexeme) : Str := ls.flatMap fun x => x.print ++ [32]

/-- A word that is no keyword. -/
def ValidName (name : Str) : Prop := IsWord name ∧ wordType name = .identifier

def Expression.Valid : Expression → Prop
  | .literal (.string s) => 0 ∉ s
  | .literal _ => True
  | .columnRef name => ValidName name
  | .not e => e.Valid
  | .binary _ left right => left.Valid ∧ right.Valid

def TableItem.Valid : TableItem → Prop
  | column d => ValidName d.name ∧ ValidName d.typeName
  | key name => ValidName name

def StatementSyntax.Valid : StatementSyntax → Prop
  | select columns table filter order _ =>
    (∀ c ∈ columns, ValidName c) ∧ ValidName table ∧ (∀ e ∈ filter, e.Valid) ∧
      ∀ o ∈ order, ValidName o.1
  | insert table columns rows =>
    ValidName table ∧ (∀ c ∈ columns, ValidName c) ∧ ∀ row ∈ rows, ∀ e ∈ row, e.Valid
  | update table sets filter =>
    ValidName table ∧ (∀ a ∈ sets, ValidName a.1 ∧ a.2.Valid) ∧ ∀ e ∈ filter, e.Valid
  | delete table filter => ValidName table ∧ ∀ e ∈ filter, e.Valid
  | createTable name first items =>
    ValidName name ∧ ∀ item ∈ TableItem.column first :: items, item.Valid
  | createIndex indexName table column => ValidName indexName ∧ ValidName table ∧ ValidName column
  | createDatabase name | createSchema name | dropTable name | dropDatabase name | dropUser name
  | useDatabase name => ValidName name
  | createUser name password => ValidName name ∧ 0 ∉ password
  | showDatabases | showUsers | showSchemas => True
  | transaction _ word => ∀ w ∈ word, IsWord w

theorem layoutText_printed (ls : List Lexeme) : layoutText (printedPieces ls) = printLexemes ls := by
  induction ls with
  | nil => rfl
  | cons x ls ih =>
    rw [printLexemes, List.flatMap_cons, ← printLexemes, ← ih, List.append_assoc]
    rfl

theorem printed_lexemes (ls : List Lexeme) : (printedPieces ls).map Piece.lexeme = ls := by
  rw [printedPieces, List.map_map]
  exact List.map_id ls

theorem wellSpaced_printed {ls : List Lexeme} (h : ∀ x ∈ ls, x.Printable) :
    WellSpaced (printedPieces ls) := by
  induction ls with
  | nil => trivial
  | cons x ls ih =>
    obtain ⟨behind, hspells, hbehind⟩ := h x List.mem_cons_self
    refine ⟨⟨behind, hspells, hbehind⟩, ?_, ih fun y hy => h y (List.mem_cons_of_mem x hy)⟩
    intro b hb
    obtain rfl := List.mem_singleton.mp hb
    rfl

/-! ### Printable lexemes -/

theorem keywords_words : ∀ p ∈ keywords,
    (p.1.head?.any fun c => isAlpha c || c = 95) = true ∧ p.1.all isWordChar = true ∧
      wordType p.1 = p.2 := by
  decide +kernel

theorem isWord_of_head {text : Str} (h : (text.head?.any fun c => isAlpha c || c = 95) = true)
    (hall : text.all isWordChar = true) : IsWord text := by
  refine ⟨?_, List.all_eq_true.mp hall⟩
  cases text with
  | nil => exact absurd h (by decide)
  | cons c rest =>
    refine ⟨c, rest, rfl, ?_⟩
    simpa [Bool.or_eq_true] using h

theorem printable_symbol {type : TokenType} (h : type.text ≠ []) : (Lexeme.symbol type).Printable := by
  change ∃ behind, (Lexeme.symbol type).Spells type.text behind ∧ behind 32
  revert h
  unfold TokenType.text
  cases hp : keywords.find? fun p => p.2 = type with
  | some p =>
    intro _
    have htype : p.2 = type := by simpa using List.find?_some hp
    obtain ⟨hfirst, hall, hword⟩ := keywords_words p (List.mem_of_find?_eq_some hp)
    exact ⟨_, .keyword (isWord_of_head hfirst hall) (hword.trans htype), by decide⟩
  | none =>
    dsimp only
    cases hp : symbols.find? fun p => p.2 = type with
    | some p =>
      intro _
      have htype : p.2 = type := by simpa using List.find?_some hp
      refine ⟨_, .symbol (htype ▸ List.mem_of_find?_eq_some hp), ?_⟩
      exact ⟨fun _ => by decide, fun _ => by decide, fun _ => by decide⟩
    | none =>
      dsimp only
      cases hp : symbolsWithEq.find? fun p => p.2 = type with
      | some p =>
        intro _
        have htype : p.2 = type := by simpa using List.find?_some hp
        exact ⟨_, .symbolWithEq (htype ▸ List.mem_of_find?_eq_some hp), trivial⟩
      | none => exact fun h => absurd rfl h

theorem printable_word {text : Str} (h : IsWord text) : (Lexeme.ofWord text).Printable := by
  have hkeywords : TokenType.stringLit ∉ keywords.map Prod.snd := by decide
  have hne : wordType text ≠ .stringLit := by
    rcases wordType_cases text with heq | hmem
    · rw [heq]
      decide
    · exact fun heq => hkeywords (heq ▸ hmem)
  have hprint : (Lexeme.ofWord text).print = text := by
    unfold Lexeme.ofWord Lexeme.print
    split
    · next heq => cases heq
    · next heq => exact absurd (Lexeme.word.inj heq).1 hne
    · next heq => exact ((Lexeme.word.inj heq).2).symm
  refine ⟨fun c => isWordChar c = false, ?_, by decide⟩
  rw [hprint]
  exact .word h rfl

theorem printable_name {name : Str} (h : ValidName name) :
    (Lexeme.word .identifier name).Printable := ⟨_, .word h.1 h.2, by decide⟩

theorem printable_string {s : Str} (h : 0 ∉ s) : (Lexeme.word .stringLit s).Printable :=
  ⟨_, .string h, trivial⟩

theorem isDigits_decimal (n : Nat) : IsDigits (Binary64.decimal n) := by
  refine ⟨Binary64.decimal_ne_nil n, fun c hc => ?_⟩
  obtain ⟨hlo, hhi⟩ := Binary64.mem_decimal hc
  rw [isDigit, decide_eq_true hlo, decide_eq_true hhi]
  rfl

theorem printable_integer (n : Nat) :
    (Lexeme.word .integerLit (Binary64.decimal n)).Printable :=
  ⟨_, .integer (isDigits_decimal n), by decide, by decide⟩

/-! ### Expressions -/

/-- All lexemes of a list. -/
def AllPrintable (ls : List Lexeme) : Prop := ∀ x ∈ ls, x.Printable

namespace AllPrintable
variable {x : Lexeme} {ls ls' : List Lexeme}

theorem nil : AllPrintable [] := fun _ hx => absurd hx List.not_mem_nil

theorem cons (hx : x.Printable) (h : AllPrintable ls) : AllPrintable (x :: ls) :=
  List.forall_mem_cons.mpr ⟨hx, h⟩

theorem append (h : AllPrintable ls) (h' : AllPrintable ls') : AllPrintable (ls ++ ls') :=
  List.forall_mem_append.mpr ⟨h, h'⟩

theorem flatMap {γ : Type} {xs : List γ} {f : γ → List Lexeme} (h : ∀ y ∈ xs, AllPrintable (f y)) :
    AllPrintable (xs.flatMap f) := by
  intro x hx
  obtain ⟨y, hy, hmem⟩ := List.mem_flatMap.mp hx
  exact h y hy x hmem

theorem separated {γ : Type} {xs : List γ} {f : γ → List Lexeme} (h : ∀ y ∈ xs, AllPrintable (f y)) :
    AllPrintable (Parser.separated f xs) := by
  cases xs with
  | nil => exact nil
  | cons y ys =>
    refine (h y List.mem_cons_self).append (flatMap fun z hz => ?_)
    exact .cons (printable_symbol (by decide)) (h z (List.mem_cons_of_mem y hz))

theorem parenthesized (h : AllPrintable ls) : AllPrintable (JiaMiaoDB.parenthesized ls) :=
  .cons (printable_symbol (by decide)) (h.append (.cons (printable_symbol (by decide)) .nil))

theorem name {name : Str} (h : ValidName name) : AllPrintable (nameLexemes name) :=
  .cons (printable_name h) .nil

end AllPrintable

theorem printable_literal {v : Value} (hv : (Expression.literal v).Valid)
    (hplain : (Expression.literal v).Plain) : (renderLiteral v).Printable := by
  cases v with
  | null => exact printable_symbol (by decide)
  | int i => exact printable_integer _
  | double d => exact hplain.elim
  | string s => exact printable_string hv
  | bool b => cases b <;> exact printable_symbol (by decide)

theorem printable_render {e : Expression} (h : e.Valid) (hplain : e.Plain) (l : Nat) :
    AllPrintable (render l e) := by
  induction e generalizing l with
  | literal v => exact .cons (printable_literal h hplain) .nil
  | columnRef name => exact .name h
  | not e ih => exact .cons (printable_symbol (by decide)) (ih h hplain 5)
  | binary op left right ihl ihr =>
    have htoken : (Lexeme.symbol op.token).Printable :=
      printable_symbol (by cases op <;> decide)
    have hbody : AllPrintable (body op left right) :=
      (ihl h.1 hplain.1 _).append (.cons htoken (ihr h.2 hplain.2 _))
    rw [render]
    split
    · exact hbody
    · exact hbody.parenthesized

/-! ### Statements -/

theorem printable_where {filter : Option Expression} (h : ∀ e ∈ filter, e.Valid)
    (hplain : ∀ e ∈ filter, e.Plain) : AllPrintable (whereLexemes filter) := by
  cases filter with
  | none => exact .nil
  | some e => exact .cons (printable_symbol (by decide)) (printable_render (h e rfl) (hplain e rfl) 0)

theorem printable_column {d : ColumnSyntax} (hname : ValidName d.name) (htype : ValidName d.typeName)
    (h : d.Supported) : AllPrintable d.lexemes := by
  refine .cons (printable_word hname.1) (.cons (printable_word htype.1) ?_)
  rcases h with h | h
  · rw [h]
    exact .nil
  · rw [h]
    exact .cons (printable_symbol (by decide)) (.cons (printable_symbol (by decide)) .nil)

theorem printable_item {item : TableItem} (h : item.Valid)
    (hread : ∀ d, item = .column d → d.Named ∧ d.Supported) : AllPrintable item.lexemes := by
  cases item with
  | column d => exact printable_column h.1 h.2 (hread d rfl).2
  | key name =>
    exact .cons (printable_symbol (by decide)) (.cons (printable_symbol (by decide))
      (AllPrintable.name h).parenthesized)

theorem printable_named {kind what : TokenType} {name : Str} (h : ValidName name)
    (hkind : kind.text ≠ []) (hwhat : what.text ≠ []) :
    AllPrintable (.symbol kind :: .symbol what :: nameLexemes name) :=
  .cons (printable_symbol hkind) (.cons (printable_symbol hwhat) (.name h))

theorem printable_select {columns : List Str} {table : Str} {filter : Option Expression}
    {order : Option (Str × Option Direction)} {limit : Option Nat}
    (h : (StatementSyntax.select columns table filter order limit).Valid)
    (hread : ∀ e ∈ filter, e.Plain) :
    AllPrintable (StatementSyntax.select columns table filter order limit).lexemes := by
  obtain ⟨hcolumns, htable, hfilter, horder⟩ := h
  have hnames : AllPrintable (selectColumnLexemes columns) := by
    cases columns with
    | nil => exact .cons (printable_symbol (by decide)) .nil
    | cons c cs => exact .separated fun y hy => .name (hcolumns y hy)
  have horderLexemes : AllPrintable (orderLexemes order) := by
    match order with
    | none => exact .nil
    | some (column, direction) =>
      refine .cons (printable_symbol (by decide)) (.cons (printable_symbol (by decide))
        (.cons (printable_name (horder _ rfl)) ?_))
      match direction with
      | none => exact .nil
      | some .asc => exact .cons (printable_symbol (by decide)) .nil
      | some .desc => exact .cons (printable_symbol (by decide)) .nil
  have hlimit : AllPrintable (limitLexemes limit) := by
    cases limit with
    | none => exact .nil
    | some n => exact .cons (printable_symbol (by decide)) (.cons (printable_integer n) .nil)
  exact .cons (printable_symbol (by decide)) (hnames.append (.cons (printable_symbol (by decide))
    (.cons (printable_name htable) ((printable_where hfilter hread).append
      (horderLexemes.append hlimit)))))

theorem printable_statement {d : StatementSyntax} (h : d.Valid) (hread : d.Readable) :
    AllPrintable d.lexemes := by
  have hsymbol : ∀ {type : TokenType} {ls}, type.text ≠ [] → AllPrintable ls →
      AllPrintable (.symbol type :: ls) := fun htype hls => .cons (printable_symbol htype) hls
  have hname : ∀ {name ls}, ValidName name → AllPrintable ls →
      AllPrintable (.word .identifier name :: ls) := fun hv hls => .cons (printable_name hv) hls
  cases d with
  | select columns table filter order limit => exact printable_select h hread
  | insert table columns rows =>
    obtain ⟨htable, hcolumns, hrows⟩ := h
    have hlist : AllPrintable (columnListLexemes columns) := by
      cases columns with
      | nil => exact .nil
      | cons c cs => exact .parenthesized (.separated fun y hy => .name (hcolumns y hy))
    have hvalues : AllPrintable (separated rowLexemes rows) :=
      .separated fun row hrow => .parenthesized (.separated fun e he =>
        printable_render (hrows row hrow e he) ((hread.2 row hrow).2 e he).1 5)
    exact hsymbol (by decide) (hsymbol (by decide) (hname htable
      (hlist.append (hsymbol (by decide) hvalues))))
  | update table sets filter =>
    obtain ⟨htable, hsets, hfilter⟩ := h
    have hassignments : AllPrintable (separated assignmentLexemes sets) :=
      .separated fun a ha => hname (hsets a ha).1 (hsymbol (by decide)
        (printable_render (hsets a ha).2 (hread.2.1 a ha) 0))
    exact hsymbol (by decide) (hname htable (hsymbol (by decide)
      (hassignments.append (printable_where hfilter hread.2.2))))
  | delete table filter =>
    exact hsymbol (by decide) (hsymbol (by decide) (hname h.1 (printable_where h.2 hread)))
  | createTable name first items =>
    have hitems : AllPrintable (separated TableItem.lexemes (.column first :: items)) := by
      apply AllPrintable.separated
      intro item hitem
      apply printable_item (h.2 item hitem)
      rintro d rfl
      exact hread d hitem
    exact hsymbol (by decide) (hsymbol (by decide) (hname h.1 hitems.parenthesized))
  | createIndex indexName table column =>
    exact hsymbol (by decide) (hsymbol (by decide) (hname h.1 (hsymbol (by decide)
      (hname h.2.1 (AllPrintable.name h.2.2).parenthesized))))
  | createDatabase name => exact printable_named h (by decide) (by decide)
  | createSchema name => exact printable_named h (by decide) (by decide)
  | createUser name password =>
    have hpassword : AllPrintable (.word .password (str "PASSWORD") :: [.word .stringLit password]) :=
      .cons ⟨_, .word (isWord_of_head (by decide) (by decide)) (by decide), by decide⟩
        (.cons (printable_string h.2) .nil)
    exact hsymbol (by decide) (hsymbol (by decide) (hname h.1 (hsymbol (by decide) hpassword)))
  | dropTable name => exact printable_named h (by decide) (by decide)
  | dropDatabase name => exact printable_named h (by decide) (by decide)
  | dropUser name => exact printable_named h (by decide) (by decide)
  | useDatabase name => exact hsymbol (by decide) (.name h)
  | showDatabases => exact hsymbol (by decide) (hsymbol (by decide) .nil)
  | showUsers => exact hsymbol (by decide) (hsymbol (by decide) .nil)
  | showSchemas => exact hsymbol (by decide) (hsymbol (by decide) .nil)
  | transaction command word =>
    refine .cons (printable_symbol (by cases command <;> decide)) ?_
    cases word with
    | none => exact .nil
    | some w => exact .cons (printable_word (h w rfl)) .nil

theorem printable_script {script : List (Option StatementSyntax)}
    (h : ∀ d, some d ∈ script → d.Valid ∧ d.Readable) : AllPrintable (scriptLexemes script) := by
  have hpiece : ∀ d ∈ script, AllPrintable ((d.map StatementSyntax.lexemes).getD []) := by
    intro d hd
    cases d with
    | none => exact .nil
    | some d => exact printable_statement (h d hd).1 (h d hd).2
  clear h
  induction script with
  | nil => exact .nil
  | cons d ds ih =>
    have hrest := ih fun c hc => hpiece c (List.mem_cons_of_mem d hc)
    cases ds with
    | nil => exact hpiece d List.mem_cons_self
    | cons d' ds =>
      exact (hpiece d List.mem_cons_self).append (.cons (printable_symbol (by decide)) hrest)

/-! ### Reading back -/

/-- The lexer and the parser in a row. -/
def parseText (input : Str) : Except Stop (List SqlStatement) :=
  match tokenize input with
  | .error f => .error (.failed f)
  | .ok toks => (parseAll.run ⟨toks, 0⟩).1

/-- A script is read as its statements in every layout. -/
theorem parseText_layout {script : List (Option StatementSyntax)}
    (h : ∀ d, some d ∈ script → d.Readable) {ps : List Piece}
    (hps : ps.map Piece.lexeme = scriptLexemes script) (hspaced : WellSpaced ps) {gap : List Spacing}
    (hgap : ∀ b ∈ gap, b.Closed) :
    parseText (gapText gap ++ layoutText ps) = .ok (scriptStatements script) := by
  obtain ⟨toks, last, htokens, hlast, hspelled⟩ :=
    tokens_layout ps hspaced gap hgap ⟨gapText gap ++ layoutText ps, 1, 1⟩ rfl
  have htokenize : tokenize (gapText gap ++ layoutText ps) = .ok (toks ++ [last]) := htokens
  rw [hps] at hspelled
  rw [parseText, htokenize]
  dsimp only
  rw [takes_parseAll script h ⟨toks ++ [last], 0⟩ toks last [] hspelled rfl hlast]

/-- What is printed for a script is read as its statements. -/
theorem parseText_printed (script : List (Option StatementSyntax))
    (h : ∀ d, some d ∈ script → d.Valid ∧ d.Readable) :
    parseText (printLexemes (scriptLexemes script)) = .ok (scriptStatements script) := by
  have hgap : ∀ b : Spacing, b ∈ [] → b.Closed := fun b hb => absurd hb List.not_mem_nil
  have hlayout := parseText_layout (fun d hd => (h d hd).2)
    (printed_lexemes (scriptLexemes script)) (wellSpaced_printed (printable_script h)) hgap
  rw [layoutText_printed] at hlayout
  exact hlayout

/-- `DELETE FROM t WHERE ( a OR b ) AND c ;` -/
theorem parseText_printed_delete :
    let filter : Expression := .binary .and (.binary .or (.columnRef (str "a"))
      (.columnRef (str "b"))) (.columnRef (str "c"))
    let script : List (Option StatementSyntax) := [some (.delete (str "t") (some filter)), none]
    printLexemes (scriptLexemes script) = str "DELETE FROM t WHERE ( a OR b ) AND c ; " ∧
      parseText (printLexemes (scriptLexemes script)) = .ok (scriptStatements script) := by
  intro filter script
  have hname : ∀ text ∈ [str "t", str "a", str "b", str "c"], ValidName text := by
    intro text htext
    simp only [List.mem_cons, List.not_mem_nil, or_false] at htext
    rcases htext with rfl | rfl | rfl | rfl <;>
      exact ⟨isWord_of_head (by decide) (by decide), by decide⟩
  refine ⟨by decide +kernel, parseText_printed script ?_⟩
  intro d hd
  simp only [script, List.mem_cons, List.not_mem_nil, or_false, reduceCtorEq, Option.some.injEq] at hd
  subst hd
  refine ⟨⟨hname _ (by simp), ?_⟩, ?_⟩
  · rintro e ⟨⟩
    exact ⟨⟨hname _ (by simp), hname _ (by simp)⟩, hname _ (by simp)⟩
  · rintro e ⟨⟩
    exact ⟨⟨trivial, trivial⟩, trivial⟩

end JiaMiaoDB
