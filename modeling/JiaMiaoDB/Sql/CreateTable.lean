import JiaMiaoDB.Sql.StatementGrammar

/-!
# Which tables parse

A definition that is not read whole leaves a constraint in front of the parser, and the loop over the
columns ends there, where neither a comma nor the closing parenthesis stands.
-/

set_option autoImplicit false

namespace JiaMiaoDB
namespace Parser
variable {name : Str} {ds : List ColumnSyntax}

theorem takes_noColumn {x : Lexeme} (hx : x.type = .not ∨ x.type = .primary) {n : Nat} (hn : 0 < n) :
    Takes (whileComma parseColumnOrKey n) [] [] (· = x.type) := by
  refine .whileComma_stop hn ?_
  rintro type rfl
  rcases hx with hx | hx <;> rw [hx] <;> decide

/-- The loop ends in front of the first constraint that is left. The induction is on the columns: the
supported ones are read whole. -/
theorem takes_columns (hds : ∀ d ∈ ds, d.Named) (h : ∃ d ∈ ds, ¬ d.Supported) :
    ∃ ls x ls' cols, (ds.flatMap fun d => .symbol .comma :: d.lexemes) =
        .symbol .comma :: ls ++ x :: ls' ∧ (x.type = .not ∨ x.type = .primary) ∧
      ∀ n, ds.length < n →
        Takes (whileComma parseColumnOrKey n) (.symbol .comma :: ls) cols (· = x.type) := by
  induction ds with
  | nil =>
    obtain ⟨d, hd, -⟩ := h
    cases hd
  | cons d ds ih =>
    have hd := hds d List.mem_cons_self
    by_cases hsupported : d.Supported
    · have hrest : ∃ d ∈ ds, ¬ d.Supported := by
        obtain ⟨c, hc, hnot⟩ := h
        rcases List.mem_cons.mp hc with rfl | hc
        · exact absurd hsupported hnot
        · exact ⟨c, hc, hnot⟩
      obtain ⟨ls, x, ls', cols, hls, hx, htakes⟩ :=
        ih (fun c hc => hds c (List.mem_cons_of_mem d hc)) hrest
      refine ⟨d.lexemes ++ .symbol .comma :: ls, x, ls', some d.column :: cols, ?_, hx, ?_⟩
      · rw [List.flatMap_cons, hls]
        simp only [List.cons_append, List.append_assoc]
      · intro n hn
        obtain ⟨n, rfl⟩ := Nat.exists_eq_succ_of_ne_zero (by omega : n ≠ 0)
        rw [List.length_cons] at hn
        exact .whileComma_next (takes_columnOrKey hd.1 (takes_column hd hsupported))
          (htakes n (by omega)) (.inl rfl)
    · obtain ⟨x, ls', hleft, hx, hends⟩ := unread_head hsupported
      refine ⟨readLexemes d, x, ls' ++ ds.flatMap fun d => .symbol .comma :: d.lexemes,
        [some (readColumn d)], ?_, hx, ?_⟩
      · rw [List.flatMap_cons, lexemes_eq, hleft]
        simp only [List.cons_append, List.append_assoc]
      · intro n hn
        obtain ⟨n, rfl⟩ := Nat.exists_eq_succ_of_ne_zero (by omega : n ≠ 0)
        rw [List.length_cons] at hn
        rw [← List.append_nil (readLexemes d)]
        refine .whileComma_next (takes_columnOrKey hd.1 (takes_readColumn hd))
          (takes_noColumn hx (by omega)) ?_
        rintro type rfl
        exact hends

/-- A constraint stands where the list of columns is to be closed. -/
theorem fails_rparen {α : Type} {f : Token → ParserM α} {ls : List Lexeme} {x : Lexeme}
    (hx : x.type = .not ∨ x.type = .primary) (errorMsg : String) :
    Fails (expect .rparen errorMsg >>= f) (x :: ls) anyType := by
  have hne : x.type ≠ .rparen := by rcases hx with hx | hx <;> rw [hx] <;> decide
  exact .first (.expect (show Starts (x :: ls) anyType (· ≠ .rparen) from hne) errorMsg)

/-- Without a column, or with one that is not supported, the parser ends in an error. -/
theorem fails_createTable (hname : Lexer.wordType name = .identifier) (hds : ∀ d ∈ ds, d.Named)
    (h : ¬ (ds ≠ [] ∧ ∀ d ∈ ds, d.Supported)) :
    Fails parseCreateTable
      (.ofWord name :: .symbol .lparen :: (columnLexemes ds ++ [.symbol .rparen])) anyType := by
  rw [Lexeme.ofWord, hname]
  refine .name_then (.expect_then (by decide) ?_)
  cases ds with
  | nil =>
    have hrparen : Starts [Lexeme.symbol .rparen] anyType (· ≠ .identifier) := .symbol (by decide)
    exact .first (.first (.expectName hrparen _))
  | cons d ds =>
    have hd := hds d List.mem_cons_self
    by_cases hsupported : d.Supported
    · have hrest : ∃ c ∈ ds, ¬ c.Supported := by
        simpa [hsupported] using h
      obtain ⟨ls, x, ls', cols, hls, hx, htakes⟩ :=
        takes_columns (fun c hc => hds c (List.mem_cons_of_mem d hc)) hrest
      rw [columnLexemes, hls, List.append_assoc, List.append_assoc]
      refine .bind (takes_column hd hsupported) (.fuel fun n hn => ?_) (.inl rfl)
      have hlen : ds.length ≤ (ds.flatMap fun d => .symbol .comma :: d.lexemes).length :=
        Takes.length_le_flatMap ds
      rw [hls, List.length_append] at hlen
      rw [List.length_append, List.length_append] at hn
      exact .bind (htakes n (by omega)) (fails_rparen hx _) rfl
    · obtain ⟨x, ls', hleft, hx, hends⟩ := unread_head hsupported
      rw [columnLexemes, lexemes_eq, hleft, List.append_assoc, List.append_assoc]
      refine .bind (takes_readColumn hd) (.fuel fun n hn => ?_) hends
      exact .bind_nil (takes_noColumn hx (by omega)) (fails_rparen hx _) rfl

/-- The head of the statement. -/
theorem parseStatement_create {s : Parser} {u v : Token} {rest : List Token} (hu : u.type = .create)
    (hv : v.type = .table) (h : s.Ahead (u :: v :: rest)) :
    parseStatement.run s = parseCreateTable.run ((s.forward 1).forward 1) := by
  have hcreate := expect_hit h (by rw [hu]; decide) "期望 CREATE"
  have htable := expect_hit h.next (by rw [hv]; decide) "期望 TABLE / DATABASE / SCHEMA / USER"
  rw [hu] at hcreate
  rw [hv] at htable
  have hmiss : ∀ {type : TokenType}, type ≠ .end → type ≠ .table →
      (matchToken type).run (s.forward 1) = (.ok false, s.forward 1) := by
    intro type hend hne
    exact matchToken_miss h.next (by rw [hv]; exact hne.symm) hend
  rw [parseStatement, Prog.bind_ok (peek_eq h), hu]
  change parseCreate.run s = _
  rw [parseCreate, Prog.bind_ok hcreate,
    Prog.bind_ok (hmiss (by decide) (by decide)), if_neg (by decide),
    Prog.bind_ok (hmiss (by decide) (by decide)), if_neg (by decide),
    Prog.bind_ok (hmiss (by decide) (by decide)), if_neg (by decide),
    Prog.bind_ok (hmiss (by decide) (by decide)), if_neg (by decide), Prog.bind_ok htable]

/-- The script ends in an error when its only statement does. -/
theorem fails_parseAll {ls : List Lexeme} (h : Fails parseCreateTable ls anyType) :
    Fails parseAll (.keyword "CREATE" :: .keyword "TABLE" :: ls) (· = .end) := by
  refine .fuel fun n hn => ?_
  obtain ⟨n, rfl⟩ := Nat.exists_eq_succ_of_ne_zero (by omega : n ≠ 0)
  intro s toks t rest hspelled hs ht
  obtain ⟨u, us, rfl, hu, hus⟩ := hspelled.cons_inv
  obtain ⟨v, vs, rfl, hv, hvs⟩ := hus.cons_inv
  have hu : u.type = .create := hu
  obtain ⟨e, s', herror⟩ := h _ vs t rest hvs hs.next.next trivial
  rw [← parseStatement_create hu hv hs] at herror
  rw [parseStatements, Prog.bind_ok (isAtEnd_eq hs), if_neg (by rw [hu]; decide),
    Prog.bind_ok (peek_eq hs), if_neg (by rw [hu]; decide)]
  exact ⟨e, s', Prog.bind_error herror⟩

theorem createTableLexemes_eq (hname : Lexer.wordType name = .identifier) (d : ColumnSyntax) :
    createTableLexemes name (d :: ds) =
      scriptLexemes [some (.createTable name d (ds.map .column))] := by
  have hword : Lexeme.ofWord name = .word .identifier name := by rw [Lexeme.ofWord, hname]
  have hcolumns : columnLexemes (d :: ds) =
      separated TableItem.lexemes (.column d :: ds.map .column) := by
    rw [columnLexemes, separated, List.flatMap_map]
    rfl
  rw [createTableLexemes, hword, hcolumns]
  rfl

theorem columnDefs_columns (ds : List ColumnSyntax) :
    (ds.map TableItem.column).filterMap TableItem.columnDef = ds.map ColumnSyntax.column := by
  rw [List.filterMap_map]
  exact congrFun List.filterMap_eq_map ds

/-- CREATE TABLE over the definitions parses to exactly the columns they say if and only if there is
a definition and none has more than a single PRIMARY KEY for constraints. -/
theorem createTable_parsed_iff (name : Str) (ds : List ColumnSyntax)
    (hname : Lexer.wordType name = .identifier) (hds : ∀ d ∈ ds, d.Named) (toks : List Token)
    (last : Token) (hlast : last.type = .end) (hspelled : Spelled (createTableLexemes name ds) toks) :
    (parseAll.run ⟨toks ++ [last], 0⟩).1 = .ok [.createTable name (ds.map ColumnSyntax.column)] ↔
      ds ≠ [] ∧ ∀ d ∈ ds, d.Supported := by
  constructor
  · intro hok
    by_contra hnot
    obtain ⟨e, s', herror⟩ := fails_parseAll (fails_createTable hname hds hnot)
      ⟨toks ++ [last], 0⟩ toks last [] hspelled rfl hlast
    rw [herror] at hok
    cases hok
  · rintro ⟨hne, hall⟩
    obtain ⟨d, ds, rfl⟩ := List.exists_cons_of_ne_nil hne
    have hread : (StatementSyntax.createTable name d (ds.map .column)).Readable := by
      intro c hc
      have hc : c ∈ d :: ds := by simpa using hc
      exact ⟨hds c hc, hall c hc⟩
    rw [createTableLexemes_eq hname] at hspelled
    have hreadable : ∀ c, some c ∈ [some (StatementSyntax.createTable name d (ds.map .column))] →
        c.Readable := by
      intro c hc
      obtain rfl := Option.some.inj (List.mem_singleton.mp hc)
      exact hread
    have hrun := takes_parseAll _ hreadable
      ⟨toks ++ [last], 0⟩ toks last [] hspelled rfl hlast
    rw [hrun, List.map_cons, ← columnDefs_columns]
    rfl

/-- The columns `a INT PRIMARY KEY, b TEXT`. -/
theorem createTable_parsed_key :
    let ds : List ColumnSyntax :=
      [⟨str "a", str "INT", [.primaryKey]⟩, ⟨str "b", str "TEXT", []⟩]
    let toks : List Token := [⟨.create, str "CREATE", 1, 1⟩, ⟨.table, str "TABLE", 1, 8⟩,
      ⟨.identifier, str "t", 1, 14⟩, ⟨.lparen, str "(", 1, 16⟩, ⟨.identifier, str "a", 1, 17⟩,
      ⟨.identifier, str "INT", 1, 19⟩, ⟨.primary, str "PRIMARY", 1, 23⟩, ⟨.key, str "KEY", 1, 31⟩,
      ⟨.comma, str ",", 1, 34⟩, ⟨.identifier, str "b", 1, 36⟩, ⟨.identifier, str "TEXT", 1, 38⟩,
      ⟨.rparen, str ")", 1, 42⟩]
    (parseAll.run ⟨toks ++ [⟨.end, [], 1, 43⟩], 0⟩).1 =
        .ok [.createTable (str "t") (ds.map ColumnSyntax.column)] ↔
      ds ≠ [] ∧ ∀ d ∈ ds, d.Supported := by
  intro ds toks
  refine createTable_parsed_iff (str "t") ds (by decide) ?_ toks _ rfl ?_
  · intro d hd
    rcases List.mem_cons.mp hd with rfl | hd
    · exact ⟨by decide, by decide⟩
    · obtain rfl := List.mem_singleton.mp hd
      exact ⟨by decide, by decide⟩
  · have hword : ∀ text t, t.type = Lexer.wordType text → t.text = text →
        (Lexeme.ofWord text).Is t := fun _ _ h h' => ⟨h, h'⟩
    exact .cons rfl (.cons rfl (.cons (hword _ _ rfl rfl) (.cons rfl (.cons (hword _ _ rfl rfl)
      (.cons (hword _ _ rfl rfl) (.cons rfl (.cons rfl (.cons rfl (.cons (hword _ _ rfl rfl)
        (.cons (hword _ _ rfl rfl) (.cons rfl .nil)))))))))))

/-- The lexer makes NOT a keyword, and the parser looks for it among the identifiers. -/
theorem createTable_notNull :
    let d : ColumnSyntax := ⟨str "a", str "INT", [.notNull]⟩
    ∃ toks last, Lexer.tokenize (str "CREATE TABLE t (a INT NOT NULL)") = .ok (toks ++ [last]) ∧
      Spelled (createTableLexemes (str "t") [d]) toks ∧
      (parseAll.run ⟨toks ++ [last], 0⟩).1 ≠ .ok [.createTable (str "t") [d.column]] := by
  intro d
  let toks : List Token := [⟨.create, str "CREATE", 1, 1⟩, ⟨.table, str "TABLE", 1, 8⟩,
    ⟨.identifier, str "t", 1, 14⟩, ⟨.lparen, str "(", 1, 16⟩, ⟨.identifier, str "a", 1, 17⟩,
    ⟨.identifier, str "INT", 1, 19⟩, ⟨.not, str "NOT", 1, 23⟩, ⟨.nullToken, str "NULL", 1, 27⟩,
    ⟨.rparen, str ")", 1, 31⟩]
  refine ⟨toks, ⟨.end, [], 1, 32⟩, by decide +kernel, ?_, ?_⟩
  · have hword : ∀ text t, t.type = Lexer.wordType text → t.text = text →
        (Lexeme.ofWord text).Is t := fun _ _ h h' => ⟨h, h'⟩
    exact .cons rfl (.cons rfl (.cons (hword _ _ rfl rfl) (.cons rfl (.cons (hword _ _ rfl rfl)
      (.cons (hword _ _ rfl rfl) (.cons rfl (.cons rfl (.cons rfl .nil))))))))
  · have herror : (parseAll.run ⟨toks ++ [⟨.end, [], 1, 32⟩], 0⟩).1.toOption.isNone = true := by
      decide +kernel
    intro hok
    rw [hok] at herror
    cases herror

end Parser
end JiaMiaoDB
