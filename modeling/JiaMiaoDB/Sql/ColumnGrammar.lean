import JiaMiaoDB.Sql.ParserRules

/-!
# Column definitions

CREATE TABLE over a list of columns, each a name, a type and any constraints. The kind of each word
is the one that the lexer gives it.
-/

set_option autoImplicit false

namespace JiaMiaoDB

inductive ColumnConstraint where
  | notNull
  | primaryKey
deriving DecidableEq

/-- A column as it is written. -/
structure ColumnSyntax where
  name : Str
  typeName : Str
  constraints : List ColumnConstraint

/-- A word with the kind that the lexer gives it. -/
def Lexeme.ofWord (text : Str) : Lexeme := .word (Lexer.wordType text) text

/-- A keyword in any spelling. -/
def Lexeme.keyword (text : String) : Lexeme := .symbol (Lexer.wordType (str text))

def ColumnConstraint.lexemes : ColumnConstraint → List Lexeme
  | notNull => [.keyword "NOT", .keyword "NULL"]
  | primaryKey => [.keyword "PRIMARY", .keyword "KEY"]

namespace ColumnSyntax

def lexemes (d : ColumnSyntax) : List Lexeme :=
  .ofWord d.name :: .ofWord d.typeName :: d.constraints.flatMap ColumnConstraint.lexemes

/-- What the definition says. -/
def column (d : ColumnSyntax) : ColumnDef where
  name := d.name
  type := DataType.ofName d.typeName
  nullable := decide (.notNull ∉ d.constraints)
  primaryKey := decide (.primaryKey ∈ d.constraints)
  defaultValue := none

/-- Neither the name nor the type is a keyword. -/
def Named (d : ColumnSyntax) : Prop :=
  Lexer.wordType d.name = .identifier ∧ Lexer.wordType d.typeName = .identifier

/-- No constraint, or PRIMARY KEY once. -/
def Supported (d : ColumnSyntax) : Prop := d.constraints = [] ∨ d.constraints = [.primaryKey]

instance (d : ColumnSyntax) : Decidable d.Supported := inferInstanceAs (Decidable (_ ∨ _))

end ColumnSyntax

def columnLexemes : List ColumnSyntax → List Lexeme
  | [] => []
  | d :: ds => d.lexemes ++ ds.flatMap fun d => .symbol .comma :: d.lexemes

def createTableLexemes (name : Str) (ds : List ColumnSyntax) : List Lexeme :=
  .keyword "CREATE" :: .keyword "TABLE" :: .ofWord name :: .symbol .lparen ::
    (columnLexemes ds ++ [.symbol .rparen])

namespace Parser
variable {d : ColumnSyntax}

/-- What the parser makes of the definition: it reads a leading PRIMARY KEY and no more. -/
def readColumn (d : ColumnSyntax) : ColumnDef :=
  ⟨d.name, DataType.ofName d.typeName, true, decide (d.constraints.head? = some .primaryKey), none⟩

/-- The part of the definition that is read. -/
def readLexemes (d : ColumnSyntax) : List Lexeme :=
  .ofWord d.name :: .ofWord d.typeName ::
    if d.constraints.head? = some .primaryKey then ColumnConstraint.primaryKey.lexemes else []

/-- The constraints that are left. -/
def unread (d : ColumnSyntax) : List ColumnConstraint :=
  if d.constraints.head? = some .primaryKey then d.constraints.tail else d.constraints

theorem lexemes_eq (d : ColumnSyntax) :
    d.lexemes = readLexemes d ++ (unread d).flatMap ColumnConstraint.lexemes := by
  unfold ColumnSyntax.lexemes readLexemes unread
  rcases d.constraints with _ | ⟨_ | _, cs⟩ <;> rfl

/-- What may stand behind the part that is read. -/
def EndsRead (d : ColumnSyntax) (type : TokenType) : Prop :=
  type ≠ .identifier ∧ (d.constraints.head? ≠ some .primaryKey → type ≠ .primary)

theorem takes_readColumn (hd : d.Named) :
    Takes parseColumnDef (readLexemes d) (readColumn d) (EndsRead d) := by
  have hname : Lexeme.ofWord d.name = .word .identifier d.name := by rw [Lexeme.ofWord, hd.1]
  have htype : Lexeme.ofWord d.typeName = .word .identifier d.typeName := by
    rw [Lexeme.ofWord, hd.2]
  have hparseType : Takes parseType [.word .identifier d.typeName] (DataType.ofName d.typeName)
      anyType := .name_then (.pure _)
  rw [readLexemes, hname, htype]
  unfold readColumn
  refine .name_then (.bind_cons hparseType ?_ .any)
  -- modifiers are looked for among identifiers, and a constraint is none
  have hmodifiers : ∀ col, Takes (parseModifiers col) [] col (· ≠ .identifier) := by
    intro col
    refine .peek_behind fun t ht => ?_
    rw [if_neg ht]
    exact .pure col
  refine .bind_nil (hmodifiers _) ?_ ?_
  · split
    · next hkey =>
      rw [decide_eq_true hkey]
      exact .ifMatch_hit (by decide) (.expect_then (by decide) (.pure _))
    · next hkey =>
      rw [decide_eq_false hkey]
      exact .ifMatch_miss (by decide) (fun type htype => htype.2 hkey) (.pure _)
  · split
    · exact fun h => TokenType.noConfusion h
    · exact fun type htype => htype.1

/-- A supported definition is read whole and as it says. -/
theorem read_eq (h : d.Supported) : readColumn d = d.column ∧ readLexemes d = d.lexemes := by
  unfold readColumn readLexemes ColumnSyntax.column ColumnSyntax.lexemes
  rcases h with h | h <;> rw [h] <;> exact ⟨rfl, rfl⟩

/-- What stands behind an element of CREATE TABLE. -/
def EndsItem (type : TokenType) : Prop := type = .comma ∨ type = .rparen

theorem EndsItem.ne {type other : TokenType} (h : EndsItem type) (hcomma : other ≠ .comma)
    (hrparen : other ≠ .rparen) : type ≠ other := by
  rcases h with rfl | rfl
  · exact hcomma.symm
  · exact hrparen.symm

theorem takes_column (hd : d.Named) (h : d.Supported) :
    Takes parseColumnDef d.lexemes d.column EndsItem := by
  obtain ⟨hcolumn, hlexemes⟩ := read_eq h
  have htakes := takes_readColumn hd
  rw [hcolumn, hlexemes] at htakes
  refine htakes.mono fun type htype => ?_
  exact ⟨htype.ne (by decide) (by decide), fun _ => htype.ne (by decide) (by decide)⟩

/-- Behind the first column a name begins a column. -/
theorem takes_columnOrKey {name : Str} {ls : List Lexeme} {col : ColumnDef}
    {mid : TokenType → Prop} (hname : Lexer.wordType name = .identifier)
    (h : Takes parseColumnDef (.ofWord name :: ls) col mid) :
    Takes parseColumnOrKey (.ofWord name :: ls) (some col) mid := by
  refine .peek fun t ht => ?_
  have htype : t.type = .identifier := ht.1.trans hname
  rw [if_neg (by rw [htype]; decide)]
  exact .map some h

/-- Behind what is read of a definition that is not supported stands a constraint. -/
theorem unread_head (h : ¬ d.Supported) : ∃ x ls,
    (unread d).flatMap ColumnConstraint.lexemes = x :: ls ∧ (x.type = .not ∨ x.type = .primary) ∧
      EndsRead d x.type := by
  unfold unread EndsRead
  match hcs : d.constraints with
  | [] => exact absurd (.inl hcs) h
  | .notNull :: cs => exact ⟨_, _, rfl, .inl rfl, by decide, fun _ => by decide⟩
  | [.primaryKey] => exact absurd (.inr hcs) h
  | .primaryKey :: .notNull :: cs =>
    exact ⟨_, _, rfl, .inl rfl, by decide, fun hne => absurd rfl hne⟩
  | .primaryKey :: .primaryKey :: cs =>
    exact ⟨_, _, rfl, .inr rfl, by decide, fun hne => absurd rfl hne⟩

end Parser
end JiaMiaoDB
