import JiaMiaoDB.Storage.RowIds
import Mathlib.Data.List.Perm.Subperm

/-!
# Rows and their schema

Inserts coerce what they are given, but let a NULL through and whatever `coerce` has no case for; updates
assign what they are given. A row conforms to its schema when these come with suitable values.
-/

set_option autoImplicit false

namespace JiaMiaoDB
open StorageEngine BinaryRowCodec

/-! ### Values of a column -/

/-- The values that `coerce` makes for the type. -/
def DataType.holds : DataType → Value → Bool
  | .integer, .int _ | .bigint, .int _ => true
  | .float, .double _ | .double, .double _ => true
  | .boolean, .bool _ => true
  | .text, .string _ | .date, .string _ | .timestamp, .string _ => true
  | .unknown, _ | .other _, _ => true
  | _, _ => false

/-- `coerce` has no case for a truth value in a number column and for a fraction as a truth value. -/
def DataType.coercible : DataType → Value → Bool
  | .integer, .bool _ | .bigint, .bool _ | .float, .bool _ | .double, .bool _ => false
  | .boolean, .double _ => false
  | _, _ => true

/-- A stored value that the column may have. -/
def ColumnDef.holds (col : ColumnDef) (v : Value) : Bool :=
  if v = .null then col.nullable else col.type.holds v

/-- A given value that the column may have once it is coerced. -/
def ColumnDef.accepts (col : ColumnDef) (v : Value) : Bool :=
  if v = .null then col.nullable else col.type.coercible v

theorem holds_of_coerce {type : DataType} {v w : Value} (hv : v ≠ .null)
    (hc : type.coercible v = true) (h : coerce type v = .ok w) : w ≠ .null ∧ type.holds w = true := by
  cases v with
  | null => exact absurd rfl hv
  | int i => cases type <;> cases h <;> exact ⟨Value.noConfusion, rfl⟩
  | double d => cases type <;> cases hc <;> cases h <;> exact ⟨Value.noConfusion, rfl⟩
  | bool b => cases type <;> cases hc <;> cases h <;> exact ⟨Value.noConfusion, rfl⟩
  | string s =>
    -- Only the number types read the string.
    have read {α : Type} {f : α → Value} {x : Except Failure α} (hx : f <$> x = .ok w)
        (hf : ∀ a, f a ≠ .null ∧ type.holds (f a) = true) : w ≠ .null ∧ type.holds w = true := by
      obtain ⟨a, -, rfl⟩ := ExceptList.map_ok_iff.mp hx
      exact hf a
    cases type with
    | integer => exact read h fun _ => ⟨Value.noConfusion, rfl⟩
    | bigint => exact read h fun _ => ⟨Value.noConfusion, rfl⟩
    | float => exact read h fun _ => ⟨Value.noConfusion, rfl⟩
    | double => exact read h fun _ => ⟨Value.noConfusion, rfl⟩
    | _ =>
      cases h
      exact ⟨Value.noConfusion, rfl⟩

theorem ColumnDef.holds_of_accepts {col : ColumnDef} {v w : Value} (ha : col.accepts v = true)
    (h : coerce col.type v = .ok w) : col.holds w = true := by
  unfold accepts at ha
  unfold holds
  split at ha
  · rename_i hv
    subst hv
    cases h
    exact ha
  · rename_i hv
    obtain ⟨hw, hholds⟩ := holds_of_coerce hv ha h
    rw [if_neg hw]
    exact hholds

/-- A value taken from no row: the next row id, a default or NULL. -/
theorem ColumnDef.holds_of_missing {e : StorageEngine} {schema : TableSchema} {row : Row}
    {col : ColumnDef} {w : Value} (hnone : row[col.name]? = none)
    (hdefault : ¬ (col.primaryKey = true ∧ col.type = .integer) → ∀ d ∈ col.defaultValue,
      col.holds d = true) (h : e.validateColumn schema row col = .ok w) : col.holds w = true := by
  rw [validateColumn, hnone] at h
  dsimp only at h
  split at h
  · rename_i hkey
    split at h
    · cases h
    · cases h
      rw [ColumnDef.holds, if_neg Value.noConfusion, hkey.2]
      rfl
  · rename_i hkey
    split at h
    · rename_i d hd
      rw [← Except.ok.inj h]
      exact hdefault hkey d hd
    · split at h
      · cases h
      · rename_i hnullable
        cases h
        simpa [ColumnDef.holds] using hnullable

/-! ### Rows of a schema -/

/-- Column names that `validate` and the row format keep apart from each other and from the system
columns, in a number that the row format can count. -/
structure RegularColumns (columns : List ColumnDef) : Prop where
  distinct : (columns.map ColumnDef.name).Nodup
  nonempty : columns ≠ []
  counted : columns.length < 65536
  business : ∀ col ∈ columns, isSystemColumn col.name = false

/-- The row has exactly the columns, besides the system columns, each with a value that it may have. -/
structure Conforms (columns : List ColumnDef) (row : Row) : Prop where
  known : ∀ k, k ∈ row → isSystemColumn k = false → ∃ col ∈ columns, col.name = k
  typed : ∀ col ∈ columns, ∃ v, row[col.name]? = some v ∧ col.holds v = true

instance (columns : List ColumnDef) : Decidable (RegularColumns columns) :=
  decidable_of_iff ((columns.map ColumnDef.name).Nodup ∧ columns ≠ [] ∧ columns.length < 65536 ∧
    ∀ col ∈ columns, isSystemColumn col.name = false)
    ⟨fun ⟨h₁, h₂, h₃, h₄⟩ => ⟨h₁, h₂, h₃, h₄⟩, fun ⟨h₁, h₂, h₃, h₄⟩ => ⟨h₁, h₂, h₃, h₄⟩⟩

instance (columns : List ColumnDef) (row : Row) : Decidable (Conforms columns row) :=
  decidable_of_iff ((∀ k ∈ row.keys, isSystemColumn k = false → ∃ col ∈ columns, col.name = k) ∧
    ∀ col ∈ columns, (row[col.name]?).any col.holds = true) (by
      simp only [Std.ExtTreeMap.mem_keys, Option.any_eq_true]
      exact ⟨fun ⟨h₁, h₂⟩ => ⟨h₁, h₂⟩, fun ⟨h₁, h₂⟩ => ⟨h₁, h₂⟩⟩)

section Conforms
variable {columns : List ColumnDef} {row row' : Row}

theorem RegularColumns.withoutDefault :
    RegularColumns (columns.map ColumnDef.withoutDefault) ↔ RegularColumns columns := by
  have hnames : (columns.map ColumnDef.withoutDefault).map ColumnDef.name =
      columns.map ColumnDef.name := by
    rw [List.map_map]
    rfl
  constructor
  · rintro ⟨hdistinct, hnonempty, hcounted, hbusiness⟩
    rw [hnames] at hdistinct
    rw [List.length_map] at hcounted
    refine ⟨hdistinct, fun h => hnonempty (by rw [h]; rfl), hcounted, fun col hcol => ?_⟩
    exact hbusiness col.withoutDefault (List.mem_map_of_mem hcol)
  · rintro ⟨hdistinct, hnonempty, hcounted, hbusiness⟩
    refine ⟨?_, fun h => hnonempty (List.map_eq_nil_iff.mp h), ?_, fun col hcol => ?_⟩
    · rw [hnames]
      exact hdistinct
    · rw [List.length_map]
      exact hcounted
    · obtain ⟨col₀, hcol₀, rfl⟩ := List.mem_map.mp hcol
      exact hbusiness col₀ hcol₀

theorem Conforms.withoutDefault :
    Conforms (columns.map ColumnDef.withoutDefault) row ↔ Conforms columns row := by
  constructor
  · intro h
    constructor
    · intro k hk hsystem
      obtain ⟨col, hcol, rfl⟩ := h.known k hk hsystem
      obtain ⟨col₀, hcol₀, rfl⟩ := List.mem_map.mp hcol
      exact ⟨col₀, hcol₀, rfl⟩
    · exact fun col hcol => h.typed col.withoutDefault (List.mem_map_of_mem hcol)
  · intro h
    constructor
    · intro k hk hsystem
      obtain ⟨col, hcol, rfl⟩ := h.known k hk hsystem
      exact ⟨col.withoutDefault, List.mem_map_of_mem hcol, rfl⟩
    · intro col hcol
      obtain ⟨col₀, hcol₀, rfl⟩ := List.mem_map.mp hcol
      exact h.typed col₀ hcol₀

theorem mem_business {k : Str} : k ∈ business row ↔ k ∈ row ∧ isSystemColumn k = false := by
  rw [Std.ExtTreeMap.mem_iff_isSome_getElem?, Std.ExtTreeMap.mem_iff_isSome_getElem?,
    getElem?_business]
  cases isSystemColumn k <;> simp

/-- Only the business columns count. -/
theorem Conforms.congr (hregular : RegularColumns columns) (h : Conforms columns row)
    (hb : business row' = business row) : Conforms columns row' := by
  constructor
  · intro k hk hsystem
    have hmem : k ∈ business row := by
      rw [← hb]
      exact mem_business.mpr ⟨hk, hsystem⟩
    exact h.known k (mem_business.mp hmem).1 hsystem
  · intro col hcol
    obtain ⟨v, hv, hholds⟩ := h.typed col hcol
    refine ⟨v, ?_, hholds⟩
    have heq := congrArg (fun r : Row => r[col.name]?) hb
    simp only [getElem?_business, hregular.business col hcol, Bool.false_eq_true, if_false] at heq
    rw [heq]
    exact hv

theorem Conforms.size_pos (hregular : RegularColumns columns) (h : Conforms columns row) :
    0 < (business row).size := by
  obtain ⟨col, hcol⟩ := List.exists_mem_of_ne_nil columns hregular.nonempty
  obtain ⟨v, hv, -⟩ := h.typed col hcol
  have hmem : col.name ∈ business row := by
    refine mem_business.mpr ⟨Std.ExtTreeMap.mem_iff_isSome_getElem?.mpr ?_,
      hregular.business col hcol⟩
    rw [hv]
    rfl
  rw [← Std.ExtTreeMap.length_keys]
  exact List.length_pos_of_mem (Std.ExtTreeMap.mem_keys.mpr hmem)

theorem Conforms.size_le (h : Conforms columns row) : (business row).size ≤ columns.length := by
  have hsubset : (business row).keys ⊆ columns.map ColumnDef.name := by
    intro k hk
    obtain ⟨hmem, hsystem⟩ := mem_business.mp (Std.ExtTreeMap.mem_keys.mp hk)
    obtain ⟨col, hcol, rfl⟩ := h.known k hmem hsystem
    exact List.mem_map_of_mem hcol
  have hle := (List.Nodup.subperm Std.ExtTreeMap.nodup_keys hsubset).length_le
  rwa [Std.ExtTreeMap.length_keys, List.length_map] at hle

end Conforms

/-- The tuple is read as a row that conforms to the columns of its table. -/
def ConformsTo (c : TableContext) (t : Tuple) : Prop :=
  RegularColumns c.columns ∧ ∃ row, toRow t = .ok row ∧ Conforms c.columns row

theorem Conforms.admits {c : TableContext} {row : Row} (hregular : RegularColumns c.columns)
    (h : Conforms c.columns row) (id : Int64) : Admits ConformsTo c id row := by
  intro q t ht
  obtain ⟨bs, henc, ht⟩ := ExceptList.bind_ok_iff.mp ht
  cases ht
  have hdec := decode_encode_of_size henc (h.size_pos hregular)
    (Nat.lt_of_le_of_lt h.size_le hregular.counted)
  refine ⟨hregular, _, toRow_eq_ok.mpr ⟨business row, hdec, rfl⟩, h.congr hregular ?_⟩
  rw [business_withSystemColumns, business_business]

theorem tupleInvariant_conformsTo : TupleInvariant ConformsTo where
  mono hle h := by
    unfold ConformsTo
    rw [hle.columns]
    exact h
  restamp h hread hb := by
    obtain ⟨hregular, row, hrow, hconforms⟩ := h
    cases hread.symm.trans hrow
    exact (hconforms.congr hregular hb).admits hregular _

/-! ### Statements -/

/-- What an insert is given fits the columns: what `coerce` brings to the type of its column, NULL for
nullable columns only, and defaults of the type where nothing is given. -/
structure InsertSuits (columns : List ColumnDef) (row : Row) : Prop where
  regular : RegularColumns columns
  given : ∀ col ∈ columns, ∀ v ∈ row[col.name]?, col.accepts v = true
  missing : ∀ col ∈ columns, row[col.name]? = none →
    ¬ (col.primaryKey = true ∧ col.type = .integer) → ∀ d ∈ col.defaultValue, col.holds d = true

/-- An update assigns columns of the schema, each a value that it may have. -/
def UpdateSuits (columns : List ColumnDef) (updates : Updates) : Prop :=
  ∀ k v, updates[k]? = some v → isSystemColumn k = false →
    (∃ col ∈ columns, col.name = k) ∧ ∀ col ∈ columns, col.name = k → col.holds v = true

instance (columns : List ColumnDef) (row : Row) : Decidable (InsertSuits columns row) :=
  decidable_of_iff (RegularColumns columns ∧ (∀ col ∈ columns, ∀ v ∈ row[col.name]?, col.accepts v = true) ∧
    ∀ col ∈ columns, row[col.name]? = none → ¬ (col.primaryKey = true ∧ col.type = .integer) →
      ∀ d ∈ col.defaultValue, col.holds d = true)
    ⟨fun ⟨h₁, h₂, h₃⟩ => ⟨h₁, h₂, h₃⟩, fun ⟨h₁, h₂, h₃⟩ => ⟨h₁, h₂, h₃⟩⟩

namespace StorageEngine
variable {e : StorageEngine} {schema : TableSchema} {row validated : Row}

/-- Each column of a validated row is the value of a column definition of that name. -/
theorem mem_validate {columns : List ColumnDef} {start : Row}
    (h : columns.foldlM (fun result col => do
      let v ← e.validateColumn schema row col
      pure (result.insert col.name v)) start = .ok validated) (k : Str) :
    (∃ col ∈ columns, col.name = k ∧
        ∃ v, e.validateColumn schema row col = .ok v ∧ validated[k]? = some v) ∨
      (∀ col ∈ columns, col.name ≠ k) ∧ validated[k]? = start[k]? := by
  induction columns generalizing start with
  | nil =>
    cases h
    exact .inr ⟨fun _ hcol => absurd hcol List.not_mem_nil, rfl⟩
  | cons col columns ih =>
    rw [List.foldlM_cons] at h
    obtain ⟨start', hstart, h⟩ := ExceptList.bind_ok_iff.mp h
    obtain ⟨v, hv, hstart⟩ := ExceptList.bind_ok_iff.mp hstart
    cases hstart
    rcases ih h with ⟨col', hcol', hname, hvalue⟩ | ⟨hnone, hvalue⟩
    · exact .inl ⟨col', List.mem_cons_of_mem _ hcol', hname, hvalue⟩
    · by_cases hk : col.name = k
      · subst hk
        rw [Std.ExtTreeMap.getElem?_insert_self] at hvalue
        exact .inl ⟨col, List.mem_cons_self, rfl, v, hv, hvalue⟩
      · refine .inr ⟨List.forall_mem_cons.mpr ⟨hk, hnone⟩, ?_⟩
        rw [hvalue, Std.ExtTreeMap.getElem?_insert, if_neg (by simpa using hk)]

theorem conforms_validate (hsuits : InsertSuits schema.columns row)
    (h : e.validate schema row = .ok validated) : Conforms schema.columns validated := by
  have hcolumn (k : Str) := mem_validate h k
  constructor
  · intro k hk _
    rcases hcolumn k with ⟨col, hcol, hname, -⟩ | ⟨-, hnone⟩
    · exact ⟨col, hcol, hname⟩
    · rw [Std.ExtTreeMap.mem_iff_isSome_getElem?, hnone, Std.ExtTreeMap.getElem?_empty] at hk
      cases hk
  · intro col hcol
    rcases hcolumn col.name with ⟨col', hcol', hname, v, hv, hvalue⟩ | ⟨hnone, -⟩
    · have hsame : col' = col := List.inj_on_of_nodup_map hsuits.regular.distinct hcol' hcol hname
      subst hsame
      refine ⟨v, hvalue, ?_⟩
      cases hrow : row[col'.name]? with
      | none => exact ColumnDef.holds_of_missing hrow (hsuits.missing col' hcol hrow) hv
      | some x =>
        rw [validateColumn, hrow] at hv
        exact ColumnDef.holds_of_accepts (hsuits.given col' hcol x hrow) hv
    · exact absurd rfl (hnone col hcol)

theorem conforms_applyUpdates {columns : List ColumnDef} {updates : Updates}
    (hsuits : UpdateSuits columns updates) (hregular : RegularColumns columns)
    (h : Conforms columns row) : Conforms columns (applyUpdates row updates) := by
  constructor
  · intro k hk hsystem
    rw [Std.ExtTreeMap.mem_iff_isSome_getElem?, getElem?_applyUpdates] at hk
    cases hu : updates[k]? with
    | none =>
      rw [hu, Option.none_or] at hk
      exact h.known k (Std.ExtTreeMap.mem_iff_isSome_getElem?.mpr hk) hsystem
    | some v => exact (hsuits k v hu hsystem).1
  · intro col hcol
    rw [getElem?_applyUpdates]
    cases hu : updates[col.name]? with
    | none =>
      rw [Option.none_or]
      exact h.typed col hcol
    | some v => exact ⟨v, rfl, (hsuits _ v hu (hregular.business col hcol)).2 col hcol rfl⟩

/-- Every stored row of a table is read, and conforms to the table's schema. -/
def SchemaConformance (e : StorageEngine) : Prop :=
  ∀ (q : Str) (m : MemTable), e.data[q]? = some m → ∀ t ∈ m.scanAll,
    ∃ schema row, e.tables[q]? = some schema ∧ toRow t = .ok row ∧ Conforms schema.columns row

theorem columns_tableContext {q : Str} (h : e.tables[q]? = some schema) :
    (e.tableContext q).columns = schema.columns.map ColumnDef.withoutDefault := by
  rw [tableContext, h]
  rfl

theorem Stored.schemaConformance (h : Stored ConformsTo e) : SchemaConformance e := by
  intro q m hm t ht
  obtain ⟨hregular, row, hrow, hconforms⟩ := (h.tables q m hm).good t ht
  cases hschema : e.tables[q]? with
  | none =>
    refine absurd ?_ hregular.nonempty
    rw [tableContext, hschema]
    rfl
  | some schema =>
    rw [columns_tableContext hschema, Conforms.withoutDefault] at hconforms
    exact ⟨schema, row, rfl, hrow, hconforms⟩

end StorageEngine

/-! ### Runs -/

/-- The row of a record that would be applied conforms to the schema that its table has by then. -/
def RowSuits (e : StorageEngine) (r : WALRecordV3) (row : Row) : Prop :=
  ∃ schema, e.tables[r.table]? = some schema ∧ RegularColumns schema.columns ∧
    Conforms schema.columns row

def RecordSuits (e : StorageEngine) (r : WALRecordV3) : Prop :=
  e.replayed r.xid = true → e.data.contains r.table = true →
    (WalOp.ofTag r.op = .insert → ∀ p ∈ walDecodeInsert r.data, RowSuits e r p.row) ∧
    (WalOp.ofTag r.op = .update → ∀ p ∈ walDecodeUpdate r.data, RowSuits e r p.newRow)

instance (e : StorageEngine) (r : WALRecordV3) (row : Row) : Decidable (RowSuits e r row) :=
  decidable_of_iff ((e.tables[r.table]?).any (fun schema =>
    decide (RegularColumns schema.columns ∧ Conforms schema.columns row)) = true) (by
      simp only [RowSuits, Option.any_eq_true, decide_eq_true_eq])

instance (e : StorageEngine) (r : WALRecordV3) : Decidable (RecordSuits e r) := by
  unfold RecordSuits
  infer_instance

/-- Inserts and updates fit the schema of their table, and no table is created under a name that undo
records would still put rows into. -/
def Call.Suits (e : StorageEngine) : Call → Prop
  | .insert table row | .insertWithTxn table row =>
    ∀ schema, e.tables[e.resolveTableName table]? = some schema → InsertSuits schema.columns row
  | .update table _ updates | .updateWithTxn table _ updates =>
    ∀ schema, e.tables[e.resolveTableName table]? = some schema → UpdateSuits schema.columns updates
  | .createTable name _ => CreateOk name e
  | .txn p => ∃ c : ManagerCall, c.client = true ∧ p = c.run
  | _ => True

def Session.Suits (s : Session) : Action → Prop
  | .call c => c.Suits s.engine ∧ (c.checksCheckpoint → ∀ e,
      c.body.run s.engine = (.ok (), e) → e.checkpointDue → Savable e)
  | .save => Savable s.engine
  | .close => Savable s.engine
  | .restart k n _ _ => ReplayMeets RecordSuits (s.engine.dir.crash k n)

section Runs
variable {e : StorageEngine} {r : WALRecordV3}

theorem RowSuits.admits {row : Row} (h : RowSuits e r row) {c : TableContext}
    (hc : c.columns = (e.tableContext r.table).columns) (id : Int64) :
    Admits ConformsTo c id row := by
  obtain ⟨schema, hschema, hregular, hconforms⟩ := h
  rw [columns_tableContext hschema] at hc
  refine Conforms.admits ?_ ?_ id
  · rw [hc]
    exact RegularColumns.withoutDefault.mpr hregular
  · rw [hc]
    exact Conforms.withoutDefault.mpr hconforms

theorem replayOk_of_recordSuits (h : RecordSuits e r) : ReplayOk ConformsTo e r := by
  intro hreplayed hdata
  obtain ⟨hinsert, hupdate⟩ := h hreplayed hdata
  cases hop : WalOp.ofTag r.op with
  | insert => exact fun p hp => (hinsert hop p hp).admits rfl _
  | update => exact fun p hp => (hupdate hop p hp).admits rfl _
  | _ => trivial

theorem insertOk_of_suits {table : Str} {row : Row}
    (h : ∀ schema, e.tables[e.resolveTableName table]? = some schema →
      InsertSuits schema.columns row) : InsertOk ConformsTo table row e := by
  intro schema validated row' hschema hvalidated hb
  have hsuits := h schema hschema
  have hconforms := (conforms_validate hsuits hvalidated).congr hsuits.regular hb
  refine Conforms.admits ?_ ?_ _
  · change RegularColumns (e.tableContext _).columns
    rw [columns_tableContext hschema]
    exact RegularColumns.withoutDefault.mpr hsuits.regular
  · change Conforms (e.tableContext _).columns row'
    rw [columns_tableContext hschema]
    exact Conforms.withoutDefault.mpr hconforms

theorem updateOk_of_suits {q : Str} {updates : Updates}
    (h : ∀ schema, e.tables[q]? = some schema → UpdateSuits schema.columns updates) :
    UpdateOk ConformsTo updates (e.tableContext q) := by
  intro t row row' ht hread hb
  obtain ⟨hregular, row₀, hrow, hconforms⟩ := ht
  cases hread.symm.trans hrow
  have hsuits : UpdateSuits (e.tableContext q).columns updates := by
    cases hschema : e.tables[q]? with
    | none =>
      refine absurd ?_ hregular.nonempty
      rw [tableContext, hschema]
      rfl
    | some schema =>
      rw [columns_tableContext hschema]
      intro k v hv hsystem
      obtain ⟨⟨col, hcol, hname⟩, hholds⟩ := h schema hschema k v hv hsystem
      refine ⟨⟨col.withoutDefault, List.mem_map_of_mem hcol, hname⟩, fun col' hcol' hname' => ?_⟩
      obtain ⟨col₀, hcol₀, rfl⟩ := List.mem_map.mp hcol'
      exact hholds col₀ hcol₀ hname'
  have hupdated := conforms_applyUpdates hsuits hregular hconforms
  exact (hupdated.congr hregular hb).admits hregular _

theorem meets_of_suits {s : Session} {a : Action} (h : s.Suits a) : s.Meets ConformsTo a := by
  cases a with
  | call c =>
    refine ⟨?_, h.2⟩
    cases c with
    | insert table row => exact insertOk_of_suits h.1
    | insertWithTxn table row => exact insertOk_of_suits h.1
    | update table matches_ updates => exact updateOk_of_suits h.1
    | updateWithTxn table matches_ updates => exact updateOk_of_suits h.1
    | createTable name columns => exact h.1
    | txn p => exact h.1
    | _ => trivial
  | save => exact h
  | close => exact h
  | restart k n checkpointInterval clock => exact h.mono fun _ _ => replayOk_of_recordSuits

/-- After every run of such actions, crashes and loads among them, all stored rows conform. -/
theorem schemaConformance_of_suits {s : Session} (h : Session.Reached Session.Suits s) :
    SchemaConformance s.engine :=
  (storedInvariant_of_reached tupleInvariant_conformsTo
    (h.mono fun _ _ => meets_of_suits)).engine.schemaConformance

end Runs

/-- The engine with one empty table. -/
def emptyTableEngine : StorageEngine :=
  ((Call.createTable (str "t") keyedColumns).exec.run (create Disk.empty 0 0)).2

/-- A committed row, a checkpoint, another row, and a load that replays it. -/
theorem schemaConformance_recovered :
    ∃ e, load.run (create (continuedEngine.dir.crash 7 0) 0 0) = (.ok (), e) ∧
      (e.scan (str "t")).toOption.map List.length = some 2 ∧ SchemaConformance e := by
  have hsuits {e : StorageEngine} (h : (e.tables[e.resolveTableName (str "t")]?).all fun schema =>
      decide (InsertSuits schema.columns oneRow)) : (Call.insert (str "t") oneRow).Suits e :=
    fun schema hschema => of_decide_eq_true ((Option.all_eq_true _ _).mp h schema hschema)
  have hreached : Session.Reached Session.Suits ⟨continuedEngine, [], false⟩ :=
    reached_continuedEngine (C := fun e c => c.Suits e) (fun _ _ hc hs => ⟨hc, hs⟩)
      (fun _ _ hr => nomatch hr) (hsuits (by decide +kernel)) (fun _ => ⟨.commitTransaction, rfl, rfl⟩)
      (fun _ => trivial) (fun _ hs => hs) (hsuits (by decide +kernel)) fun _ => trivial
  have hrestart : ReplayMeets RecordSuits (continuedEngine.dir.crash 7 0) := by
    rw [ReplayMeets, crash_continuedEngine, recordsAbove_continuedEngine]
    decide +kernel
  obtain ⟨wal, hload⟩ := load_continuedEngine
  have hscan : (recoveredEngine.scan (str "t")).toOption.map List.length = some 2 := by decide +kernel
  exact ⟨_, hload, hscan, schemaConformance_of_suits
    (.step (a := .restart 7 0 0 0) hreached hrestart (Session.next_restart hload))⟩

/-! ### NULL where the column does not allow it -/

def requiredColumns : List ColumnDef := [⟨str "a", .integer, false, false, none⟩]

def nullRow : Row := (∅ : Row).insert (str "a") .null

def nulling : List Call :=
  [.createTable (str "t") requiredColumns, .insertWithTxn (str "t") nullRow]

def nulledEngine : StorageEngine :=
  nulling.foldl (fun e c => (c.exec.run e).2) (create Disk.empty 0 0)

/-- A NULL that is given is stored, where a value that is missing is refused. -/
theorem null_stored : ∃ s, Session.Reached (fun _ _ => True) s ∧ ¬ SchemaConformance s.engine := by
  refine ⟨_, Session.reached_calls (.start 0 0) nulling, fun h => ?_⟩
  have htable : (nulledEngine.tables[str "defaultdb.public.t"]?).map TableSchema.columns =
      some requiredColumns := by decide +kernel
  have hnull : (nulledEngine.data[str "defaultdb.public.t"]?).any (fun m => m.scanAll.any fun t =>
      (toRow t).toOption.any fun row => row[str "a"]? = some .null) = true := by decide +kernel
  obtain ⟨m, hm, hany⟩ := (Option.any_eq_true _ _).mp hnull
  obtain ⟨t, ht, hread⟩ := List.any_eq_true.mp hany
  obtain ⟨schema, row, hschema, hrow, hconforms⟩ := h _ m hm t ht
  have hcolumns : some schema.columns = some requiredColumns :=
    (congrArg (Option.map TableSchema.columns) hschema).symm.trans htable
  have hcol : ⟨str "a", .integer, false, false, none⟩ ∈ schema.columns := by
    rw [Option.some.inj hcolumns]
    exact List.mem_singleton_self _
  obtain ⟨v, hv, hholds⟩ := hconforms.typed _ hcol
  rw [hrow, Except.toOption, Option.any_some] at hread
  cases Option.some.inj (hv.symm.trans (of_decide_eq_true hread))
  cases hholds

end JiaMiaoDB
