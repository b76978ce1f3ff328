import JiaMiaoDB.Storage.Conformance

/-!
# Generated keys

An INTEGER primary key that an insert omits becomes the row id that the row gets. A key that is given
explicitly is not counted, so that only keys up to the row id keep the generated ones apart.
-/

set_option autoImplicit false

namespace JiaMiaoDB
open StorageEngine BinaryRowCodec

/-- The key columns that `validate` fills in. -/
def ColumnDef.Generated (col : ColumnDef) : Prop := col.primaryKey = true ∧ col.type = .integer

instance (col : ColumnDef) : Decidable col.Generated := inferInstanceAs (Decidable (_ ∧ _))

/-- No stored key is past the counter of its table. -/
def KeysCounted (c : TableContext) (t : Tuple) : Prop :=
  ∀ row, toRow t = .ok row → ∀ col ∈ c.columns, col.Generated → isSystemColumn col.name = false →
    ∀ k, row[col.name]? = some (.int k) → k ≤ c.counter

/-- A stored tuple is read with the first columns of the row that it was made of. -/
theorem mem_of_stored {hdr : TupleHeader} {row row' : Row} {t : Tuple}
    (ht : rowToTuple row hdr = .ok t) (hread : toRow t = .ok row') (name : Str) (v : Value) :
    (business row')[name]? = some v ↔
      (name, v) ∈ (business row).toList.take ((business row).size % 65536) := by
  obtain ⟨bs, henc, ht⟩ := ExceptList.bind_ok_iff.mp ht
  cases ht
  obtain ⟨cols, hdec, rfl⟩ := toRow_eq_ok.mp hread
  rw [business_withSystemColumns]
  by_cases hne : business row = ∅
  · rw [decode_encode_empty henc hne] at hdec
    cases hdec
  rw [decode_encode henc hne] at hdec
  cases hdec
  have hdistinct := Std.ExtTreeMap.distinct_keys_toList.sublist
    (List.take_sublist ((business row).size % 65536) (business row).toList)
  rw [getElem?_business]
  constructor
  · intro hv
    split at hv
    · cases hv
    · exact (OrderedMap.getElem?_ofList hdistinct).mp hv
  · intro hmem
    have hsome := Std.ExtTreeMap.mem_toList_iff_getElem?_eq_some.mp (List.mem_of_mem_take hmem)
    rw [getElem?_business] at hsome
    split at hsome
    · cases hsome
    · rename_i hsystem
      rw [if_neg hsystem]
      exact (OrderedMap.getElem?_ofList hdistinct).mpr hmem

/-- The columns that a stored tuple is read with are columns of the row that it was made of. -/
theorem getElem?_of_stored {hdr : TupleHeader} {row row' : Row} {t : Tuple} {name : Str} {v : Value}
    (ht : rowToTuple row hdr = .ok t) (hread : toRow t = .ok row')
    (hname : isSystemColumn name = false) (hv : row'[name]? = some v) : row[name]? = some v := by
  have hbusiness {r : Row} : (business r)[name]? = r[name]? := by
    rw [getElem?_business, if_neg (by simp [hname])]
  rw [← hbusiness] at hv ⊢
  have hmem := (mem_of_stored ht hread name v).mp hv
  exact Std.ExtTreeMap.mem_toList_iff_getElem?_eq_some.mp (List.mem_of_mem_take hmem)

/-- Rows with the same business columns agree on a key. -/
theorem getElem?_congr {row row' : Row} (hb : business row' = business row) {name : Str}
    (hname : isSystemColumn name = false) : row'[name]? = row[name]? := by
  have heq := congrArg (fun r : Row => r[name]?) hb
  simpa only [getElem?_business, hname, Bool.false_eq_true, if_false] using heq

/-- A row with counted keys may be stored. -/
theorem admits_keysCounted {c : TableContext} {row : Row} (h : ∀ col ∈ c.columns, col.Generated →
    isSystemColumn col.name = false → ∀ k, row[col.name]? = some (.int k) → k ≤ c.counter)
    (id : Int64) : Admits KeysCounted c id row := by
  intro q t ht row' hread col hcol hkey hname k hk
  exact h col hcol hkey hname k (getElem?_of_stored ht hread hname hk)

theorem tupleInvariant_keysCounted : TupleInvariant KeysCounted where
  mono hle h row hread col hcol hkey hname k hk := by
    rw [hle.columns] at hcol
    exact Int64.le_trans (h row hread col hcol hkey hname k hk) hle.counter
  restamp h hread hb := by
    apply admits_keysCounted
    intro col hcol hkey hname k hk
    rw [getElem?_congr hb hname] at hk
    exact h _ hread col hcol hkey hname k hk

/-! ### Statements -/

/-- No other column and no system column has the name of a generated key. -/
def KeyColumns (columns : List ColumnDef) : Prop :=
  ∀ col ∈ columns, col.Generated → isSystemColumn col.name = false ∧
    ∀ col' ∈ columns, col'.name = col.name → col'.Generated

instance (columns : List ColumnDef) : Decidable (KeyColumns columns) :=
  inferInstanceAs (Decidable (∀ col ∈ columns, _ → _ ∧ ∀ col' ∈ columns, _ → _))

/-- A key that an insert is given is at most the row id that its row gets. -/
def GivenKeysCounted (columns : List ColumnDef) (row : Row) (counter : Int64) : Prop :=
  ∀ col ∈ columns, col.Generated → ∀ v ∈ row[col.name]?, ∀ k, coerce .integer v = .ok (.int k) →
    k.toInt ≤ counter.toInt + 1

namespace StorageEngine
variable {e : StorageEngine} {schema : TableSchema} {row validated : Row} {table : Str}

/-- What an insert must meet. -/
def InsertKeysCounted (e : StorageEngine) (table : Str) (row : Row) : Prop :=
  ∀ schema, e.tables[e.resolveTableName table]? = some schema → KeyColumns schema.columns ∧
    GivenKeysCounted schema.columns row (e.rowIds.getD (e.resolveTableName table) 0)

/-- An update must leave the keys alone. -/
def KeepsKeys (e : StorageEngine) (table : Str) (updates : Updates) : Prop :=
  ∀ schema, e.tables[e.resolveTableName table]? = some schema → ∀ col ∈ schema.columns,
    col.Generated → updates[col.name]? = none

/-- A column of the context is a column of the schema. -/
theorem exists_column {q : Str} {col : ColumnDef} (h : col ∈ (e.tableContext q).columns) :
    ∃ schema, e.tables[q]? = some schema ∧ ∃ col₀ ∈ schema.columns, col₀.withoutDefault = col := by
  cases hschema : e.tables[q]? with
  | none =>
    rw [tableContext, hschema] at h
    cases h
  | some schema =>
    rw [columns_tableContext hschema] at h
    exact ⟨schema, rfl, List.mem_map.mp h⟩

/-- The key of a validated row: what is given, coerced, or the next row id. -/
theorem key_of_validate (hcols : KeyColumns schema.columns) {col : ColumnDef}
    (hcol : col ∈ schema.columns) (hkey : col.Generated) (h : e.validate schema row = .ok validated) :
    (∃ v w, row[col.name]? = some v ∧ coerce .integer v = .ok w ∧ validated[col.name]? = some w) ∨
      (row[col.name]? = none ∧ e.rowIds.getD schema.name 0 ≠ Int64.maxValue ∧
        validated[col.name]? = some (.int (e.rowIds.getD schema.name 0 + 1))) := by
  rcases mem_validate h col.name with ⟨col', hcol', hname, v, hv, hvalue⟩ | ⟨hnone, -⟩
  · have hkey' := (hcols col hcol hkey).2 col' hcol' hname
    rw [validateColumn, hname] at hv
    cases hrow : row[col.name]? with
    | some x =>
      rw [hrow, hkey'.2] at hv
      exact .inl ⟨x, v, rfl, hv, hvalue⟩
    | none =>
      rw [hrow] at hv
      dsimp only at hv
      rw [if_pos (And.intro hkey'.1 hkey'.2)] at hv
      split at hv
      · cases hv
      · next hmax =>
        cases hv
        exact .inr ⟨rfl, hmax, hvalue⟩
  · exact absurd rfl (hnone col hcol)

theorem toInt_succ_le {k n : Int64} (hn : n ≠ Int64.maxValue) (h : k.toInt ≤ n.toInt + 1) :
    k ≤ n + 1 := by
  rw [Int64.le_iff_toInt_le, FixedWidth.toInt_succ hn]
  exact h

/-- With the next row id at hand, what such an insert stores has counted keys. -/
theorem insertOk_keysCounted (hstored : Stored KeysCounted e) (h : InsertKeysCounted e table row)
    (hmax : e.rowIds.getD (e.resolveTableName table) 0 ≠ Int64.maxValue) :
    InsertOk KeysCounted table row e := by
  intro schema validated row' hschema hvalidated hb
  obtain ⟨hcols, hgiven⟩ := h schema hschema
  apply admits_keysCounted
  intro col hcol hkey hname k hk
  have hcol : col ∈ (e.tableContext (e.resolveTableName table)).columns := hcol
  rw [columns_tableContext hschema] at hcol
  obtain ⟨col₀, hcol₀, rfl⟩ := List.mem_map.mp hcol
  rw [getElem?_congr hb hname] at hk
  rcases key_of_validate hcols hcol₀ hkey hvalidated with
    ⟨v, w, hrow, hcoerce, hvalue⟩ | ⟨-, -, hvalue⟩
  · obtain rfl := Option.some.inj (hvalue.symm.trans hk)
    exact toInt_succ_le hmax (hgiven col₀ hcol₀ hkey v hrow k hcoerce)
  · obtain rfl := Value.int.inj (Option.some.inj (hk.symm.trans hvalue))
    rw [hstored.named _ schema hschema]
    exact Int64.le_refl _

/-- Without a next row id nothing gets past taking it. -/
theorem wp_nextRowId_max {q : Str} {Q : Int64 → StorageEngine → Prop}
    {E : Failure → StorageEngine → Prop} (hmax : e.rowIds.getD q 0 = Int64.maxValue)
    (h : E .undefined e) : (nextRowId q).wp Q E e := by
  rw [nextRowId, Prog.wp_bind, Prog.wp_get]
  dsimp only
  rw [if_pos hmax]
  exact h

theorem wp_insertBody_max (hstored : Stored KeysCounted e)
    (hmax : e.rowIds.getD (e.resolveTableName table) 0 = Int64.maxValue) :
    (insertBody table row).wp (fun _ => Stored KeysCounted) (fun _ => Stored KeysCounted) e := by
  rw [insertBody, Prog.wp_bind, Prog.wp_get]
  dsimp only
  split
  · exact hstored
  · rw [Prog.wp_bind, Prog.wp_ofExcept]
    refine ⟨fun validated _ => ?_, fun _ _ => hstored⟩
    rw [Prog.wp_bind]
    exact wp_nextRowId_max hmax hstored

theorem wp_insertWithTxnBody_max (hstored : Stored KeysCounted e)
    (hmax : e.rowIds.getD (e.resolveTableName table) 0 = Int64.maxValue) :
    (insertWithTxnBody table row).wp (fun _ => Stored KeysCounted) (fun _ => Stored KeysCounted) e := by
  rw [insertWithTxnBody, Prog.wp_bind, Prog.wp_get]
  dsimp only
  split
  · exact hstored
  · rw [Prog.wp_bind, Prog.wp_ofExcept]
    refine ⟨fun validated _ => ?_, fun _ _ => hstored⟩
    rw [Prog.wp_bind]
    exact wp_nextRowId_max hmax hstored

theorem updateOk_keysCounted {updates : Updates} (h : KeepsKeys e table updates) :
    UpdateOk KeysCounted updates (e.tableContext (e.resolveTableName table)) := by
  intro t row row' ht hread hb
  apply admits_keysCounted
  intro col hcol hkey hname k hk
  obtain ⟨schema, hschema, col₀, hcol₀, rfl⟩ := exists_column hcol
  rw [getElem?_congr hb hname, getElem?_applyUpdates] at hk
  have hnone : updates[col₀.withoutDefault.name]? = none := h schema hschema col₀ hcol₀ hkey
  rw [hnone, Option.none_or] at hk
  exact ht row hread _ hcol hkey hname k hk

end StorageEngine

/-! ### Runs -/

/-- Explicit keys do not run ahead of the row ids, and updates leave keys alone. -/
def Call.KeysSafe (e : StorageEngine) : Call → Prop
  | .insert table row | .insertWithTxn table row => InsertKeysCounted e table row
  | .update table _ updates | .updateWithTxn table _ updates => KeepsKeys e table updates
  | .createTable name _ => CreateOk name e
  | .txn p => ∃ c : ManagerCall, c.client = true ∧ p = c.run
  | _ => True

/-- A run of one engine. -/
def Session.KeysSafe (s : Session) : Action → Prop
  | .call c => c.KeysSafe s.engine
  | .save | .close => True
  | .restart _ _ _ _ => False

theorem stored_checkpoint {G : TableContext → Tuple → Prop} {e : StorageEngine} (h : Stored G e) :
    Stored G (checkpoint.run e).2 := by
  rw [run_checkpoint]
  cases e.toCheckpoint with
  | error f => exact h
  | ok ckp => exact h.frame rfl rfl rfl rfl

theorem wp_body_keysCounted {e : StorageEngine} (h : Stored KeysCounted e) {c : Call}
    (hc : c.KeysSafe e) :
    c.body.wp (fun _ => Stored KeysCounted) (fun _ => Stored KeysCounted) e := by
  have hG := tupleInvariant_keysCounted
  have discard {α : Type} {p : EngineM α}
      (hp : p.wp (fun _ => Stored KeysCounted) (fun _ => Stored KeysCounted) e) :
      (Call.discard p).wp (fun _ => Stored KeysCounted) (fun _ => Stored KeysCounted) e := by
    rw [Call.discard, Prog.wp_bind]
    exact hp
  cases c with
  | insert table row =>
    by_cases hmax : e.rowIds.getD (e.resolveTableName table) 0 = Int64.maxValue
    · exact discard (wp_insertBody_max h hmax)
    · exact wp_body_stored hG h (c := .insert table row) (insertOk_keysCounted h hc hmax)
  | insertWithTxn table row =>
    by_cases hmax : e.rowIds.getD (e.resolveTableName table) 0 = Int64.maxValue
    · exact discard (wp_insertWithTxnBody_max h hmax)
    · exact wp_body_stored hG h (c := .insertWithTxn table row) (insertOk_keysCounted h hc hmax)
  | update table matches_ updates =>
    exact wp_body_stored hG h (c := .update table matches_ updates) (updateOk_keysCounted hc)
  | updateWithTxn table matches_ updates =>
    exact wp_body_stored hG h (c := .updateWithTxn table matches_ updates) (updateOk_keysCounted hc)
  | createTable name columns => exact wp_body_stored hG h (c := .createTable name columns) hc
  | txn p => exact wp_body_stored hG h (c := .txn p) hc
  | _ => exact wp_body_stored hG h trivial

/-- Along such runs no stored key is past its counter. -/
theorem stored_of_keysSafe {s : Session} (h : Session.Reached Session.KeysSafe s) :
    Stored KeysCounted s.engine := by
  refine h.engine (fun checkpointInterval clock => stored_create _ _ _) fun s a e ha ih hs => ?_
  cases a with
  | call c =>
    subst hs
    refine exec_of_body ?_ fun _ e' _ _ h' => stored_checkpoint h'
    have hbody := wp_body_keysCounted ih ha
    rcases hrun : c.body.run s.engine with ⟨f | ⟨⟩, e'⟩
    · have hstored := Prog.wp_error hbody hrun
      exact hstored
    · have hstored := Prog.wp_ok hbody hrun
      exact hstored
  | save =>
    subst hs
    exact stored_checkpoint ih
  | close =>
    subst hs
    exact stored_checkpoint ih
  | restart k n checkpointInterval clock => exact absurd ha id

/-! ### Errors -/

/-- The text starts otherwise than the one about a duplicate key. -/
def Failure.Plain (f : Failure) : Prop := f.what.head? ≠ some 0xE9

instance (f : Failure) : Decidable f.Plain := inferInstanceAs (Decidable (_ ≠ _))

theorem plain_append {text : Str} {b : UInt8} (h : text.head? = some b) (hb : b ≠ 0xE9) (rest : Str) :
    (Failure.runtimeError (text ++ rest)).Plain := by
  have hhead : (Failure.runtimeError (text ++ rest)).what.head? = some b := by
    rw [Failure.what, List.head?_append, h]
    rfl
  rw [Failure.Plain, hhead]
  intro he
  exact hb (Option.some.inj he)

theorem Failure.Plain.ne_duplicateKey {f : Failure} (h : f.Plain) (column : Str) :
    f ≠ duplicateKey column := by
  rintro rfl
  apply h
  have hhead : (str "重复键值违反唯一约束 \"").head? = some 0xE9 := by decide
  rw [duplicateKey, Failure.what, List.head?_append, List.head?_append, hhead]
  rfl

namespace BinaryRowCodec
open ByteFormat

theorem raises_readBytes {ε : Type} {E : ε → Prop} {short : ε} (h : E short) (n : Nat) :
    Prog.Raises E (readBytes n short) := by
  intro bs
  unfold Prog.wp readBytes
  dsimp only
  cases splitBytes n bs <;> first | exact h | trivial

theorem raises_readLE {ε : Type} {E : ε → Prop} {short : ε} (h : E short) (n : Nat) :
    Prog.Raises E (readLE n short) := (raises_readBytes h n).map

theorem raises_readMany {ε α : Type} {E : ε → Prop} {r : Reader ε α} (h : Prog.Raises E r) (n : Nat) :
    Prog.Raises E (readMany r n) := by
  induction n with
  | zero => exact Prog.Raises.pure []
  | succ n ih => exact h.bind fun _ => ih.bind fun _ => Prog.Raises.pure _

theorem plain_valueError (e : ValueError) : (valueError e).Plain := by
  cases e with
  | unknownTag t => exact plain_append (b := 66) (by decide) (by decide) _
  | _ => decide

theorem raises_readValue : Prog.Raises Failure.Plain (readValue valueError) := by
  have h := plain_valueError
  refine (raises_readLE (h _) 1).bind fun tag => ?_
  split
  · exact Prog.Raises.pure _
  · exact (raises_readLE (h _) 8).map
  · exact (raises_readLE (h _) 8).map
  · exact (raises_readLE (h _) 1).map
  · exact (raises_readLE (h _) 4).bind fun len => (raises_readBytes (h _) len).map
  · exact Prog.Raises.throw (h _)

theorem raises_readRow : Prog.Raises Failure.Plain readRow :=
  (raises_readLE (by decide) 2).bind fun ncols => Prog.Raises.get.bind fun _ =>
    (Prog.Raises.require _ (by decide)).bind fun _ => (raises_readMany
      ((raises_readLE (by decide) 2).bind fun len => (raises_readBytes (by decide) len).bind fun _ =>
        raises_readValue.bind fun _ => Prog.Raises.pure _) ncols).bind fun _ => Prog.Raises.pure _

theorem plain_decode {data : Bytes} {f : Failure} (h : decode data = .error f) : f.Plain := by
  unfold decode at h
  split at h
  · cases h
  · rcases hrun : readRow.run data with ⟨r, rest⟩
    rw [hrun] at h
    have h : r = .error f := h
    rw [h] at hrun
    exact raises_readRow.error hrun

theorem plain_encodeColumns {columns : List (Str × Value)} {f : Failure}
    (h : encodeColumns columns = .error f) : f.Plain := by
  induction columns with
  | nil => cases h
  | cons p rest ih =>
    rw [encodeColumns] at h
    rcases ExceptList.bind_error_iff.1 h with hp | ⟨column, -, h⟩
    · unfold encodeColumn at hp
      split at hp
      · cases hp
        exact plain_append (b := 66) (by decide) (by decide) _
      · split at hp
        · split at hp
          · cases hp
            decide
          · cases hp
        · cases hp
    · rcases ExceptList.bind_error_iff.1 h with h | ⟨body, -, h⟩
      · exact ih h
      · cases h

theorem plain_rowToTuple {row : Row} {hdr : TupleHeader} {f : Failure}
    (h : rowToTuple row hdr = .error f) : f.Plain := by
  rcases ExceptList.bind_error_iff.1 h with h | ⟨payload, -, h⟩
  · rcases ExceptList.bind_error_iff.1 h with h | ⟨body, -, h⟩
    · exact plain_encodeColumns h
    · cases h
  · cases h

end BinaryRowCodec

theorem plain_toRow {t : Tuple} {f : Failure} (h : toRow t = .error f) : f.Plain := by
  rcases ExceptList.bind_error_iff.1 h with h | ⟨row, -, h⟩
  · rcases ExceptList.bind_error_iff.1 h with h | ⟨row, -, h⟩
    · exact plain_decode h
    · cases h
  · cases h

theorem plain_coerce {type : DataType} {v : Value} {f : Failure} (h : coerce type v = .error f) :
    f.Plain := by
  have hstoll : ∀ s f, Json.stoll s = .error f → f.Plain := by
    intro s f h
    unfold Json.stoll at h
    split at h <;> cases h <;> decide
  have hstod : ∀ s f, Json.stod s = .error f → f.Plain := by
    intro s f h
    unfold Json.stod at h
    split at h <;> cases h <;> decide
  cases v with
  | string s =>
    cases type with
    | integer => exact hstoll s f (ExceptList.map_error_iff.1 h)
    | bigint => exact hstoll s f (ExceptList.map_error_iff.1 h)
    | float => exact hstod s f (ExceptList.map_error_iff.1 h)
    | double => exact hstod s f (ExceptList.map_error_iff.1 h)
    | _ => cases h
  | _ => cases type <;> cases h

section
variable {e : StorageEngine} {f : Failure}

theorem plain_validate {schema : TableSchema} {row : Row} (h : e.validate schema row = .error f) :
    f.Plain := by
  obtain ⟨col, -, start, h⟩ := ExceptList.error_of_foldlM h
  rcases ExceptList.bind_error_iff.1 h with h | ⟨v, -, h⟩
  · unfold validateColumn at h
    split at h
    · exact plain_coerce h
    · split at h
      · dsimp only at h
        split at h
        · cases h
          decide
        · cases h
      · split at h
        · cases h
        · split at h
          · cases h
            rw [List.append_assoc]
            exact plain_append (b := 229) (by decide) (by decide) _
          · cases h
  · cases h

theorem plain_toCheckpoint (h : e.toCheckpoint = .error f) : f.Plain := by
  rcases ExceptList.bind_error_iff.1 h with h | ⟨rows, -, h⟩
  · obtain ⟨name, -, h⟩ := ExceptList.error_of_mapM h
    unfold tableCheckpoint at h
    split at h
    · have h := ExceptList.map_error_iff.1 (ExceptList.map_error_iff.1 h)
      obtain ⟨t, -, h⟩ := ExceptList.error_of_mapM h
      exact plain_toRow h
    · cases h
  · cases h

theorem raises_checkpoint : Prog.Raises Failure.Plain checkpoint :=
  Prog.Raises.get.bind fun _ => (Prog.Raises.ofExcept fun _ h => plain_toCheckpoint h).bind fun _ =>
    Prog.Raises.set _

theorem raises_nextSeq : Prog.Raises Failure.Plain nextSeq :=
  Prog.Raises.get.bind fun _ => Prog.Raises.ite (fun _ => Prog.Raises.throw (by decide)) fun _ =>
    (Prog.Raises.set _).bind fun _ => Prog.Raises.pure _

theorem raises_storeInserted (q : Str) (id : Int64) (row : Row) (xid : TransactionId) :
    Prog.Raises Failure.Plain (storeInserted q id row xid) :=
  (raises_nextSeq.bind fun _ => Prog.Raises.modify _).bind fun _ =>
    ((Prog.Raises.ofExcept fun _ h => plain_rowToTuple h).bind fun _ => raises_nextSeq.bind fun _ =>
      Prog.Raises.modify _).bind fun _ => (Prog.Raises.modify _).bind fun _ => Prog.Raises.modify _

theorem raises_assignXid : Prog.Raises Failure.Plain TransactionManager.assignXid := by
  refine Prog.Raises.get.bind fun m => Prog.Raises.ite (fun _ => ?_) fun _ => Prog.Raises.pure _
  refine Prog.Raises.bind ?_ fun _ => (Prog.Raises.modify _).bind fun _ => Prog.Raises.pure _
  exact (Prog.Raises.modify _).bind fun _ => Prog.Raises.get.bind fun _ =>
    Prog.Raises.ite (fun _ => Prog.Raises.throw (by decide)) fun _ =>
      (Prog.Raises.set _).bind fun _ => Prog.Raises.pure _

/-- A check that finds the value in no tuple has no other errors. -/
theorem raises_checkUnique {q : Str} {columns : List ColumnDef} {row : Row} {r : Reader}
    {all : List Tuple} (h : ∀ col ∈ columns, col.primaryKey = true → ∀ v ∈ row[col.name]?,
      ∀ t ∈ all, ∀ existing, toRow t = .ok existing → holdsValue existing col.name v = false) :
    Prog.Raises Failure.Plain (checkUnique q columns row r all) := by
  refine Prog.Raises.forEach fun col hcol => ?_
  split
  · exact Prog.Raises.pure ()
  · next hkey =>
    split
    · exact Prog.Raises.pure ()
    · next v hv =>
      refine Prog.Raises.forEach fun t ht s => ?_
      rw [checkUniqueTuple, Prog.wp_bind, Prog.wp_ofExcept]
      refine ⟨fun existing hread => ?_, fun _ hread => plain_toRow hread⟩
      have hnot := h col hcol (by simpa using hkey) v hv t ht existing hread
      rw [Prog.wp_bind, Prog.wp_get, hnot, if_neg Bool.false_ne_true]
      rw [Prog.wp_ite]
      split
      · trivial
      · split
        · trivial
        · trivial

end

/-! ### Inserts without a key -/

namespace StorageEngine
variable {e : StorageEngine} {schema : TableSchema} {row validated : Row} {table : Str}

/-- Every key is an INTEGER and none is given. -/
def OmitsKey (columns : List ColumnDef) (row : Row) : Prop :=
  ∀ col ∈ columns, col.primaryKey = true → col.type = .integer ∧ row[col.name]? = none

/-- An insert without a key is not rejected as a duplicate, and a key that it generates is in no stored
row of the table, whoever sees it. -/
structure GeneratesFreshKeys (e : StorageEngine) (table : Str) (row : Row) : Prop where
  accepted : ∀ schema, e.tables[e.resolveTableName table]? = some schema →
    OmitsKey schema.columns row → ∀ f e', (insertWithTxn table row).run e = (.error f, e') →
      ∀ column, f ≠ duplicateKey column
  fresh : ∀ schema, e.tables[e.resolveTableName table]? = some schema →
    ∀ row' e', (insertWithTxn table row).run e = (.ok row', e') →
      ∀ col ∈ schema.columns, col.Generated → row[col.name]? = none →
        ∃ k, row'[col.name]? = some (.int k) ∧
          ∀ m, e.data[e.resolveTableName table]? = some m → ∀ t ∈ m.scanAll,
            ∀ existing, toRow t = .ok existing → holdsValue existing col.name (.int k) = false

/-- The next row id is in no key column. -/
theorem Stored.holdsValue_next (h : Stored KeysCounted e)
    (hschema : e.tables[e.resolveTableName table]? = some schema) {col : ColumnDef}
    (hcol : col ∈ schema.columns) (hkey : col.Generated) (hname : isSystemColumn col.name = false)
    (hmax : e.rowIds.getD (e.resolveTableName table) 0 ≠ Int64.maxValue) {m : MemTable}
    (hm : e.data[e.resolveTableName table]? = some m) {t : Tuple} (ht : t ∈ m.scanAll)
    {existing : Row} (hread : toRow t = .ok existing) : holdsValue existing col.name
      (.int (e.rowIds.getD (e.resolveTableName table) 0 + 1)) = false := by
  cases hv : existing[col.name]? with
  | none =>
    rw [holdsValue, hv]
    rfl
  | some v =>
    rw [holdsValue, hv, Option.any_some]
    cases v with
    | int k =>
      have hmem : col.withoutDefault ∈ (e.tableContext (e.resolveTableName table)).columns := by
        rw [columns_tableContext hschema]
        exact List.mem_map_of_mem hcol
      have hle := (h.tables _ m hm).good t ht existing hread _ hmem hkey hname k hv
      rw [Value.eqv, beq_eq_false_iff_ne]
      rintro rfl
      exact Int64.not_lt.mpr hle (FixedWidth.lt_succ hmax)
    | _ => rfl

theorem getElem?_stamp {name : Str} (hname : isSystemColumn name = false) (id : Int64)
    (xmin xmax : TransactionId) (cid : Int32) :
    (stamp (validated.insert (str "_rowid") (.int id)) xmin xmax cid)[name]? = validated[name]? := by
  apply getElem?_congr _ hname
  rw [business_stamp, business_insert_system rfl]

/-- The row that the insert makes holds the next row id in the keys that it generates. -/
theorem key_of_stamp (hcols : KeyColumns schema.columns) (hnamed : schema.name = e.resolveTableName table)
    (hvalidated : e.validate schema row = .ok validated) (id : Int64) (xmin xmax : TransactionId)
    (cid : Int32) {col : ColumnDef} (hcol : col ∈ schema.columns) (hkey : col.Generated)
    (hrow : row[col.name]? = none) :
    (stamp (validated.insert (str "_rowid") (.int id)) xmin xmax cid)[col.name]? =
      some (.int (e.rowIds.getD (e.resolveTableName table) 0 + 1)) := by
  rw [getElem?_stamp (hcols col hcol hkey).1, ← hnamed]
  rcases key_of_validate hcols hcol hkey hvalidated with ⟨v, -, hv, -⟩ | ⟨-, -, hvalue⟩
  · rw [hrow] at hv
    cases hv
  · exact hvalue

/-- The check of a row with generated keys finds no duplicate. -/
theorem wp_checkUnique_keys (hstored : Stored KeysCounted e)
    (hschema : e.tables[e.resolveTableName table]? = some schema) (hcols : KeyColumns schema.columns)
    (hmax : e.rowIds.getD (e.resolveTableName table) 0 ≠ Int64.maxValue) {m : MemTable}
    (hm : e.data[e.resolveTableName table]? = some m) {stamped : Row}
    (hkeys : ∀ col ∈ schema.columns, col.Generated → row[col.name]? = none →
      stamped[col.name]? = some (.int (e.rowIds.getD (e.resolveTableName table) 0 + 1))) (r : Reader)
    (manager : TransactionManager) :
    (checkUnique (e.resolveTableName table) schema.columns stamped r m.scanAll).wp (fun _ _ => True)
      (fun f _ => OmitsKey schema.columns row → f.Plain) manager := by
  by_cases homits : OmitsKey schema.columns row
  · refine Prog.wp_mono (raises_checkUnique ?_ manager) (fun _ _ h => h) fun _ _ h _ => h
    intro col hcol hkey v hv t ht existing hread
    obtain ⟨htype, hnone⟩ := homits col hcol hkey
    have hgenerated : col.Generated := ⟨hkey, htype⟩
    obtain rfl := Option.some.inj ((hkeys col hcol hgenerated hnone).symm.trans hv)
    exact hstored.holdsValue_next hschema hcol hgenerated (hcols col hcol hgenerated).1 hmax hm ht
      hread
  · exact Prog.wp_mono (Prog.wp_true _) (fun _ _ h => h) fun _ _ _ h => absurd h homits

/-- The generated keys of the row that is stored, and the errors of an insert without a key. -/
theorem wp_insertWithTxnBody_keys (hstored : Stored KeysCounted e)
    (hschema : e.tables[e.resolveTableName table]? = some schema) (hcols : KeyColumns schema.columns) :
    (insertWithTxnBody table row).wp
      (fun row' _ => e.rowIds.getD (e.resolveTableName table) 0 ≠ Int64.maxValue ∧
        ∀ col ∈ schema.columns, col.Generated → row[col.name]? = none →
          row'[col.name]? = some (.int (e.rowIds.getD (e.resolveTableName table) 0 + 1)))
      (fun f _ => OmitsKey schema.columns row → f.Plain) e := by
  have hnamed := hstored.named _ schema hschema
  rw [insertWithTxnBody, Prog.wp_bind, Prog.wp_get]
  simp only [hschema]
  rw [Prog.wp_bind, Prog.wp_ofExcept]
  refine ⟨fun validated hvalidated => ?_, fun f hf _ => plain_validate hf⟩
  rw [Prog.wp_bind, nextRowId, Prog.wp_bind, Prog.wp_get]
  dsimp only
  split
  · intro _
    decide
  rename_i hmax
  rw [Prog.wp_bind, Prog.wp_set, Prog.wp_pure, Prog.wp_bind, inTxn, Prog.wp_zoom]
  refine Prog.wp_mono (raises_assignXid _) (fun xid m₁ _ => ?_) fun f _ hf _ => hf
  rw [Prog.wp_bind, Prog.wp_get, Prog.wp_bind, Prog.wp_ofExcept]
  refine ⟨fun m hm => ?_, fun f hf _ => ?_⟩
  · have hm : e.data[e.resolveTableName table]? = some m := by
      unfold dataAt at hm
      split at hm
      · cases hm
        assumption
      · cases hm
    rw [Prog.wp_bind, inTxn, Prog.wp_zoom]
    have hkeys := fun xmin xmax cid col (hcol : col ∈ schema.columns) hkey hrow =>
      key_of_stamp hcols hnamed hvalidated (e.rowIds.getD (e.resolveTableName table) 0 + 1) xmin xmax
        cid hcol hkey hrow
    refine Prog.wp_mono (wp_checkUnique_keys hstored hschema hcols hmax hm (hkeys _ _ _) _ m₁)
      (fun _ m₂ _ => ?_) fun _ _ h => h
    rw [Prog.wp_bind, inTxn, Prog.wp_zoom, Prog.wp_modify, Prog.wp_bind]
    refine Prog.wp_mono (raises_storeInserted _ _ _ _ _) (fun _ _ _ => ?_) fun _ _ h _ => h
    exact ⟨hmax, hkeys _ _ _⟩
  · unfold dataAt at hf
    split at hf
    · cases hf
    · cases hf
      decide

theorem generatesFreshKeys (hstored : Stored KeysCounted e) (h : InsertKeysCounted e table row) :
    GeneratesFreshKeys e table row where
  accepted schema hschema homits f e' hrun := by
    have hplain : (insertWithTxn table row).wp (fun _ _ => True) (fun f _ => f.Plain) e := by
      rw [insertWithTxn, thenCheckpoint, Prog.wp_bind]
      refine Prog.wp_mono (wp_insertWithTxnBody_keys hstored hschema (h schema hschema).1)
        (fun row' e₁ _ => ?_) fun _ _ herror => herror homits
      rw [Prog.wp_bind, maybeCheckpoint, Prog.wp_bind, Prog.wp_get, Prog.wp_ite]
      split
      · exact raises_checkpoint _
      · trivial
    have hf := Prog.wp_error hplain hrun
    exact fun column => Failure.Plain.ne_duplicateKey hf column
  fresh schema hschema row' e' hrun col hcol hkey hnone := by
    have hkeys := Prog.wp_ok (wp_thenCheckpoint (Prog.wp_mono (wp_insertWithTxnBody_keys hstored
      hschema (h schema hschema).1) (fun _ _ h => h) fun _ _ _ => trivial)) hrun
    obtain ⟨hmax, hkeys⟩ := hkeys
    refine ⟨_, hkeys col hcol hkey hnone, fun m hm t ht existing hread => ?_⟩
    exact hstored.holdsValue_next hschema hcol hkey ((h schema hschema).1 col hcol hkey).1 hmax hm ht
      hread

end StorageEngine

/-- Along every run in which no key is given past the row id of its row, an insert without a key is not
rejected as a duplicate and the key that it generates is in no row of the table. -/
theorem generatesFreshKeys_of_keysSafe {s : Session} (h : Session.Reached Session.KeysSafe s)
    (table : Str) (row : Row) (hinsert : s.KeysSafe (.call (.insertWithTxn table row))) :
    GeneratesFreshKeys s.engine table row := generatesFreshKeys (stored_of_keysSafe h) hinsert

def idColumns : List ColumnDef := [⟨str "id", .integer, false, true, none⟩]

def idRow (k : Int64) : Row := (∅ : Row).insert (str "id") (.int k)

def idEngine (calls : List Call) : StorageEngine :=
  calls.foldl (fun e c => (c.exec.run e).2)
    ((Call.createTable (str "t") idColumns).exec.run (create Disk.empty 0 0)).2

/-- What an insert must meet, for a table whose columns and counter are known. -/
theorem insertKeysCounted_of_columns {e : StorageEngine} {row : Row} (columns : List ColumnDef)
    (counter : Int64)
    (htable : (e.tables[e.resolveTableName (str "t")]?).map TableSchema.columns = some columns)
    (hcounter : e.rowIds.getD (e.resolveTableName (str "t")) 0 = counter)
    (hcols : KeyColumns columns) (hgiven : GivenKeysCounted columns row counter) :
    InsertKeysCounted e (str "t") row := by
  intro schema hschema
  have hcolumns : some schema.columns = some columns :=
    (congrArg (Option.map TableSchema.columns) hschema).symm.trans htable
  rw [Option.some.inj hcolumns, hcounter]
  exact ⟨hcols, hgiven⟩

/-- The first row takes its key from the insert, the second one from the counter. -/
theorem generatesFreshKeys_idRow :
    GeneratesFreshKeys (idEngine [.insertWithTxn (str "t") (idRow 1)]) (str "t") ∅ := by
  refine generatesFreshKeys_of_keysSafe (.step (a := .call (.insertWithTxn (str "t") (idRow 1)))
    (.step (a := .call (.createTable (str "t") idColumns)) (.start 0 0) ?_ rfl) ?_ rfl) _ _ ?_
  · intro _ r hr
    cases hr
  · apply insertKeysCounted_of_columns idColumns 0
    · decide +kernel
    · decide +kernel
    · decide
    · intro col hcol hkey v hv k hk
      obtain rfl := List.mem_singleton.mp hcol
      cases (show (idRow 1)[str "id"]? = some (.int 1) by decide +kernel).symm.trans hv
      cases hk
      decide
  · apply insertKeysCounted_of_columns idColumns 1
    · decide +kernel
    · decide +kernel
    · decide
    · intro col hcol hkey v hv k hk
      have hnone : (∅ : Row)[col.name]? = none := Std.ExtTreeMap.getElem?_empty
      rw [hnone] at hv
      cases hv

/-- A row with a key of its own is inserted and committed. -/
def keyAhead : List Call :=
  [.insertWithTxn (str "t") (idRow 2), .txn ManagerCall.commitTransaction.run]

/-- The key that is given first is the one that is generated next. -/
theorem not_generatesFreshKeys_two :
    ∃ s, Session.Reached (fun _ _ => True) s ∧ ¬ GeneratesFreshKeys s.engine (str "t") ∅ := by
  refine ⟨_, Session.reached_calls (.start 0 0) (.createTable (str "t") idColumns :: keyAhead),
    fun h => ?_⟩
  have htable : (((idEngine keyAhead).tables[(idEngine keyAhead).resolveTableName (str "t")]?).map
      TableSchema.columns) = some idColumns := by decide +kernel
  have hrejected : (match ((insertWithTxn (str "t") ∅).run (idEngine keyAhead)).1 with
    | .error f => decide (f = duplicateKey (str "id"))
    | .ok _ => false) = true := by decide +kernel
  obtain ⟨schema, hschema, hcolumns⟩ := Option.map_eq_some_iff.mp htable
  rcases hrun : (insertWithTxn (str "t") ∅).run (idEngine keyAhead) with ⟨f | row, e'⟩
  · rw [hrun] at hrejected
    refine h.accepted schema hschema ?_ f e' hrun _ (of_decide_eq_true hrejected)
    rw [hcolumns]
    intro col hcol _
    obtain rfl := List.mem_singleton.mp hcol
    exact ⟨rfl, Std.ExtTreeMap.getElem?_empty⟩
  · rw [hrun] at hrejected
    cases hrejected

end JiaMiaoDB
