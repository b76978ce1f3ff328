import JiaMiaoDB.Storage.GeneratedKeys
import JiaMiaoDB.Storage.TransactionLedger

/-!
# Primary keys and the ledger

An insert looks for its keys in the stored versions. What it finds is what the ledger has: the rows that its
transaction has written count, and those that it has removed or taken back do not.
-/

set_option autoImplicit false

namespace JiaMiaoDB
open TransactionManager StorageEngine BinaryRowCodec

/-! ### The check -/

theorem duplicateKey_injective {name name' : Str} (h : duplicateKey name = duplicateKey name') :
    name = name' := by
  have htext := Failure.runtimeError.inj h
  exact List.append_cancel_left (List.append_cancel_right htext)

/-- A version that the reader sees holds the value. -/
def HeldIn (clog : CLog) (r : Reader) (column : Str) (v : Value) (t : Tuple) : Prop :=
  ∃ existing, toRow t = .ok existing ∧ r.sees clog existing = true ∧ holdsValue existing column v = true

section Check
variable {clog : CLog} {r : Reader} {q column : Str} {v : Value} {t : Tuple} {m : TransactionManager}
  {columns : List ColumnDef} {row : Row} {all : List Tuple}

/-- The check throws the error about the column only for a version that holds the value, and lets none
of these pass. -/
theorem wp_checkUniqueTuple (hclog : m.clog = clog) : (checkUniqueTuple q column v r t).wp
    (fun _ m' => m'.clog = clog ∧ ¬ HeldIn clog r column v t)
    (fun f _ => ∀ name, f = duplicateKey name → name = column ∧ HeldIn clog r column v t) m := by
  rw [checkUniqueTuple, Prog.wp_bind, Prog.wp_ofExcept]
  refine ⟨fun existing hread => ?_, fun f hf name hname =>
    absurd hname ((plain_toRow hf).ne_duplicateKey name)⟩
  have hheld : HeldIn clog r column v t ↔
      r.sees clog existing = true ∧ holdsValue existing column v = true := by
    constructor
    · intro h
      obtain ⟨existing', hread', h⟩ := h
      cases hread.symm.trans hread'
      exact h
    · exact fun h => ⟨existing, hread, h⟩
  rw [Prog.wp_bind, Prog.wp_get, hclog, hheld, Prog.wp_ite]
  split
  · next hsees =>
    refine ⟨hclog, fun h => ?_⟩
    rw [h.1] at hsees
    cases hsees
  · next hsees =>
    rw [Prog.wp_ite]
    split
    · next hholds =>
      refine fun name hname => ⟨(duplicateKey_injective hname).symm, ?_, hholds⟩
      simpa using hsees
    · next hholds =>
      have hnot : ¬ (r.sees clog existing = true ∧ holdsValue existing column v = true) :=
        fun h => hholds h.2
      split
      · next rid _ =>
        obtain ⟨-, -, hsame, -⟩ := m.frame_registerSiread ⟨q, rid⟩
        exact ⟨hsame.trans hclog, hnot⟩
      · exact ⟨hclog, hnot⟩

/-- A version holds one of the keys of the row. -/
def KeyHeld (clog : CLog) (r : Reader) (col : ColumnDef) (row : Row) (t : Tuple) : Prop :=
  col.primaryKey = true ∧ ∃ v, row[col.name]? = some v ∧ HeldIn clog r col.name v t

theorem wp_checkUnique (hclog : m.clog = clog) : (checkUnique q columns row r all).wp
    (fun _ _ => ∀ col ∈ columns, ∀ t ∈ all, ¬ KeyHeld clog r col row t)
    (fun f _ => ∀ name, f = duplicateKey name →
      ∃ col ∈ columns, col.name = name ∧ ∃ t ∈ all, KeyHeld clog r col row t) m := by
  refine Prog.wp_mono (Prog.wp_forEach (fun done m' => m'.clog = clog ∧
    ∀ col ∈ done, ∀ t ∈ all, ¬ KeyHeld clog r col row t) (fun done col rest hall m₁ h => ?_)
    ⟨hclog, fun col hcol => absurd hcol List.not_mem_nil⟩) (fun _ _ h => h.2) fun _ _ h => h
  have hcol : col ∈ columns := by
    rw [hall]
    simp
  have hdone (m' : TransactionManager) (hm' : m'.clog = clog)
      (hnew : ∀ t ∈ all, ¬ KeyHeld clog r col row t) : m'.clog = clog ∧
      ∀ col' ∈ done ++ [col], ∀ t ∈ all, ¬ KeyHeld clog r col' row t := by
    refine ⟨hm', fun col' hcol' => ?_⟩
    rcases List.mem_append.mp hcol' with hcol' | hcol'
    · exact h.2 col' hcol'
    · obtain rfl := List.mem_singleton.mp hcol'
      exact hnew
  rw [Prog.wp_ite]
  split
  · next hkey =>
    refine hdone m₁ h.1 fun t _ hheld => ?_
    rw [hheld.1] at hkey
    cases hkey
  · next hkey =>
    split
    · next hnone =>
      refine hdone m₁ h.1 fun t _ hheld => ?_
      obtain ⟨-, v, hv, -⟩ := hheld
      cases hnone.symm.trans hv
    · next v hv =>
      refine Prog.wp_mono (Prog.wp_forEach (fun seen m' => m'.clog = clog ∧
        ∀ t ∈ seen, ¬ HeldIn clog r col.name v t) (fun seen t rest hall m₂ h₂ => ?_)
        ⟨h.1, fun t ht => absurd ht List.not_mem_nil⟩) (fun _ m₂ h₂ => ?_) fun _ _ h₂ => h₂
      · have ht : t ∈ all := by
          rw [hall]
          simp
        refine Prog.wp_mono (wp_checkUniqueTuple h₂.1) (fun _ m₃ h₃ => ⟨h₃.1, fun t' ht' => ?_⟩)
          fun f _ hf name hname => ?_
        · rcases List.mem_append.mp ht' with ht' | ht'
          · exact h₂.2 t' ht'
          · obtain rfl := List.mem_singleton.mp ht'
            exact h₃.2
        · obtain ⟨rfl, hheld⟩ := hf name hname
          refine ⟨col, hcol, rfl, t, ht, ?_, v, hv, hheld⟩
          simpa using hkey
      · refine hdone m₂ h₂.1 fun t ht hheld => ?_
        obtain ⟨-, v', hv', hheld⟩ := hheld
        cases hv.symm.trans hv'
        exact h₂.2 t ht hheld

end Check

/-! ### Inserts -/

namespace StorageEngine
variable {e e' : StorageEngine} {q : Str} {row : Row}

/-- Some row of the table holds the value. -/
def Taken (rows : Rows) (q column : Str) (v : Value) : Prop :=
  ∃ id held, rows ⟨q, id⟩ = some held ∧ holdsValue held column v = true

theorem holdsValue_business {held : Row} {column : Str} (hname : isSystemColumn column = false) (v : Value) :
    holdsValue (business held) column v = holdsValue held column v := by
  rw [holdsValue, getElem?_business, hname, if_neg Bool.false_ne_true, holdsValue]

/-- The stored versions that a statement of the transaction sees are the rows of the tables. -/
theorem heldIn_iff_taken {mem : MemTable} (hs : Serial e) (hm : Accounted e.txnMgr)
    (hmem : e.data[q]? = some mem) {column : Str} (hname : isSystemColumn column = false) (v : Value) :
    (∃ t ∈ mem.scanAll, HeldIn e.txnMgr.clog e.reader column v t) ↔ Taken e.live q column v := by
  have hsingle := hs.kept.single q mem hmem
  have hgood {t : Tuple} (ht : t ∈ mem.scanAll) : Good e.txnMgr ⟨q, t.hdr.rowId.toInt64⟩ t :=
    hs.kept.cells _ t ((mem_of_cell hsingle hmem).mpr ⟨ht, rfl⟩)
  constructor
  · intro h
    obtain ⟨t, ht, existing, hread, hsees, hholds⟩ := h
    rw [hs.sees hm (hgood ht) hread, decide_eq_true_iff] at hsees
    refine ⟨t.hdr.rowId.toInt64, business existing, ?_, ?_⟩
    · rw [live, (mem_of_cell hsingle hmem).mpr ⟨ht, rfl⟩, Option.bind_some, live_of_toRow hread,
        if_pos hsees]
    · rw [holdsValue_business hname]
      exact hholds
  · intro h
    obtain ⟨id, held, hlive, hholds⟩ := h
    obtain ⟨t, hcell, hlive⟩ := Option.bind_eq_some_iff.mp hlive
    obtain ⟨ht, -⟩ := (mem_of_cell hsingle hmem).mp hcell
    obtain ⟨existing, hread, -⟩ := (hgood ht).readable.read
    rw [live_of_toRow hread] at hlive
    split at hlive
    · next hmax =>
      cases hlive
      rw [holdsValue_business hname] at hholds
      refine ⟨t, ht, existing, hread, ?_, hholds⟩
      rw [hs.sees hm (hgood ht) hread]
      exact decide_eq_true hmax
    · cases hlive

/-- Names that the ledger's rows can have. -/
def UserColumns (columns : List ColumnDef) : Prop := ∀ col ∈ columns, isSystemColumn col.name = false

theorem ne_duplicateKey_of_plain {f : Failure} {P : Str → Prop} (h : f.Plain) :
    ∀ name, f = duplicateKey name → P name :=
  fun name hname => absurd hname (h.ne_duplicateKey name)

/-- A key of the row that is inserted, as it has been completed, is taken. -/
def Clashes (e : StorageEngine) (rows : Rows) (q : Str) (schema : TableSchema) (row : Row)
    (name : Str) : Prop :=
  ∃ col ∈ schema.columns, col.name = name ∧ col.primaryKey = true ∧ ∃ validated v,
    e.validate schema row = .ok validated ∧ validated[name]? = some v ∧ Taken rows q name v

theorem wp_insertWithTxnBody_ledgerKeys {table : Str} (hm : Accounted e.txnMgr) (hs : Serial e)
    {schema : TableSchema} (hschema : e.tables[e.resolveTableName table]? = some schema)
    (huser : UserColumns schema.columns) (row : Row) :
    (insertWithTxnBody table row).wp
      (fun returned _ => ∀ col ∈ schema.columns, col.primaryKey = true →
        ∀ v, returned[col.name]? = some v → ¬ Taken e.live (e.resolveTableName table) col.name v)
      (fun f e' => ∀ name, f = duplicateKey name → e'.live = e.live ∧
        Clashes e e.live (e.resolveTableName table) schema row name) e := by
  rw [insertWithTxnBody, Prog.wp_bind, Prog.wp_get]
  simp only [hschema]
  rw [Prog.wp_bind, Prog.wp_ofExcept]
  refine ⟨fun validated hvalidated => ?_, fun f hf => ne_duplicateKey_of_plain (plain_validate hf)⟩
  have hstart : Working e [] e.cell e := .start hs.kept
  have hnextRowId : Prog.Raises Failure.Plain (nextRowId (e.resolveTableName table)) :=
    Prog.Raises.get.bind fun _ => Prog.Raises.ite (fun _ => Prog.Raises.throw (by decide)) fun _ =>
      (Prog.Raises.set _).bind fun _ => Prog.Raises.pure _
  rw [Prog.wp_bind]
  refine Prog.wp_mono (Prog.wp_and (hnextRowId e)
    (Prog.wp_and (working (holding_nextRowId _) e hstart) (ManagerInvariant.keeps_nextRowId _ e hm)))
    (fun id e₁ h₁ => ?_) fun _ _ h₁ => ne_duplicateKey_of_plain h₁.1
  obtain ⟨-, h₁, hm₁⟩ := h₁
  have hcarries := h₁.carriesOn hs fun h => absurd rfl h
  rw [Prog.wp_bind]
  refine Prog.wp_mono (Prog.wp_and (Prog.Raises.zoom raises_assignXid e₁)
    (wp_inTxn_assignXid hm₁ hcarries.serial)) (fun xid e₂ h₂ => ?_) fun _ _ h₂ =>
      ne_duplicateKey_of_plain h₂.1
  obtain ⟨-, m, rfl, h₂, hm₂, -, -⟩ := h₂
  have hlive : (e₁.setTxnMgr m).live = e.live := live_congr h₁.cell
  rw [Prog.wp_bind, Prog.wp_get, Prog.wp_bind, Prog.wp_ofExcept]
  refine ⟨fun mem hmem => ?_, fun f hf => ?_⟩
  · have hmem : (e₁.setTxnMgr m).data[e.resolveTableName table]? = some mem := getElem?_of_dataAt hmem
    rw [Prog.wp_bind, inTxn, Prog.wp_zoom]
    refine Prog.wp_mono (wp_checkUnique rfl) (fun _ m₃ h₃ => ?_) fun f m₃ hf name hname => ?_
    · rw [Prog.wp_bind, inTxn, Prog.wp_zoom, Prog.wp_modify, Prog.wp_bind]
      refine Prog.wp_mono (raises_storeInserted _ _ _ _ _) (fun _ _ _ => ?_)
        fun _ _ h => ne_duplicateKey_of_plain h
      intro col hcol hkey v hv htaken
      rw [← hlive, ← heldIn_iff_taken h₂.serial hm₂ hmem (huser col hcol)] at htaken
      obtain ⟨t, ht, hheld⟩ := htaken
      exact h₃ col hcol t ht ⟨hkey, v, hv, hheld⟩
    · obtain ⟨col, hcol, rfl, t, ht, hkey, v, hv, hheld⟩ := hf name hname
      have hlive₃ : ((e₁.setTxnMgr m).setTxnMgr m₃).live = e.live := hlive
      refine ⟨hlive₃, col, hcol, rfl, hkey, validated, v, hvalidated, ?_, ?_⟩
      · rw [getElem?_stamp (huser col hcol)] at hv
        exact hv
      · rw [← hlive, ← heldIn_iff_taken h₂.serial hm₂ hmem (huser col hcol)]
        exact ⟨t, ht, hheld⟩
  · unfold dataAt at hf
    split at hf
    · cases hf
    · cases hf
      exact ne_duplicateKey_of_plain (by decide)

variable {d : Disk} {interval : Int32} {clock : Int64} {l : Ledger}

/-- Along every history, an insert that is done brings no key that a row of the ledger has, and one that
is refused as a duplicate is refused for such a row and leaves the ledger as it is. -/
theorem History.insert_keys (h : History d interval clock e l) {table : Str} {row : Row}
    (hok : Permits e (.insertWithTxn table row)) {schema : TableSchema}
    (hschema : e.tables[e.resolveTableName table]? = some schema) (huser : UserColumns schema.columns)
    {result : Except Failure Row} (hrun : (insertWithTxn table row).run e = (result, e')) :
    (∀ returned, result = .ok returned → ∀ col ∈ schema.columns, col.primaryKey = true →
      ∀ v, returned[col.name]? = some v → ¬ Taken l.current (e.resolveTableName table) col.name v) ∧
    ∀ name, result = .error (duplicateKey name) → History d interval clock e' l ∧
      Clashes e l.current (e.resolveTableName table) schema row name := by
  obtain ⟨hs, hr⟩ := h.represents
  have hwp : (insertWithTxn table row).wp (fun returned _ => ∀ col ∈ schema.columns,
      col.primaryKey = true → ∀ v, returned[col.name]? = some v →
        ¬ Taken e.live (e.resolveTableName table) col.name v)
      (fun f e' => ∀ name, f = duplicateKey name → e'.live = e.live ∧
        Clashes e e.live (e.resolveTableName table) schema row name) e := by
    rw [insertWithTxn, thenCheckpoint, Prog.wp_bind]
    refine Prog.wp_mono (wp_insertWithTxnBody_ledgerKeys hs.accounted hr.serial hschema huser row)
      (fun returned e₁ h₁ => ?_) fun _ _ h₁ => h₁
    rw [Prog.wp_bind, maybeCheckpoint, Prog.wp_bind, Prog.wp_get, Prog.wp_ite]
    split
    · exact Prog.wp_mono (raises_checkpoint e₁) (fun _ _ _ => h₁) fun _ _ hf =>
        ne_duplicateKey_of_plain hf
    · exact h₁
  rw [← hr.current]
  constructor
  · rintro returned rfl
    exact Prog.wp_ok hwp hrun
  · rintro name rfl
    have hstopped := Prog.wp_error hwp hrun
    obtain ⟨hlive, hclash⟩ := hstopped name rfl
    refine ⟨?_, hclash⟩
    have hexec : (Call.exec (.insertWithTxn table row)).run e = (.error (duplicateKey name), e') :=
      Prog.bind_error hrun
    have hnext := h.stopped hok hexec
    rw [hlive, hr.current] at hnext
    exact hnext

/-- A table with a key, and a row that its transaction has not committed. -/
def givenKeyEngine : StorageEngine := ((insertWithTxn (str "t") (idRow 1)).run (idEngine [])).2

theorem tabular_idColumns : Tabular idColumns :=
  ⟨by decide, _, List.mem_singleton_self _, by decide⟩

/-- The same key again. -/
theorem insert_keys_givenKeyEngine : ∃ l, History Disk.empty 0 0 givenKeyEngine l ∧
    History Disk.empty 0 0 ((insertWithTxn (str "t") (idRow 1)).run givenKeyEngine).2 l ∧
      ∃ v, Taken l.current (givenKeyEngine.resolveTableName (str "t")) (str "id") v := by
  have hruns : ((insertWithTxn (str "t") (idRow 1)).run (idEngine [])).1.toOption.isSome = true ∧
      ((insertWithTxn (str "t") (idRow 1)).run givenKeyEngine).1 = .error (duplicateKey (str "id")) ∧
      ((idEngine []).tables[(idEngine []).resolveTableName (str "t")]?).map TableSchema.columns =
        some idColumns ∧
      (givenKeyEngine.tables[givenKeyEngine.resolveTableName (str "t")]?).map TableSchema.columns =
        some idColumns := by
    decide +kernel
  obtain ⟨hinsert, hagain, hempty, hkeyed⟩ := hruns
  obtain ⟨returned, hreturned⟩ := Option.isSome_iff_exists.mp hinsert
  obtain ⟨schema, hschema, hcolumns⟩ := Option.map_eq_some_iff.mp hkeyed
  have hcreated : History Disk.empty 0 0 (idEngine []) .empty := History.create.neutral trivial
  have hinserted : History Disk.empty 0 0 givenKeyEngine _ :=
    hcreated.insert (permits_insert tabular_idColumns hempty) (Prog.run_of_toOption hreturned)
  have huser : UserColumns schema.columns := by
    rw [hcolumns]
    intro col hcol
    obtain rfl := List.mem_singleton.mp hcol
    rfl
  have hkeys := hinserted.insert_keys (permits_insert tabular_idColumns hkeyed) hschema huser
    (Prod.ext hagain rfl)
  obtain ⟨hnext, col, hcol, -, -, validated, v, -, -, htaken⟩ := hkeys.2 _ rfl
  exact ⟨_, hinserted, hnext, v, htaken⟩

end StorageEngine
end JiaMiaoDB
