import JiaMiaoDB.Ai.Executor
import JiaMiaoDB.Lib.ExceptList

/-!
# Index plans against full scans

The planner prints the literal of a conjunct `column = literal`, and the engine prints the result
once more to find the index entry. No row that the entry lists can satisfy the conjunct, so an index
plan answers with no rows.
-/

set_option autoImplicit false

namespace JiaMiaoDB
open AIPlanner PipelineExecutor StorageEngine

/-! ### Printed values -/

theorem ne_quote_of_mem_decimal {n : Nat} {b : UInt8} (h : b ∈ Binary64.decimal n) : b ≠ 39 := by
  obtain ⟨c, hc, rfl⟩ := List.mem_map.1 h
  have hd := Nat.isDigit_of_mem_toDigits (by decide) (by decide) hc
  rw [Char.isDigit, Bool.and_eq_true, decide_eq_true_iff, decide_eq_true_iff] at hd
  have hlo : 48 ≤ c.toNat := hd.1
  have hhi : c.toNat ≤ 57 := hd.2
  intro he
  have := congrArg UInt8.toNat he
  rw [UInt8.toNat_ofNat', Nat.mod_eq_of_lt (by omega)] at this
  simp at this
  omega

theorem head_decimal (n : Nat) (rest : Bytes) : (Binary64.decimal n ++ rest).head? ≠ some 39 := by
  have hne : Binary64.decimal n ≠ [] := by
    simp [Binary64.decimal, Nat.toDigits_ne_nil]
  obtain ⟨b, l, hl⟩ := List.exists_cons_of_ne_nil hne
  rw [hl, List.cons_append, List.head?_cons, ne_eq, Option.some.injEq]
  exact ne_quote_of_mem_decimal (n := n) (by simp [hl])

theorem head_toDecimal (d : Binary64) : d.toDecimal.head? ≠ some 39 := by
  have hsign (bs : Bytes) (h : bs.head? ≠ some 39) :
      ((if d.sign then [45] else []) ++ bs).head? ≠ some 39 := by
    split
    · simp
    · exact h
  simp only [Binary64.toDecimal]
  split
  · exact hsign _ (by simp)
  · split
    · exact hsign _ (by simp)
    · rw [List.append_assoc, List.append_assoc]
      exact hsign _ (head_decimal _ _)

/-- Only strings are printed with a leading quote. -/
theorem eq_string_of_valueToString {v : Value} {k : Str}
    (h : valueToString v = valueToString (.string k)) : v = .string k := by
  have hhead : (valueToString v).head? = some 39 := by
    rw [h]
    rfl
  cases v with
  | null => exact absurd hhead (by decide)
  | int i =>
    simp only [valueToString, intToString] at hhead
    split at hhead
    · simp at hhead
    · rw [← List.append_nil (Binary64.decimal _)] at hhead
      exact absurd hhead (head_decimal _ _)
  | double d => exact absurd hhead (head_toDecimal d)
  | string s =>
    simp only [valueToString, List.append_cancel_right_eq, List.append_cancel_left_eq] at h
    rw [h]
  | bool b => cases b <;> exact absurd hhead (by decide)

/-- A string that equals its own printed literal does not exist. -/
theorem not_eqv_printed (lit : Value) : Value.eqv (.string (valueToString lit)) lit = false := by
  cases lit with
  | string s =>
    rw [Value.eqv, beq_eq_false_iff_ne]
    intro he
    have := congrArg List.length he
    simp only [valueToString, List.length_append, List.length_singleton] at this
    omega
  | _ => rfl

/-! ### The extracted value -/

def Value.IsDouble : Value → Prop
  | .double _ => True
  | _ => False

namespace Expression

/-- No literal of the expression is a floating-point number. -/
def DoubleFree : Expression → Prop
  | .literal v => ¬ v.IsDouble
  | .columnRef _ => True
  | .binary _ left right => left.DoubleFree ∧ right.DoubleFree
  | .not expr => expr.DoubleFree

end Expression

/-- The key is a literal of the clause that every matching row has in the column. The induction is on
the conjuncts. -/
theorem extractEqValue_sound {expr : Expression} {column : Str} {row : Row}
    (hne : extractEqValue expr column ≠ []) (hpass : isTrue (evalExpression expr row) = true) :
    ∃ lit, (expr.DoubleFree → ¬ lit.IsDouble) ∧ extractEqValue expr column = valueToString lit ∧
      (row.getD column .null).eqv lit = true := by
  fun_induction extractEqValue expr column with
  | case1 v column => exact ⟨v, fun hfree => hfree.2, rfl, hpass⟩
  | case2 => exact absurd rfl hne
  | case3 left right column hl ih =>
    rw [evalExpression, evalBinary, isTrue, Bool.and_eq_true] at hpass
    obtain ⟨lit, hfree, hlit⟩ := ih hl hpass.1
    exact ⟨lit, fun h => hfree h.1, hlit⟩
  | case4 left right column hl ih₁ ih₂ =>
    rw [evalExpression, evalBinary, isTrue, Bool.and_eq_true] at hpass
    obtain ⟨lit, hfree, hlit⟩ := ih₂ hne hpass.2
    exact ⟨lit, fun h => hfree h.2, hlit⟩
  | case5 => exact absurd rfl hne

/-! ### The two answers -/

def projection (s : SelectStmt) (row : Row) : Row :=
  if s.columns.isEmpty then row else project s.columns row

def answer (s : SelectStmt) (rows : RowSet) : RowSet :=
  (rows.filter (passes s.filter)).map (projection s)

/-- The whole table under the reader, filtered and projected. -/
def referenceRows (e : StorageEngine) (r : Reader) (s : SelectStmt) : Except Failure RowSet :=
  answer s <$> e.scanWithSnapshot s.fromTable r.snap r.xid r.cid

/-- The plan gives the rows of the reference, up to their order, whenever there is a reference. -/
def PlanEquivalent (e : StorageEngine) (s : SelectStmt) (strategy : Str) : Prop :=
  ∀ r e₁, statementReader.run e = (.ok r, e₁) → ∀ rows, referenceRows e₁ r s = .ok rows →
    ∃ rs, (executePipeline (buildPipeline e (.select s) strategy)).run e = (.ok rs, e₁) ∧
      rs.rows.Perm rows

/-- The strategy names no index, or the clause equates no literal with its column. -/
def FallsBack (s : SelectStmt) (strategy : Str) : Prop :=
  selectSource s strategy = .scan s.fromTable

def NoMatch (e : StorageEngine) (s : SelectStmt) : Prop :=
  ∀ r e₁, statementReader.run e = (.ok r, e₁) → ∀ rows,
    e₁.scanWithSnapshot s.fromTable r.snap r.xid r.cid = .ok rows →
      ∀ row ∈ rows, passes s.filter row = false

/-- Every row that an index of the table lists still prints to the key it is listed under. A failing
update of several rows can leave other entries behind. -/
def IndexesCurrent (e : StorageEngine) (table : Str) : Prop :=
  ∀ idx ∈ e.indexes.getD (e.resolveTableName table) [], ∀ m,
    e.data[e.resolveTableName table]? = some m → ∀ (key : Str) (ids : List Int64),
      idx.entries[key]? = some ids → ∀ id ∈ ids, ∀ t, m.getLatest id = some t → ∀ row,
        toRow t = .ok row → (row[idx.column]?).map valueToString = some key

theorem selectSource_cases (s : SelectStmt) (strategy : Str) :
    FallsBack s strategy ∨ ∃ expr col, s.filter = some expr ∧ extractEqValue expr col ≠ [] ∧
      selectSource s strategy = .indexScan s.fromTable col (.string (extractEqValue expr col)) := by
  simp only [FallsBack, selectSource]
  split
  · rename_i hp
    cases hf : s.filter with
    | none => exact .inl (by simp)
    | some expr =>
      by_cases hv : extractEqValue expr (strategy.drop indexScanPrefix.length) = []
      · exact .inl (by simp [hv])
      · exact .inr ⟨expr, _, rfl, hv, by simp [hv]⟩
  · exact .inl rfl

theorem foldlM_filterOps (e : StorageEngine) (r : Reader) (filter : Option Expression)
    (rows : RowSet) : (filter.elim [] fun expr => [PipelineOp.filter expr]).foldlM (stepOp e r) rows =
      .ok (rows.filter (passes filter)) := by
  cases filter with
  | none => exact congrArg Except.ok (List.filter_eq_self.2 fun _ _ => rfl).symm
  | some expr => rfl

theorem foldlM_projectOps (e : StorageEngine) (r : Reader) (s : SelectStmt) (rows : RowSet) :
    (if s.columns.isEmpty then [] else [PipelineOp.project s.columns]).foldlM (stepOp e r) rows =
      .ok (rows.map (projection s)) := by
  by_cases hc : s.columns.isEmpty = true
  · rw [if_pos hc, show projection s = id from funext fun row => if_pos hc, List.map_id]
    rfl
  · rw [if_neg hc, show projection s = project s.columns from funext fun row => if_neg hc]
    rfl

/-- After the source, every SELECT pipeline filters and projects. -/
theorem foldlM_select (e e₁ : StorageEngine) (r : Reader) (s : SelectStmt) (strategy : Str) :
    (buildPipeline e (.select s) strategy).foldlM (stepOp e₁ r) [] =
      answer s <$> stepOp e₁ r [] (selectSource s strategy) := by
  rw [buildPipeline, List.append_assoc, List.singleton_append, List.foldlM_cons]
  cases stepOp e₁ r [] (selectSource s strategy) with
  | error f => rfl
  | ok rows =>
    change List.foldlM _ rows _ = Except.ok (answer s rows)
    rw [List.foldlM_append, foldlM_filterOps]
    exact foldlM_projectOps e₁ r s _

theorem run_statementReader (e : StorageEngine) :
    ∃ r e₁, statementReader.run e = (.ok r, e₁) ∧ e₁ = e.setTxnMgr e₁.txnMgr := by
  rw [statementReader, Prog.bind_ok (Prog.run_get e)]
  split
  · exact ⟨_, _, rfl, rfl⟩
  · have hsnap : ∃ snap m, TransactionManager.getTransactionSnapshot.run e.txnMgr = (.ok snap, m) := by
      rw [TransactionManager.getTransactionSnapshot, Prog.bind_ok (Prog.run_get e.txnMgr)]
      split <;> exact ⟨_, _, rfl⟩
    obtain ⟨snap, m, hm⟩ := hsnap
    refine ⟨{ e.reader with snap := snap }, e.setTxnMgr m, ?_, rfl⟩
    rw [Prog.run_bind, inTxn]
    simp only [Prog.zoom, hm, Prog.run_pure]

theorem run_executePipeline {e e₁ : StorageEngine} {r : Reader} (s : SelectStmt) (strategy : Str)
    (h : statementReader.run e = (.ok r, e₁)) :
    (executePipeline (buildPipeline e (.select s) strategy)).run e =
      match answer s <$> stepOp e₁ r [] (selectSource s strategy) with
      | .ok rows => (.ok ⟨resultColumns rows, rows, 0, []⟩, e₁)
      | .error f => (.error f, e₁) := by
  have hflow : ∀ op ops, buildPipeline e (.select s) strategy = op :: ops →
      (∃ table, op = .scan table) ∨ (∃ table column v, op = .indexScan table column v) := by
    intro op ops hcons
    have hop : op = selectSource s strategy := (List.cons.inj hcons).1.symm
    rcases selectSource_cases s strategy with h | ⟨_, _, _, _, h⟩ <;> rw [hop, h]
    · exact .inl ⟨_, rfl⟩
    · exact .inr ⟨_, _, _, rfl⟩
  have hrun : executePipeline (buildPipeline e (.select s) strategy) = (do
      let r ← statementReader
      let e' ← Prog.get
      let rows ← Prog.ofExcept
        ((buildPipeline e (.select s) strategy).foldlM (stepOp e' r) [])
      pure ⟨resultColumns rows, rows, 0, []⟩) := by
    cases hp : buildPipeline e (.select s) strategy with
    | nil => simp [buildPipeline] at hp
    | cons op ops => rcases hflow op ops hp with ⟨_, rfl⟩ | ⟨_, _, _, rfl⟩ <;> rfl
  rw [hrun, Prog.bind_ok h, Prog.bind_ok (Prog.run_get e₁), foldlM_select]
  cases answer s <$> stepOp e₁ r [] (selectSource s strategy) <;> rfl

/-! ### What an index lists -/

theorem mem_scanAll_of_getLatest {m : MemTable} {id : Int64} {t : Tuple}
    (h : m.getLatest id = some t) : t ∈ m.scanAll := by
  obtain ⟨k, hk, -⟩ := MemTable.mem_getVersions.1 (List.mem_of_head? h)
  exact MemTable.mem_scanAll.2 ⟨k, hk⟩

theorem scanWithSnapshot_ok {e : StorageEngine} {table : Str} {r : Reader} {rows : RowSet}
    (h : e.scanWithSnapshot table r.snap r.xid r.cid = .ok rows) :
    ∃ m all, e.data[e.resolveTableName table]? = some m ∧ materializeAll m = .ok all ∧
      rows = all.filter (r.sees e.txnMgr.clog) := by
  obtain ⟨all, hscan, hrows⟩ := ExceptList.bind_ok_iff.1 h
  obtain ⟨m, hm, hall⟩ := ExceptList.bind_ok_iff.1 hscan
  rw [tableOf] at hm
  split at hm
  · cases hm
    exact ⟨_, all, ‹_›, hall, (Except.ok.inj hrows).symm⟩
  · cases hm

/-- Where the scan works, the index lookup works too and finds rows of the scan; each of them is
listed under the printed key. -/
theorem indexLookup_ok {e : StorageEngine} {table : Str} {r : Reader} {rows : RowSet}
    (column : Str) (v : Value) (h : e.scanWithSnapshot table r.snap r.xid r.cid = .ok rows) :
    ∃ found, e.indexLookupWithSnapshot table column v r.snap r.xid r.cid = .ok found ∧
      (∀ row ∈ found, row ∈ rows) ∧
      (IndexesCurrent e table → ∀ row ∈ found,
        (row[column]?).map valueToString = some (valueToString v)) := by
  obtain ⟨m, all, hm, hall, rfl⟩ := scanWithSnapshot_ok h
  have hnone : e.indexRows table column v = .ok [] →
      ∃ found, e.indexLookupWithSnapshot table column v r.snap r.xid r.cid = .ok found ∧
      (∀ row ∈ found, row ∈ all.filter (r.sees e.txnMgr.clog)) ∧
      (IndexesCurrent e table → ∀ row ∈ found,
        (row[column]?).map valueToString = some (valueToString v)) := fun hr => by
    refine ⟨[], ?_, by simp, by simp⟩
    rw [indexLookupWithSnapshot, hr]
    rfl
  cases hidx : (e.indexes.getD (e.resolveTableName table) []).find? (·.column = column) with
  | none => exact hnone (by rw [indexRows, hidx])
  | some idx =>
    cases hids : idx.entries[valueToString v]? with
    | none => exact hnone (by rw [indexRows, hidx]; simp only [hids])
    | some ids =>
      have hmem : ∀ t ∈ ids.filterMap m.getLatest, ∃ row ∈ all, toRow t = .ok row := by
        intro t ht
        obtain ⟨id, -, hid⟩ := List.mem_filterMap.1 ht
        exact ExceptList.ok_of_mapM_ok hall (mem_scanAll_of_getLatest hid)
      obtain ⟨listed, hlisted⟩ := ExceptList.exists_mapM_ok
        fun t ht => (hmem t ht).imp fun _ h => h.2
      refine ⟨listed.filter (r.sees e.txnMgr.clog), ?_, fun row hrow => ?_, fun hcur row hrow => ?_⟩
      · rw [indexLookupWithSnapshot, indexRows, hidx]
        simp only [hids, hm, hlisted]
        rfl
      · obtain ⟨hin, hsees⟩ := List.mem_filter.1 hrow
        obtain ⟨t, ht, htrow⟩ := (ExceptList.mem_of_mapM_ok hlisted).1 hin
        obtain ⟨row', hrow', htrow'⟩ := hmem t ht
        rw [htrow] at htrow'
        cases htrow'
        exact List.mem_filter.2 ⟨hrow', hsees⟩
      · obtain ⟨t, ht, htrow⟩ :=
          (ExceptList.mem_of_mapM_ok hlisted).1 (List.mem_filter.1 hrow).1
        obtain ⟨id, hid, hlatest⟩ := List.mem_filterMap.1 ht
        have hcolumn : idx.column = column := by
          simpa using List.find?_some hidx
        rw [← hcolumn]
        exact hcur idx (List.mem_of_find?_eq_some hidx) m hm _ ids hids id hid t hlatest row htrow

/-- A row listed under the doubly printed key does not pass the clause. -/
theorem not_passes_of_listed {expr : Expression} {column : Str} {row : Row}
    (hne : extractEqValue expr column ≠ [])
    (hlisted : (row[column]?).map valueToString =
      some (valueToString (.string (extractEqValue expr column)))) :
    passes (some expr) row = false := by
  rw [passes_some, Bool.eq_false_iff]
  intro hpass
  obtain ⟨lit, -, hlit, heqv⟩ := extractEqValue_sound hne hpass
  obtain ⟨v, hv, hprint⟩ := Option.map_eq_some_iff.1 hlisted
  rw [Std.ExtTreeMap.getD_eq_getD_getElem?, hv, Option.getD_some, eq_string_of_valueToString hprint,
    hlit, not_eqv_printed] at heqv
  cases heqv

/-! ### When the plan is right -/

theorem answer_eq_nil {s : SelectStmt} {rows : RowSet} :
    answer s rows = [] ↔ ∀ row ∈ rows, passes s.filter row = false := by
  simp [answer, List.filter_eq_nil_iff]

theorem planEquivalent_of_fallsBack {e : StorageEngine} {s : SelectStmt} {strategy : Str}
    (h : FallsBack s strategy) : PlanEquivalent e s strategy := by
  intro r e₁ hr rows hrows
  have hstep : answer s <$> stepOp e₁ r [] (selectSource s strategy) = .ok rows := by
    rw [h]
    exact hrows
  refine ⟨⟨resultColumns rows, rows, 0, []⟩, ?_, List.Perm.refl _⟩
  rw [run_executePipeline s strategy hr, hstep]

theorem planEquivalent_of_noMatch {e : StorageEngine} {s : SelectStmt} {strategy : Str}
    (h : NoMatch e s) : PlanEquivalent e s strategy := by
  rcases selectSource_cases s strategy with hfall | ⟨expr, col, -, -, hsrc⟩
  · exact planEquivalent_of_fallsBack hfall
  · intro r e₁ hr rows hrows
    obtain ⟨all, hall, rfl⟩ := ExceptList.map_ok_iff.1 hrows
    obtain ⟨found, hfound, hsub, -⟩ := indexLookup_ok col
      (.string (extractEqValue expr col)) hall
    have hnil : answer s found = [] :=
      answer_eq_nil.2 fun row hrow => h r e₁ hr all hall row (hsub row hrow)
    have hstep : answer s <$> stepOp e₁ r [] (selectSource s strategy) = .ok [] := by
      rw [hsrc, stepOp, hfound, ← hnil]
      rfl
    refine ⟨⟨resultColumns [], [], 0, []⟩, ?_, ?_⟩
    · rw [run_executePipeline s strategy hr, hstep]
    · rw [answer_eq_nil.2 (h r e₁ hr all hall)]

/-- With current indexes, an index plan always answers with no rows. -/
theorem noMatch_of_planEquivalent {e : StorageEngine} {s : SelectStmt} {strategy : Str}
    (hcur : IndexesCurrent e s.fromTable) (h : PlanEquivalent e s strategy) :
    FallsBack s strategy ∨ NoMatch e s := by
  refine (selectSource_cases s strategy).imp_right ?_
  rintro ⟨expr, col, hfilter, hne, hsrc⟩ r e₁ hr all hall
  have hcur₁ : IndexesCurrent e₁ s.fromTable := by
    obtain ⟨r', e₁', hr', he₁⟩ := run_statementReader e
    rw [hr] at hr'
    cases hr'
    rw [he₁]
    exact hcur
  obtain ⟨found, hfound, -, hlisted⟩ := indexLookup_ok col
    (.string (extractEqValue expr col)) hall
  have hnil : answer s found = [] := answer_eq_nil.2 fun row hrow => by
    rw [hfilter]
    exact not_passes_of_listed hne (hlisted hcur₁ row hrow)
  obtain ⟨rs, hrun, hperm⟩ := h r e₁ hr (answer s all) (ExceptList.map_ok_iff.2 ⟨all, hall, rfl⟩)
  have hstep : answer s <$> stepOp e₁ r [] (selectSource s strategy) = .ok [] := by
    rw [hsrc, stepOp, hfound, ← hnil]
    rfl
  rw [run_executePipeline s strategy hr, hstep] at hrun
  cases hrun
  exact answer_eq_nil.1 (List.nil_perm.1 hperm)

/-- A plan that falls back to the scan, or one whose clause no visible row satisfies, is right in
every state; where the indexes are current no other plan is. -/
theorem select_planEquivalent (e : StorageEngine) (s : SelectStmt) (strategy : Str) :
    (FallsBack s strategy ∨ NoMatch e s → PlanEquivalent e s strategy) ∧
    (IndexesCurrent e s.fromTable → PlanEquivalent e s strategy →
      FallsBack s strategy ∨ NoMatch e s) :=
  ⟨fun h => h.elim planEquivalent_of_fallsBack planEquivalent_of_noMatch,
    noMatch_of_planEquivalent⟩

/-- A table with a text key and one committed row. -/
def keyedTable : EngineM Unit := do
  createTable (str "t") [⟨str "a", .text, false, true, none⟩]
  let _ ← insertWithTxn (str "t") ((∅ : Row).insert (str "a") (.string (str "x")))
  inTxn TransactionManager.commitTransaction

def keyedEngine : StorageEngine := (keyedTable.run (create Disk.empty 0 0)).2

/-- `SELECT * FROM t WHERE a = 'x'`. -/
def selectByKey : SelectStmt :=
  ⟨[], str "t", some (.binary .eq (.columnRef (str "a")) (.literal (.string (str "x"))))⟩

/-- The planner's own choice loses the row. -/
theorem index_plan_loses_row :
    chooseInitialStrategy keyedEngine (.select selectByKey) = str "index_scan:a" ∧
      ¬ PlanEquivalent keyedEngine selectByKey (str "index_scan:a") := by
  refine ⟨by decide +kernel, fun h => ?_⟩
  have hreader : statementReader.run keyedEngine = (.ok keyedEngine.reader, keyedEngine) := by
    rw [statementReader, Prog.bind_ok (Prog.run_get _), if_pos (by decide +kernel)]
    rfl
  have hscan : (referenceRows keyedEngine keyedEngine.reader selectByKey).toOption.map
      List.length = some 1 := by decide +kernel
  have hplan : ((executePipeline (buildPipeline keyedEngine (.select selectByKey)
      (str "index_scan:a"))).run keyedEngine).1.toOption.map (·.rows.length) = some 0 := by
    decide +kernel
  cases hrows : referenceRows keyedEngine keyedEngine.reader selectByKey with
  | error f =>
    rw [hrows] at hscan
    cases hscan
  | ok rows =>
    obtain ⟨rs, hrun, hperm⟩ := h _ _ hreader rows hrows
    rw [hrows] at hscan
    rw [hrun] at hplan
    have hnone : rs.rows.length = 0 := Option.some.inj hplan
    have hone : rows.length = 1 := Option.some.inj hscan
    have := hperm.length_eq
    omega

end JiaMiaoDB
