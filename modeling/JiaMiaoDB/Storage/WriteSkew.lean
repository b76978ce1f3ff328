import Mathlib.Data.List.Induction
import JiaMiaoDB.Storage.ConflictEdges

/-!
# Two serializable transactions

Every step of the two runs under the context of its transaction. The first commit removes the reads
and edges of its transaction, so that only a pair of edges that stands before it can be noticed.
-/

set_option autoImplicit false

namespace JiaMiaoDB
namespace TransactionManager

inductive SsiStep where
  | read (key : RowKey)
  | write (key : RowKey)
  | commit
deriving DecidableEq

/-- The manager with the context of a serializable transaction. -/
def actAs (m : TransactionManager) (xid : TransactionId) : TransactionManager :=
  m.setContext { m.context with xid := xid, isolation := .serializable }

def SsiStep.run (xid : TransactionId) : SsiStep → TxnM Unit
  | read key => Prog.modify fun m => (m.actAs xid).registerSiread key
  | write key => Prog.modify fun m => (m.actAs xid).registerWrite key
  | commit => do
    Prog.modify (·.actAs xid)
    commitTransaction

/-- The steps of both transactions, each with the id of its own. -/
abbrev SsiTrace := List (TransactionId × SsiStep)

def after (trace : SsiTrace) (m : TransactionManager) : TransactionManager :=
  trace.foldl (fun m e => ((e.2.run e.1).run m).2) m

def succeeds (e : TransactionId × SsiStep) (m : TransactionManager) : Bool :=
  ((e.2.run e.1).run m).1.isOk

/-- The transactions whose commit succeeds. -/
def committed : SsiTrace → TransactionManager → List TransactionId
  | [], _ => []
  | e :: rest, m =>
    (if e.2 = .commit ∧ succeeds e m then [e.1] else []) ++ committed rest ((e.2.run e.1).run m).2

/-- The steps of one transaction, in their order. -/
def stepsOf (xid : TransactionId) (trace : SsiTrace) : List SsiStep :=
  (trace.filter (·.1 = xid)).map (·.2)

/-- The transactions `x` and `y` run side by side. Each reads and writes as it likes and then commits. -/
structure SideBySide (x y : TransactionId) (trace : SsiTrace) : Prop where
  parties : ∀ e ∈ trace, e.1 = x ∨ e.1 = y
  first : ∃ body, stepsOf x trace = body ++ [.commit] ∧ SsiStep.commit ∉ body
  second : ∃ body, stepsOf y trace = body ++ [.commit] ∧ SsiStep.commit ∉ body

/-- `x` reads a row and `y` writes it later. -/
def ReadThenWritten (trace : SsiTrace) (x y : TransactionId) : Prop :=
  ∃ key done rest, trace = done ++ (y, .write key) :: rest ∧ (x, .read key) ∈ done

def beforeCommit (trace : SsiTrace) : SsiTrace := trace.takeWhile (·.2 ≠ .commit)

/-- Nothing on record mentions the transaction. -/
def Unrecorded (m : TransactionManager) (x : TransactionId) : Prop :=
  (∀ key, ¬ m.HasRead x key) ∧ (∀ z, ¬ m.HasEdge x z) ∧ ∀ z, ¬ m.HasEdge z x

/-! ### One step -/

variable {m : TransactionManager} {x y z : TransactionId} {key other : RowKey} {trace : SsiTrace}

theorem hasRead_actAs (w : TransactionId) : (m.actAs w).HasRead x key ↔ m.HasRead x key := Iff.rfl

theorem hasEdge_actAs (w : TransactionId) : (m.actAs w).HasEdge x y ↔ m.HasEdge x y := Iff.rfl

theorem tracksConflicts_actAs {w : TransactionId} (hw : w ≠ InvalidTransactionId) :
    (m.actAs w).tracksConflicts = true := decide_eq_true ⟨rfl, hw⟩

theorem hasRead_read {w : TransactionId} (hw : w ≠ InvalidTransactionId) :
    (((SsiStep.read key).run w).run m).2.HasRead x other ↔
      m.HasRead x other ∨ other = key ∧ x = w := by
  change ((m.actAs w).registerSiread key).HasRead x other ↔ _
  rw [hasRead_registerSiread, tracksConflicts_actAs hw]
  simp only [hasRead_actAs, true_and]
  exact Iff.rfl

theorem hasEdge_read {w : TransactionId} :
    (((SsiStep.read key).run w).run m).2.HasEdge x y ↔ m.HasEdge x y :=
  hasEdge_registerSiread

theorem hasRead_write {w : TransactionId} :
    (((SsiStep.write key).run w).run m).2.HasRead x other ↔ m.HasRead x other :=
  hasRead_registerWrite

theorem hasEdge_write {w : TransactionId} (hw : w ≠ InvalidTransactionId) :
    (((SsiStep.write key).run w).run m).2.HasEdge x y ↔
      m.HasEdge x y ∨ m.HasRead x key ∧ x ≠ w ∧ y = w := by
  change ((m.actAs w).registerWrite key).HasEdge x y ↔ _
  rw [hasEdge_registerWrite, tracksConflicts_actAs hw]
  simp only [hasRead_actAs, hasEdge_actAs, true_and]
  exact Iff.rfl

theorem run_commit (hx : x ≠ InvalidTransactionId) :
    (SsiStep.commit.run x).run m = if m.ssiIsPivot x = true
      then (.error (.runtimeError (str "could not serialize access (SSI pivot detected)")), m.actAs x)
      else (.ok (), (m.actAs x).finish x .committed) := by
  have hpivot : (m.actAs x).ssiIsPivot x = m.ssiIsPivot x := rfl
  rw [SsiStep.run, Prog.bind_ok (Prog.run_modify _ _), commitTransaction,
    Prog.bind_ok (Prog.run_get _)]
  dsimp only
  rw [if_neg (show ¬ (m.actAs x).context.xid = InvalidTransactionId from hx)]
  by_cases h : m.ssiIsPivot x = true
  · rw [if_pos ⟨rfl, hpivot.trans h⟩, if_pos h]
    rfl
  · rw [if_neg fun hp => h (hpivot.symm.trans hp.2), if_neg h]
    rfl

/-- A commit succeeds when no transaction has edges to and from the one that commits. -/
theorem succeeds_commit (hx : x ≠ InvalidTransactionId) :
    succeeds (x, .commit) m = true ↔ m.ssiIsPivot x = false := by
  unfold succeeds
  dsimp only
  rw [run_commit hx]
  cases m.ssiIsPivot x with
  | true =>
    rw [if_pos rfl]
    constructor
    · exact fun h => absurd h Bool.false_ne_true
    · exact fun h => absurd h.symm Bool.false_ne_true
  | false =>
    rw [if_neg (by decide)]
    exact ⟨fun _ => rfl, fun _ => rfl⟩

theorem hasEdge_commit (hx : x ≠ InvalidTransactionId) (hp : m.ssiIsPivot x = false) :
    ((SsiStep.commit.run x).run m).2.HasEdge y z ↔ m.HasEdge y z ∧ y ≠ x ∧ z ≠ x := by
  rw [run_commit hx, if_neg (by rw [hp]; decide)]
  exact hasEdge_cleanup

theorem run_commit_refused (hx : x ≠ InvalidTransactionId) (hp : m.ssiIsPivot x = true) :
    ((SsiStep.commit.run x).run m).2 = m.actAs x := by
  rw [run_commit hx, if_pos hp]

/-! ### Before the first commit -/

theorem after_append (first second : SsiTrace) (m : TransactionManager) :
    after (first ++ second) m = after second (after first m) := List.foldl_append

theorem readThenWritten_concat {e : TransactionId × SsiStep} :
    ReadThenWritten (trace ++ [e]) x y ↔ ReadThenWritten trace x y ∨
      ∃ key, e = (y, .write key) ∧ (x, .read key) ∈ trace := by
  constructor
  · rintro ⟨key, done, rest, htrace, hread⟩
    rcases List.eq_nil_or_concat' rest with rfl | ⟨rest, last, rfl⟩
    · obtain ⟨rfl, he⟩ := List.append_inj' htrace rfl
      exact .inr ⟨key, (List.cons.inj he).1, hread⟩
    · rw [← List.cons_append, ← List.append_assoc] at htrace
      exact .inl ⟨key, done, rest, (List.append_inj' htrace rfl).1, hread⟩
  · rintro (⟨key, done, rest, rfl, hread⟩ | ⟨key, rfl, hread⟩)
    · exact ⟨key, done, rest ++ [e], by simp, hread⟩
    · exact ⟨key, trace, [], rfl, hread⟩

/-- What is on record of `x` when its only rival is `y`: what it has read, and an edge to `y` when `y`
has written a row that `x` had read. -/
structure Recorded (trace : SsiTrace) (x y : TransactionId) (m : TransactionManager) : Prop where
  reads : ∀ key, m.HasRead x key ↔ (x, .read key) ∈ trace
  edges : ∀ z, m.HasEdge x z ↔ z = y ∧ ReadThenWritten trace x y

theorem Unrecorded.recorded (h : m.Unrecorded x) : Recorded [] x y m where
  reads key := ⟨fun hr => absurd hr (h.1 key), fun hr => by cases hr⟩
  edges z := by
    constructor
    · exact fun he => absurd he (h.2.1 z)
    · rintro ⟨-, key, done, rest, hnil, -⟩
      exact absurd hnil.symm (by simp)

theorem Recorded.step (h : Recorded trace x y m) (hxy : x ≠ y) {e : TransactionId × SsiStep}
    (he : e.1 = x ∨ e.1 = y) (hid : e.1 ≠ InvalidTransactionId) (hstep : e.2 ≠ .commit) :
    Recorded (trace ++ [e]) x y ((e.2.run e.1).run m).2 := by
  obtain ⟨w, s⟩ := e
  dsimp only at he hid hstep ⊢
  cases s with
  | commit => exact absurd rfl hstep
  | read key =>
    constructor
    · intro other
      rw [hasRead_read hid, h.reads, List.mem_append, List.mem_singleton, Prod.mk.injEq,
        SsiStep.read.injEq]
      exact or_congr_right and_comm
    · intro z
      rw [hasEdge_read, h.edges, readThenWritten_concat]
      simp
  | write key =>
    constructor
    · intro other
      rw [hasRead_write, h.reads, List.mem_append, List.mem_singleton]
      simp
    · intro z
      rw [hasEdge_write hid, h.edges, h.reads, readThenWritten_concat]
      constructor
      · rintro (⟨hz, hold⟩ | ⟨hread, hw, hz⟩)
        · exact ⟨hz, .inl hold⟩
        · obtain rfl : w = y := he.resolve_left (Ne.symm hw)
          exact ⟨hz, .inr ⟨key, rfl, hread⟩⟩
      · rintro ⟨hz, hold | ⟨key', heq, hread⟩⟩
        · exact .inl ⟨hz, hold⟩
        · obtain ⟨rfl, hkey⟩ := Prod.mk.inj heq
          obtain rfl := SsiStep.write.inj hkey
          exact .inr ⟨hread, hxy, hz⟩

/-- The ids of the two transactions, and no commit among their steps. -/
def Uncommitted (x y : TransactionId) (trace : SsiTrace) : Prop :=
  ∀ e ∈ trace, (e.1 = x ∨ e.1 = y) ∧ e.2 ≠ .commit

theorem Uncommitted.symm (h : Uncommitted x y trace) : Uncommitted y x trace :=
  fun e he => ⟨(h e he).1.symm, (h e he).2⟩

section Two
variable (hx : x ≠ InvalidTransactionId) (hy : y ≠ InvalidTransactionId) (hxy : x ≠ y)
include hx hy

theorem ne_invalid {w : TransactionId} (hw : w = x ∨ w = y) : w ≠ InvalidTransactionId := by
  rcases hw with rfl | rfl
  · exact hx
  · exact hy

include hxy in
theorem recorded_after (hm : m.Unrecorded x) (h : Uncommitted x y trace) :
    Recorded trace x y (after trace m) := by
  induction trace using List.reverseRecOn with
  | nil => exact hm.recorded
  | append_singleton trace e ih =>
    have hprefix : Uncommitted x y trace := fun e' he' => h e' (List.mem_append_left _ he')
    obtain ⟨hparty, hstep⟩ := h e (List.mem_append_right _ List.mem_cons_self)
    rw [after_append]
    exact (ih hprefix).step hxy hparty (ne_invalid hx hy hparty) hstep

omit hx hy in
/-- Before the first commit a transaction is a pivot when both have written what the other one had
read before. -/
theorem ssiIsPivot_of_recorded (hxy : x ≠ y) (h : Recorded trace x y m)
    (h' : Recorded trace y x m) : m.ssiIsPivot x = true ↔
      ReadThenWritten trace x y ∧ ReadThenWritten trace y x := by
  rw [ssiIsPivot_iff]
  constructor
  · rintro ⟨z, -, hout, hin⟩
    obtain ⟨rfl, hxz⟩ := (h.edges z).mp hout
    exact ⟨hxz, ((h'.edges x).mp hin).2⟩
  · rintro ⟨hxz, hzx⟩
    exact ⟨y, Ne.symm hxy, (h.edges y).mpr ⟨rfl, hxz⟩, (h'.edges x).mpr ⟨rfl, hzx⟩⟩

theorem hasEdge_after {u v : TransactionId} (hm : m.HasEdge u v) (h : Uncommitted x y trace) :
    (after trace m).HasEdge u v := by
  induction trace generalizing m with
  | nil => exact hm
  | cons e rest ih =>
    obtain ⟨hparty, hstep⟩ := h e List.mem_cons_self
    have hid := ne_invalid hx hy hparty
    refine ih ?_ fun e' he' => h e' (List.mem_cons_of_mem _ he')
    obtain ⟨w, s⟩ := e
    cases s with
    | read key => exact hasEdge_read.mpr hm
    | write key => exact (hasEdge_write hid).mpr (.inl hm)
    | commit => exact absurd rfl hstep

omit hx in
/-- A transaction does not give itself an edge. -/
theorem not_hasEdge_after (hm : ∀ z, ¬ m.HasEdge y z) (h : ∀ e ∈ trace, e.1 = y ∧ e.2 ≠ .commit) :
    ∀ z, ¬ (after trace m).HasEdge y z := by
  induction trace generalizing m with
  | nil => exact hm
  | cons e rest ih =>
    obtain ⟨hparty, hstep⟩ := h e List.mem_cons_self
    refine ih ?_ fun e' he' => h e' (List.mem_cons_of_mem _ he')
    obtain ⟨w, s⟩ := e
    obtain rfl : w = y := hparty
    intro z
    cases s with
    | read key => exact fun he => hm z (hasEdge_read.mp he)
    | write key =>
      intro he
      rcases (hasEdge_write hy).mp he with he | ⟨-, hne, -⟩
      · exact hm z he
      · exact hne rfl
    | commit => exact absurd rfl hstep

end Two

/-! ### Both commits -/

theorem committed_append (first second : SsiTrace) (m : TransactionManager) :
    committed (first ++ second) m = committed first m ++ committed second (after first m) := by
  induction first generalizing m with
  | nil => rfl
  | cons e rest ih =>
    rw [List.cons_append, committed, committed, ih, List.append_assoc]
    rfl

theorem committed_of_uncommitted (h : ∀ e ∈ trace, e.2 ≠ .commit) (m : TransactionManager) :
    committed trace m = [] := by
  induction trace generalizing m with
  | nil => rfl
  | cons e rest ih =>
    rw [committed, if_neg fun hc => h e List.mem_cons_self hc.1, List.nil_append]
    exact ih (fun e' he' => h e' (List.mem_cons_of_mem _ he')) _

theorem committed_commit (hx : x ≠ InvalidTransactionId) (m : TransactionManager) :
    committed [(x, .commit)] m = if m.ssiIsPivot x = false then [x] else [] := by
  rw [committed, committed, List.append_nil]
  by_cases h : m.ssiIsPivot x = false
  · rw [if_pos ⟨rfl, (succeeds_commit hx).mpr h⟩, if_pos h]
  · rw [if_neg fun hc => h ((succeeds_commit hx).mp hc.2), if_neg h]

/-- The first commit decides: when it is refused the second one is refused as well, and when it
succeeds nothing is left that could stop the second one. -/
theorem committed_trace (hx : x ≠ InvalidTransactionId) (hy : y ≠ InvalidTransactionId) (hxy : x ≠ y)
    {done rest : SsiTrace} (hmx : m.Unrecorded x) (hmy : m.Unrecorded y)
    (hdone : Uncommitted x y done) (hrest : ∀ e ∈ rest, e.1 = y ∧ e.2 ≠ .commit) :
    (ReadThenWritten done x y ∧ ReadThenWritten done y x) ∧
        committed (done ++ (x, .commit) :: rest ++ [(y, .commit)]) m = [] ∨
      ¬ (ReadThenWritten done x y ∧ ReadThenWritten done y x) ∧
        committed (done ++ (x, .commit) :: rest ++ [(y, .commit)]) m = [x, y] := by
  have hrec := recorded_after hx hy hxy hmx hdone
  have hrec' := recorded_after hy hx hxy.symm hmy hdone.symm
  have hpivot := ssiIsPivot_of_recorded hxy hrec hrec'
  have hboth : Uncommitted x y rest := fun e he => ⟨.inr (hrest e he).1, (hrest e he).2⟩
  have hsplit : committed (done ++ (x, .commit) :: rest ++ [(y, .commit)]) m =
      committed [(x, .commit)] (after done m) ++ committed [(y, .commit)]
        (after rest ((SsiStep.commit.run x).run (after done m)).2) := by
    rw [List.append_assoc, List.cons_append, List.append_cons, committed_append, committed_append,
      committed_of_uncommitted fun e he => (hdone e he).2, List.nil_append, committed_append,
      committed_of_uncommitted fun e he => (hrest e he).2, List.nil_append, after_append]
    rfl
  rw [hsplit, committed_commit hx, committed_commit hy]
  by_cases h : ReadThenWritten done x y ∧ ReadThenWritten done y x
  · left
    refine ⟨h, ?_⟩
    have hfirst := hpivot.mpr h
    have hxy' : (after rest ((SsiStep.commit.run x).run (after done m)).2).HasEdge x y := by
      rw [run_commit_refused hx hfirst]
      exact hasEdge_after hx hy ((hrec.edges y).mpr ⟨rfl, h.1⟩) hboth
    have hyx' : (after rest ((SsiStep.commit.run x).run (after done m)).2).HasEdge y x := by
      rw [run_commit_refused hx hfirst]
      exact hasEdge_after hx hy ((hrec'.edges x).mpr ⟨rfl, h.2⟩) hboth
    have hsecond := ssiIsPivot_iff.mpr ⟨x, hxy, hyx', hxy'⟩
    rw [hfirst, hsecond]
    rfl
  · right
    refine ⟨h, ?_⟩
    have hfirst : (after done m).ssiIsPivot x = false := by
      rw [← Bool.not_eq_true, hpivot]
      exact h
    have hnone : ∀ z, ¬ ((SsiStep.commit.run x).run (after done m)).2.HasEdge y z := by
      intro z hz
      obtain ⟨hz, -, hne⟩ := (hasEdge_commit hx hfirst).mp hz
      exact hne ((hrec'.edges z).mp hz).1
    have hsecond : (after rest ((SsiStep.commit.run x).run (after done m)).2).ssiIsPivot y = false := by
      rw [← Bool.not_eq_true, ssiIsPivot_iff]
      rintro ⟨z, -, hz, -⟩
      exact not_hasEdge_after hy hnone hrest z hz
    rw [hfirst, hsecond]
    rfl

/-! ### Traces -/

theorem SideBySide.symm (h : SideBySide x y trace) : SideBySide y x trace :=
  ⟨fun e he => (h.parties e he).symm, h.second, h.first⟩

theorem stepsOf_append (w : TransactionId) (first second : SsiTrace) :
    stepsOf w (first ++ second) = stepsOf w first ++ stepsOf w second := by
  unfold stepsOf
  rw [List.filter_append, List.map_append]

theorem mem_stepsOf {w : TransactionId} {s : SsiStep} : s ∈ stepsOf w trace ↔ (w, s) ∈ trace := by
  unfold stepsOf
  simp

theorem stepsOf_of_parties {w : TransactionId} (h : ∀ e ∈ trace, e.1 = w) :
    stepsOf w trace = trace.map (·.2) := by
  unfold stepsOf
  rw [List.filter_eq_self.mpr fun e he => decide_eq_true (h e he)]

/-- After its commit a transaction does nothing. -/
theorem stepsOf_after_commit {body : List SsiStep} {done rest : SsiTrace}
    (hbody : stepsOf x (done ++ (x, .commit) :: rest) = body ++ [.commit])
    (hnone : SsiStep.commit ∉ body) : stepsOf x rest = [] := by
  rw [List.append_cons, stepsOf_append, stepsOf_append] at hbody
  rcases List.eq_nil_or_concat' (stepsOf x rest) with hnil | ⟨init, last, hlast⟩
  · exact hnil
  · rw [hlast, ← List.append_assoc] at hbody
    obtain ⟨hinit, -⟩ := List.append_inj' hbody rfl
    refine absurd ?_ hnone
    rw [← hinit]
    exact List.mem_append_left _ (List.mem_append_right _ (mem_stepsOf.mpr List.mem_cons_self))

/-- Then the other one goes on alone and commits at the end. -/
theorem SideBySide.after_commit (hxy : x ≠ y) {done rest : SsiTrace}
    (h : SideBySide x y (done ++ (x, .commit) :: rest)) (hdone : ∀ e ∈ done, e.2 ≠ .commit) :
    ∃ mid, rest = mid ++ [(y, .commit)] ∧ ∀ e ∈ mid, e.1 = y ∧ e.2 ≠ .commit := by
  obtain ⟨first, hfirst, hnone⟩ := h.first
  obtain ⟨second, hsecond, hnone'⟩ := h.second
  have hgone := stepsOf_after_commit hfirst hnone
  have halone : ∀ e ∈ rest, e.1 = y := by
    intro e he
    refine (h.parties e (List.mem_append_right _ (List.mem_cons_of_mem _ he))).resolve_left ?_
    rintro rfl
    have hmem := mem_stepsOf.mpr he
    rw [hgone] at hmem
    cases hmem
  have hcommit : stepsOf y [(x, SsiStep.commit)] = [] := by
    unfold stepsOf
    rw [List.filter_singleton, decide_eq_false hxy]
    rfl
  rw [List.append_cons, stepsOf_append, stepsOf_append, hcommit, List.append_nil,
    stepsOf_of_parties halone] at hsecond
  rcases List.eq_nil_or_concat' rest with rfl | ⟨mid, last, rfl⟩
  · rw [List.map_nil, List.append_nil] at hsecond
    have hmem : SsiStep.commit ∈ stepsOf y done := by
      rw [hsecond]
      exact List.mem_append_right _ List.mem_cons_self
    exact absurd rfl (hdone _ (mem_stepsOf.mp hmem))
  · rw [List.map_append, ← List.append_assoc] at hsecond
    obtain ⟨hmid, hlast⟩ := List.append_inj' hsecond rfl
    have hparty := halone last (List.mem_append_right _ List.mem_cons_self)
    refine ⟨mid, by rw [← hparty, ← (List.cons.inj hlast).1], fun e he => ?_⟩
    refine ⟨halone e (List.mem_append_left _ he), fun hc => hnone' ?_⟩
    rw [← hmid, ← hc]
    exact List.mem_append_right _ (List.mem_map_of_mem he)

theorem SideBySide.exists_first_commit (h : SideBySide x y trace) : ∃ done e rest,
    trace = done ++ e :: rest ∧ (∀ e ∈ done, e.2 ≠ .commit) ∧ e.2 = .commit := by
  obtain ⟨body, hbody, -⟩ := h.first
  have hmem : (x, SsiStep.commit) ∈ trace := by
    rw [← mem_stepsOf, hbody]
    exact List.mem_append_right _ List.mem_cons_self
  have hsome : (trace.find? (·.2 = .commit)).isSome :=
    List.find?_isSome.mpr ⟨_, hmem, decide_eq_true rfl⟩
  obtain ⟨e, he⟩ := Option.isSome_iff_exists.mp hsome
  obtain ⟨hcommit, done, rest, rfl, hdone⟩ := List.find?_eq_some_iff_append.mp he
  exact ⟨done, e, rest, rfl, fun e he => by simpa using hdone e he, of_decide_eq_true hcommit⟩

theorem beforeCommit_append {done rest : SsiTrace} {e : TransactionId × SsiStep}
    (hdone : ∀ e ∈ done, e.2 ≠ .commit) (he : e.2 = .commit) :
    beforeCommit (done ++ e :: rest) = done := by
  unfold beforeCommit
  rw [List.takeWhile_append_of_pos fun e' he' => decide_eq_true (hdone e' he'),
    List.takeWhile_cons_of_neg (by simp [he]), List.append_nil]

/-- The case in which `x` commits first. -/
theorem at_most_one_of_first (hx : x ≠ InvalidTransactionId) (hy : y ≠ InvalidTransactionId)
    (hxy : x ≠ y) (hmx : m.Unrecorded x) (hmy : m.Unrecorded y) {done rest : SsiTrace}
    (h : SideBySide x y (done ++ (x, .commit) :: rest)) (hdone : ∀ e ∈ done, e.2 ≠ .commit) :
    (committed (done ++ (x, .commit) :: rest) m).length ≤ 1 ↔
      ReadThenWritten done x y ∧ ReadThenWritten done y x := by
  obtain ⟨mid, rfl, hmid⟩ := h.after_commit hxy hdone
  have hparties : Uncommitted x y done :=
    fun e he => ⟨h.parties e (List.mem_append_left _ he), hdone e he⟩
  rw [← List.cons_append, ← List.append_assoc]
  rcases committed_trace hx hy hxy hmx hmy hparties hmid with ⟨hcond, hnone⟩ | ⟨hcond, hboth⟩
  · rw [hnone]
    exact ⟨fun _ => hcond, fun _ => Nat.zero_le 1⟩
  · rw [hboth]
    exact ⟨fun hlen => absurd hlen (by simp), fun hc => absurd hc hcond⟩

/-- At most one of the two commits succeeds exactly when, before the first of them, each transaction
has written a row that the other one had read. -/
theorem at_most_one_commit_iff (hx : x ≠ InvalidTransactionId) (hy : y ≠ InvalidTransactionId)
    (hxy : x ≠ y) (hmx : m.Unrecorded x) (hmy : m.Unrecorded y) (h : SideBySide x y trace) :
    (committed trace m).length ≤ 1 ↔ ReadThenWritten (beforeCommit trace) x y ∧
      ReadThenWritten (beforeCommit trace) y x := by
  obtain ⟨done, ⟨w, s⟩, rest, rfl, hdone, hcommit⟩ := h.exists_first_commit
  obtain rfl : s = .commit := hcommit
  rw [beforeCommit_append hdone rfl]
  rcases h.parties (w, .commit) (List.mem_append_right _ List.mem_cons_self) with hw | hw
  · obtain rfl : w = x := hw
    exact at_most_one_of_first hx hy hxy hmx hmy h hdone
  · obtain rfl : w = y := hw
    rw [at_most_one_of_first hy hx hxy.symm hmy hmx h.symm hdone]
    exact and_comm

/-! ### A write skew -/

def rowOne : RowKey := ⟨str "t", 1⟩

def rowTwo : RowKey := ⟨str "t", 2⟩

/-- Two transactions have taken their ids, 3 and 4. -/
def twoActive : TransactionManager :=
  ((do
    let _ ← assignXid
    Prog.modify resetContext
    let _ ← assignXid
    pure () : TxnM Unit).run initial).2

theorem twoActive_unrecorded (x : TransactionId) : twoActive.Unrecorded x := by
  have hreads : twoActive.sireadMap = ∅ := rfl
  have hedges : twoActive.inConflict = ∅ := rfl
  unfold Unrecorded HasRead HasEdge
  rw [hreads, hedges]
  simp

/-- Both have read both rows and written one before either commits. -/
def overlapping : SsiTrace :=
  [(3, .read rowOne), (3, .read rowTwo), (4, .read rowOne), (4, .read rowTwo),
    (3, .write rowOne), (4, .write rowTwo), (3, .commit), (4, .commit)]

theorem overlapping_refused : (committed overlapping twoActive).length ≤ 1 := by
  refine (at_most_one_commit_iff (x := 3) (y := 4) (by decide) (by decide) (by decide)
    (twoActive_unrecorded 3) (twoActive_unrecorded 4) ?_).mpr ⟨?_, ?_⟩
  · exact ⟨by decide, ⟨(stepsOf 3 overlapping).dropLast, by decide, by decide⟩,
      (stepsOf 4 overlapping).dropLast, by decide, by decide⟩
  · exact ⟨rowTwo, overlapping.take 5, [], rfl, by decide⟩
  · exact ⟨rowOne, overlapping.take 4, [(4, .write rowTwo)], rfl, by decide⟩

/-- The transactions read both rows, `x` writes only the first and `y` only the second. -/
structure SkewPair (x y : TransactionId) (a b : RowKey) (trace : SsiTrace) : Prop
    extends SideBySide x y trace where
  rows : a ≠ b
  reads : ∀ w ∈ [x, y], (w, .read a) ∈ trace ∧ (w, .read b) ∈ trace
  writes : (x, .write a) ∈ trace ∧ (y, .write b) ∈ trace
  others : ∀ e ∈ trace, ∀ key, e.2 = .write key → e = (x, .write a) ∨ e = (y, .write b)

/-- The second transaction writes after the first one has committed. -/
def skewed : SsiTrace :=
  [(4, .read rowOne), (4, .read rowTwo), (3, .read rowOne), (3, .read rowTwo),
    (3, .write rowOne), (3, .commit), (4, .write rowTwo), (4, .commit)]

theorem write_skew : SkewPair 3 4 rowOne rowTwo skewed ∧ twoActive.Unrecorded 3 ∧
    twoActive.Unrecorded 4 ∧ committed skewed twoActive = [3, 4] := by
  have hside : SideBySide 3 4 skewed :=
    ⟨by decide, ⟨(stepsOf 3 skewed).dropLast, by decide, by decide⟩,
      (stepsOf 4 skewed).dropLast, by decide, by decide⟩
  have hreads : ∀ w ∈ [3, 4], (w, .read rowOne) ∈ skewed ∧ (w, .read rowTwo) ∈ skewed := by
    intro w hw
    rcases List.mem_pair.1 hw with rfl | rfl <;> decide
  refine ⟨⟨hside, by decide, hreads, by decide, ?_⟩,
    twoActive_unrecorded 3, twoActive_unrecorded 4, by decide +kernel⟩
  intro e he key hkey
  simp only [skewed, List.mem_cons, List.not_mem_nil, or_false] at he
  rcases he with rfl | rfl | rfl | rfl | rfl | rfl | rfl | rfl <;> simp_all

end TransactionManager
end JiaMiaoDB
