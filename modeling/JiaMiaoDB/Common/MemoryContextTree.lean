import JiaMiaoDB.Common.MemoryContext
import Mathlib.Tactic.Common

/-!
# Trees of memory contexts

While no context has two children, the links of the contexts are those of a forest of lines, and
every traversal visits the contexts below its start. A second child makes the sibling links a circle.
-/

set_option autoImplicit false

namespace JiaMiaoDB.Contexts

variable {s s' : Contexts} {ctx c k p x : MemoryContext} {d e : MemoryContextData}

def parent (s : Contexts) (k : MemoryContext) : Option MemoryContext :=
  (s.node k).bind MemoryContextData.parent

def firstchild (s : Contexts) (k : MemoryContext) : Option MemoryContext :=
  (s.node k).bind MemoryContextData.firstchild

def prevchild (s : Contexts) (k : MemoryContext) : Option MemoryContext :=
  (s.node k).bind MemoryContextData.prevchild

def nextchild (s : Contexts) (k : MemoryContext) : Option MemoryContext :=
  (s.node k).bind MemoryContextData.nextchild

/-- The context and what is below it by parent links. -/
inductive Below (s : Contexts) (c : MemoryContext) : MemoryContext → Prop
  | self : Below s c c
  | child {x k : MemoryContext} : Below s c x → s.parent k = some x → Below s c k

theorem Below.trans {a b : MemoryContext} (hab : Below s a b) (hbc : Below s b c) :
    Below s a c := by
  induction hbc with
  | self => exact hab
  | child _ hp ih => exact .child ih hp

/-- Every context is the only child of its parent, and children rank below their parents. -/
structure OnlyChildren (s : Contexts) : Prop where
  parent_iff : ∀ c k, s.firstchild c = some k ↔ s.parent k = some c
  prevchild_eq : ∀ c k, s.firstchild c = some k → s.prevchild k = some k
  nextchild_eq : ∀ c k, s.firstchild c = some k → s.nextchild k = none
  ranked : ∃ rank : MemoryContext → Nat, ∀ c k, s.firstchild c = some k → rank k < rank c

/-! ### Writing -/

def set (s : Contexts) (p : MemoryContext) (d : MemoryContextData) : Contexts :=
  ⟨Function.update s.node p (some d)⟩

theorem node_set (s : Contexts) (p : MemoryContext) (d : MemoryContextData) (k : MemoryContext) :
    (s.set p d).node k = if k = p then some d else s.node k :=
  Function.update_apply ..

theorem node_free (s : Contexts) (p k : MemoryContext) :
    (s.free p).node k = if k = p then none else s.node k :=
  Function.update_apply ..

theorem modify_eq (hd : s.node p = some d) (f : MemoryContextData → MemoryContextData) :
    s.modify p f = some (s.set p (f d)) := by
  rw [modify, hd, Option.map_some]
  rfl

section Links
variable (s : Contexts) (p k : MemoryContext) (d : MemoryContextData)

theorem parent_set : (s.set p d).parent k = if k = p then d.parent else s.parent k := by
  rw [parent, node_set]
  split <;> rfl

theorem firstchild_set :
    (s.set p d).firstchild k = if k = p then d.firstchild else s.firstchild k := by
  rw [firstchild, node_set]
  split <;> rfl

theorem prevchild_set :
    (s.set p d).prevchild k = if k = p then d.prevchild else s.prevchild k := by
  rw [prevchild, node_set]
  split <;> rfl

theorem nextchild_set :
    (s.set p d).nextchild k = if k = p then d.nextchild else s.nextchild k := by
  rw [nextchild, node_set]
  split <;> rfl

end Links

/-- The two stores have the same links. -/
structure SameLinks (s s' : Contexts) : Prop where
  parent : ∀ k, s'.parent k = s.parent k
  firstchild : ∀ k, s'.firstchild k = s.firstchild k
  prevchild : ∀ k, s'.prevchild k = s.prevchild k
  nextchild : ∀ k, s'.nextchild k = s.nextchild k

theorem sameLinks_set (he : s.node p = some e) (hparent : d.parent = e.parent)
    (hfirst : d.firstchild = e.firstchild) (hprev : d.prevchild = e.prevchild)
    (hnext : d.nextchild = e.nextchild) : SameLinks s (s.set p d) := by
  refine ⟨fun k => ?_, fun k => ?_, fun k => ?_, fun k => ?_⟩
  · rw [parent_set]
    split
    · subst k
      rw [hparent, parent, he, Option.bind_some]
    · rfl
  · rw [firstchild_set]
    split
    · subst k
      rw [hfirst, firstchild, he, Option.bind_some]
    · rfl
  · rw [prevchild_set]
    split
    · subst k
      rw [hprev, prevchild, he, Option.bind_some]
    · rfl
  · rw [nextchild_set]
    split
    · subst k
      rw [hnext, nextchild, he, Option.bind_some]
    · rfl

theorem OnlyChildren.congr (h : OnlyChildren s) (hs : SameLinks s s') : OnlyChildren s' where
  parent_iff c k := by
    rw [hs.firstchild, hs.parent]
    exact h.parent_iff c k
  prevchild_eq c k hk := by
    rw [hs.firstchild] at hk
    rw [hs.prevchild]
    exact h.prevchild_eq c k hk
  nextchild_eq c k hk := by
    rw [hs.firstchild] at hk
    rw [hs.nextchild]
    exact h.nextchild_eq c k hk
  ranked := by
    obtain ⟨rank, hrank⟩ := h.ranked
    refine ⟨rank, fun c k hk => ?_⟩
    rw [hs.firstchild] at hk
    exact hrank c k hk

theorem onlyChildren_empty : OnlyChildren ⟨fun _ => none⟩ where
  parent_iff c k := by simp [firstchild, parent]
  prevchild_eq c k hk := by cases hk
  nextchild_eq c k hk := by cases hk
  ranked := ⟨fun _ => 0, fun c k hk => by cases hk⟩

namespace OnlyChildren

theorem firstchild_ne (h : OnlyChildren s) (hk : s.firstchild c = some k) : k ≠ c := by
  rintro rfl
  obtain ⟨rank, hrank⟩ := h.ranked
  exact Nat.lt_irrefl _ (hrank k k hk)

/-- Following the child links from any context comes to an end. -/
theorem exists_line (h : OnlyChildren s) (c : MemoryContext) :
    ∃ xs, Chain s.firstchild (s.firstchild c) xs none := by
  obtain ⟨rank, hrank⟩ := h.ranked
  induction hn : rank c using Nat.strong_induction_on generalizing c with
  | _ n ih =>
    cases hk : s.firstchild c with
    | none => exact ⟨[], rfl⟩
    | some k =>
      obtain ⟨xs, hxs⟩ := ih (rank k) (hn ▸ hrank c k hk) k rfl
      exact ⟨k :: xs, rfl, hxs⟩

/-- The contexts on the line are those below its start. -/
theorem mem_line_iff (h : OnlyChildren s) {xs : List MemoryContext}
    (hxs : Chain s.firstchild (s.firstchild c) xs none) : k ∈ c :: xs ↔ s.Below c k := by
  constructor
  · intro hk
    induction xs generalizing c with
    | nil =>
      rw [List.mem_singleton.mp hk]
      exact .self
    | cons x xs ih =>
      rcases List.mem_cons.mp hk with rfl | hk
      · exact .self
      · have hx : s.Below c x := .child .self ((h.parent_iff c x).mp hxs.1)
        exact hx.trans (ih hxs.2 hk)
  · intro hk
    have hline : Chain s.firstchild (some c) (c :: xs) none := ⟨rfl, hxs⟩
    induction hk with
    | self => exact List.mem_cons_self
    | @child x k _ hp ih =>
      obtain ⟨A, B, hsplit⟩ := List.append_of_mem ih
      rw [hsplit] at hline
      obtain ⟨r, -, hr⟩ := Chain.append_iff.mp hline
      have hB : Chain s.firstchild (some k) B none := (h.parent_iff x k).mpr hp ▸ hr.2
      cases B with
      | nil => cases hB
      | cons y B =>
        obtain rfl : k = y := Option.some.inj hB.1
        rw [hsplit]
        simp

/-! ### Unlinking and linking -/

/-- An only child is taken from its parent, or a root stays as it is. -/
structure Unlinked (s : Contexts) (ctx : MemoryContext) (s' : Contexts) : Prop where
  parent : ∀ k, s'.parent k = if k = ctx then none else s.parent k
  firstchild : ∀ k, s'.firstchild k = if s.parent ctx = some k then none else s.firstchild k
  siblings : ∀ k ≠ ctx, s'.prevchild k = s.prevchild k ∧ s'.nextchild k = s.nextchild k
  others : ∀ k ≠ ctx, s.parent ctx ≠ some k → s'.node k = s.node k
  upper : ∀ c d, s.parent ctx = some c → s.node c = some d →
    s'.node c = some { d with firstchild := none }
  self : ∀ e, s.node ctx = some e → ∃ prev next, s'.node ctx =
    some { e with parent := none, prevchild := prev, nextchild := next }

theorem of_unlinked (h : OnlyChildren s) (hu : Unlinked s ctx s') : OnlyChildren s' := by
  have hold (x k : MemoryContext) (hk : s'.firstchild x = some k) :
      k ≠ ctx ∧ s.firstchild x = some k := by
    rw [hu.firstchild] at hk
    split at hk
    · cases hk
    case isFalse hne =>
      refine ⟨?_, hk⟩
      rintro rfl
      exact hne ((h.parent_iff x k).mp hk)
  refine ⟨fun x k => ⟨fun hk => ?_, fun hk => ?_⟩, fun x k hk => ?_, fun x k hk => ?_, ?_⟩
  · obtain ⟨hne, hk⟩ := hold x k hk
    rw [hu.parent, if_neg hne]
    exact (h.parent_iff x k).mp hk
  · rw [hu.parent] at hk
    split at hk
    · cases hk
    case isFalse hne =>
      have hfirst := (h.parent_iff x k).mpr hk
      rw [hu.firstchild, if_neg]
      · exact hfirst
      · intro hc
        rw [(h.parent_iff x ctx).mpr hc] at hfirst
        exact hne (Option.some.inj hfirst).symm
  · obtain ⟨hne, hk⟩ := hold x k hk
    rw [(hu.siblings k hne).1]
    exact h.prevchild_eq x k hk
  · obtain ⟨hne, hk⟩ := hold x k hk
    rw [(hu.siblings k hne).2]
    exact h.nextchild_eq x k hk
  · obtain ⟨rank, hrank⟩ := h.ranked
    exact ⟨rank, fun x k hk => hrank x k (hold x k hk).2⟩

theorem unlinkChild (h : OnlyChildren s) (he : s.node ctx = some e) :
    ∃ s', s.unlinkChild ctx = some s' ∧ Unlinked s ctx s' := by
  cases hp : e.parent with
  | none =>
    have hparent : s.parent ctx = none := by rw [parent, he, Option.bind_some, hp]
    refine ⟨s, by simp [Contexts.unlinkChild, he, hp], fun k => ?_, fun k => ?_,
      fun _ _ => ⟨rfl, rfl⟩, fun _ _ _ => rfl, fun c d hc => ?_, fun e' he' => ?_⟩
    · split
      · subst k
        exact hparent
      · rfl
    · rw [hparent, if_neg (by simp)]
    · rw [hparent] at hc
      cases hc
    · obtain rfl := Option.some.inj (he.symm.trans he')
      exact ⟨e.prevchild, e.nextchild, by rw [he, ← hp]⟩
  | some c =>
    have hparent : s.parent ctx = some c := by rw [parent, he, Option.bind_some, hp]
    have hfirst := (h.parent_iff c ctx).mpr hparent
    have hprev : e.prevchild = some ctx := by
      have hprev := h.prevchild_eq c ctx hfirst
      rwa [prevchild, he, Option.bind_some] at hprev
    obtain ⟨d, hd, hdfirst⟩ := Option.bind_eq_some_iff.mp hfirst
    have hne : ctx ≠ c := h.firstchild_ne hfirst
    have he₁ : (s.set c { d with firstchild := none }).node ctx = some e := by
      rw [node_set, if_neg hne, he]
    set s' := (s.set c { d with firstchild := none }).set ctx
      { e with prevchild := none, nextchild := none, parent := none } with hs'
    have hnode (k : MemoryContext) : s'.node k =
        if k = ctx then some { e with prevchild := none, nextchild := none, parent := none }
        else if k = c then some { d with firstchild := none } else s.node k := by
      rw [hs', node_set, node_set]
    refine ⟨s', ?_, fun k => ?_, fun k => ?_, fun k hk => ?_, fun k hk hkc => ?_,
      fun c' d' hc' hd' => ?_, fun e' he' => ?_⟩
    · simp [Contexts.unlinkChild, clearLinks, he, hp, hd, hdfirst, hprev, modify_eq hd,
        modify_eq he₁, hs']
    · rw [parent, hnode]
      split
      · rfl
      · split
        · subst k
          rw [parent, hd]
          rfl
        · rfl
    · rw [firstchild, hnode, hparent]
      by_cases hk : k = ctx
      · subst hk
        rw [if_pos rfl, if_neg (by simpa using hne.symm), firstchild, he]
        rfl
      · rw [if_neg hk]
        simp only [Option.some.injEq, eq_comm (a := c)]
        split
        · rfl
        · rfl
    · rw [prevchild, nextchild, hnode, if_neg hk]
      split
      · subst k
        rw [prevchild, nextchild, hd]
        exact ⟨rfl, rfl⟩
      · exact ⟨rfl, rfl⟩
    · rw [hnode, if_neg hk, if_neg]
      rintro rfl
      exact hkc hparent
    · rw [hparent] at hc'
      obtain rfl := Option.some.inj hc'
      obtain rfl := Option.some.inj (hd.symm.trans hd')
      rw [hnode, if_neg hne.symm, if_pos rfl]
    · obtain rfl := Option.some.inj (he.symm.trans he')
      exact ⟨none, none, by rw [hnode, if_pos rfl]⟩

/-- A context that is nobody's child and has no child is freed. -/
theorem free (h : OnlyChildren s) (hparent : s.parent p = none) (hfirst : s.firstchild p = none) :
    OnlyChildren (s.free p) := by
  have hparent' (k : MemoryContext) : (s.free p).parent k = s.parent k := by
    rw [parent, node_free]
    split
    · subst k
      exact hparent.symm
    · rfl
  have hfirst' (k : MemoryContext) : (s.free p).firstchild k = s.firstchild k := by
    rw [firstchild, node_free]
    split
    · subst k
      exact hfirst.symm
    · rfl
  have hne (c k : MemoryContext) (hk : s.firstchild c = some k) : k ≠ p := by
    rintro rfl
    rw [(h.parent_iff c k).mp hk] at hparent
    cases hparent
  refine ⟨fun c k => ?_, fun c k hk => ?_, fun c k hk => ?_, ?_⟩
  · rw [hfirst', hparent']
    exact h.parent_iff c k
  · rw [hfirst'] at hk
    rw [prevchild, node_free, if_neg (hne c k hk)]
    exact h.prevchild_eq c k hk
  · rw [hfirst'] at hk
    rw [nextchild, node_free, if_neg (hne c k hk)]
    exact h.nextchild_eq c k hk
  · obtain ⟨rank, hrank⟩ := h.ranked
    exact ⟨rank, fun c k hk => hrank c k (by rwa [hfirst'] at hk)⟩

/-- A root becomes the only child of a context. -/
structure Linked (s : Contexts) (p ctx : MemoryContext) (s' : Contexts) : Prop where
  parent : ∀ k, s'.parent k = if k = ctx then some p else s.parent k
  firstchild : ∀ k, s'.firstchild k = if k = p then some ctx else s.firstchild k
  siblings : ∀ k ≠ ctx, s'.prevchild k = s.prevchild k ∧ s'.nextchild k = s.nextchild k
  self : s'.prevchild ctx = some ctx ∧ s'.nextchild ctx = none

theorem of_linked (h : OnlyChildren s) (hparent : s.parent ctx = none)
    (hfirst : s.firstchild p = none) (hbelow : ¬ s.Below ctx p) (hl : Linked s p ctx s') :
    OnlyChildren s' := by
  have hcases (x k : MemoryContext) (hk : s'.firstchild x = some k) :
      (x = p ∧ k = ctx) ∨ (k ≠ ctx ∧ s.firstchild x = some k) := by
    rw [hl.firstchild] at hk
    split at hk
    case isTrue hx => exact .inl ⟨hx, (Option.some.inj hk).symm⟩
    case isFalse =>
      refine .inr ⟨?_, hk⟩
      rintro rfl
      rw [(h.parent_iff x k).mp hk] at hparent
      cases hparent
  refine ⟨fun x k => ⟨fun hk => ?_, fun hk => ?_⟩, fun x k hk => ?_, fun x k hk => ?_, ?_⟩
  · rw [hl.parent]
    rcases hcases x k hk with ⟨rfl, rfl⟩ | ⟨hne, hk⟩
    · rw [if_pos rfl]
    · rw [if_neg hne]
      exact (h.parent_iff x k).mp hk
  · rw [hl.parent] at hk
    rw [hl.firstchild]
    split at hk
    case isTrue hkc =>
      rw [hkc, if_pos (Option.some.inj hk).symm]
    case isFalse =>
      have hx := (h.parent_iff x k).mpr hk
      rw [if_neg]
      · exact hx
      · rintro rfl
        rw [hfirst] at hx
        cases hx
  · rcases hcases x k hk with ⟨-, rfl⟩ | ⟨hne, hk⟩
    · exact hl.self.1
    · rw [(hl.siblings k hne).1]
      exact h.prevchild_eq x k hk
  · rcases hcases x k hk with ⟨-, rfl⟩ | ⟨hne, hk⟩
    · exact hl.self.2
    · rw [(hl.siblings k hne).2]
      exact h.nextchild_eq x k hk
  · -- The contexts above `p` are lifted over everything below `ctx`.
    classical
    obtain ⟨rank, hrank⟩ := h.ranked
    refine ⟨fun k => if s.Below k p then rank k + rank ctx + 1 else rank k, fun x k hk => ?_⟩
    beta_reduce
    rcases hcases x k hk with ⟨rfl, rfl⟩ | ⟨-, hk⟩
    · rw [if_neg hbelow, if_pos Below.self]
      omega
    · have hlt := hrank x k hk
      have hup : s.Below k p → s.Below x p :=
        (Below.child .self ((h.parent_iff x k).mp hk)).trans
      by_cases hkp : s.Below k p
      · rw [if_pos hkp, if_pos (hup hkp)]
        omega
      · rw [if_neg hkp]
        split <;> omega

end OnlyChildren

/-- The branch for a context without children. -/
theorem linkChild_eq (he : s.node ctx = some e) (hd : s.node p = some d)
    (hfirst : s.firstchild p = none) (hne : p ≠ ctx) :
    ∃ s', s.linkChild p ctx = some s' ∧ OnlyChildren.Linked s p ctx s' := by
  have hdfirst : d.firstchild = none := by rwa [firstchild, hd] at hfirst
  have hctx : (s.set ctx { e with parent := some p }).node ctx =
      some { e with parent := some p } := by rw [node_set, if_pos rfl]
  have hd₁ : (s.set ctx { e with parent := some p }).node p = some d := by
    rw [node_set, if_neg hne, hd]
  have hd₂ : ((s.set ctx { e with parent := some p }).set ctx { e with
      parent := some p, prevchild := some ctx, nextchild := none }).node p = some d := by
    rw [node_set, if_neg hne, hd₁]
  set s' := ((s.set ctx { e with parent := some p }).set ctx { e with
    parent := some p, prevchild := some ctx, nextchild := none }).set p
      { d with firstchild := some ctx } with hs'
  have hrun : s.linkChild p ctx = some s' := by
    simp [Contexts.linkChild, modify_eq he, modify_eq hctx, modify_eq hd₂, hd₁, hdfirst, hs']
  have hnode (k : MemoryContext) : s'.node k = if k = p then some { d with firstchild := some ctx }
      else if k = ctx then some { e with
        parent := some p, prevchild := some ctx, nextchild := none } else s.node k := by
    rw [hs', node_set, node_set, node_set]
    split
    · rfl
    · split <;> rfl
  have hctx' : s'.node ctx = some { e with
      parent := some p, prevchild := some ctx, nextchild := none } := by
    rw [hnode, if_neg hne.symm, if_pos rfl]
  refine ⟨s', hrun, fun k => ?_, fun k => ?_, fun k hk => ?_, ?_⟩
  · split
    · subst k
      rw [parent, hctx']
      rfl
    case isFalse hk =>
      rw [parent, hnode, if_neg hk]
      split
      · subst k
        rw [parent, hd]
        rfl
      · rfl
  · rw [firstchild, hnode]
    split
    · rfl
    · split
      · subst k
        rw [firstchild, he]
        rfl
      · rfl
  · rw [prevchild, nextchild, hnode, if_neg hk]
    split
    · subst k
      rw [prevchild, nextchild, hd]
      exact ⟨rfl, rfl⟩
    · exact ⟨rfl, rfl⟩
  · rw [prevchild, nextchild, hctx']
    exact ⟨rfl, rfl⟩

/-! ### Deleting -/

theorem callResetCallbacks_eq (hd : s.node p = some d) :
    s.callResetCallbacks p = some (s.set p { d with resetCbs := [] }) := modify_eq hd _

theorem sameLinks_callResetCallbacks (hd : s.node p = some d) :
    SameLinks s (s.set p { d with resetCbs := [] }) := sameLinks_set hd rfl rfl rfl rfl

/-- The contexts of a line are freed, and their common ancestor keeps all but its child link. -/
structure Cleared (s : Contexts) (c : MemoryContext) (xs : List MemoryContext) (s' : Contexts) :
    Prop where
  gone : ∀ k ∈ xs, s'.node k = none
  others : ∀ k ∉ xs, k ≠ c → s'.node k = s.node k
  self : ∀ d, s.node c = some d → s'.node c = some { d with firstchild := none }

theorem OnlyChildren.deleteChildren (h : OnlyChildren s) (hd : s.node c = some d)
    {xs : List MemoryContext} (hxs : Chain s.firstchild (s.firstchild c) xs none) {fuel : Nat}
    (hfuel : xs.length < fuel) : ∃ s', s.deleteChildren fuel c = some (xs.reverse, s') ∧
      OnlyChildren s' ∧ Cleared s c xs s' := by
  induction xs generalizing s c d fuel with
  | nil =>
    obtain ⟨fuel, rfl⟩ : ∃ n, fuel = n + 1 := ⟨fuel - 1, by omega⟩
    have hfirst : d.firstchild = none := by
      have hc : s.firstchild c = none := hxs
      rwa [firstchild, hd] at hc
    refine ⟨s, by simp [Contexts.deleteChildren, hd, hfirst], h, by simp, fun _ _ _ => rfl, ?_⟩
    intro d' hd'
    obtain rfl := Option.some.inj (hd.symm.trans hd')
    rw [hd, ← hfirst]
  | cons x xs ih =>
    obtain ⟨fuel, rfl⟩ : ∃ n, fuel = n + 1 := ⟨fuel - 1, by omega⟩
    rw [List.length_cons] at hfuel
    have hparent : s.parent x = some c := (h.parent_iff c x).mp hxs.1
    have hdfirst : d.firstchild = some x := by
      have hc := hxs.1
      rwa [firstchild, hd] at hc
    obtain ⟨e, he, -⟩ := Option.bind_eq_some_iff.mp hparent
    -- `c` is not on the line below it.
    have hline : Chain s.firstchild (some c) (c :: x :: xs) none := ⟨rfl, hxs⟩
    obtain ⟨hc, hx⟩ := List.nodup_cons.mp hline.nodup
    have hcx : c ≠ x := fun hcx => hc (hcx ▸ List.mem_cons_self)
    have hxxs : x ∉ xs := (List.nodup_cons.mp hx).1
    -- The child is taken out, and its own children are deleted.
    obtain ⟨s₁, hrun₁, hu⟩ := h.unlinkChild he
    obtain ⟨prev, next, he₁⟩ := hu.self e he
    have h₁ := h.of_unlinked hu
    set s₂ := s₁.set x { e with
      parent := none, prevchild := prev, nextchild := next, resetCbs := [] } with hs₂
    have hrun₂ : s₁.callResetCallbacks x = some s₂ := callResetCallbacks_eq he₁
    have hsame : SameLinks s₁ s₂ := sameLinks_callResetCallbacks he₁
    have he₂ : s₂.node x = some { e with
        parent := none, prevchild := prev, nextchild := next, resetCbs := [] } := by
      rw [hs₂, node_set, if_pos rfl]
    have hfirst₂ : ∀ k ∈ x :: xs, s₂.firstchild k = s.firstchild k := fun k hk => by
      rw [hsame.firstchild, hu.firstchild, if_neg]
      rw [hparent]
      rintro hck
      exact hc (Option.some.inj hck ▸ hk)
    have hxs₂ : Chain s₂.firstchild (s₂.firstchild x) xs none := by
      rw [hfirst₂ x List.mem_cons_self]
      exact hxs.2.congr fun k hk => hfirst₂ k (List.mem_cons_of_mem x hk)
    obtain ⟨s₃, hrun₃, h₃, hcl⟩ := ih (h₁.congr hsame) he₂ hxs₂ (show _ < fuel by omega)
    have he₃ := hcl.self _ he₂
    have h₄ : OnlyChildren (s₃.free x) :=
      h₃.free (by rw [parent, he₃]; rfl) (by rw [firstchild, he₃]; rfl)
    -- Nothing else changes, and the loop finds no further child.
    have hother : ∀ k ∉ x :: xs, (s₃.free x).node k = s₁.node k := fun k hk => by
      rw [List.mem_cons, not_or] at hk
      rw [node_free, if_neg hk.1, hcl.others k hk.2 hk.1, hs₂, node_set, if_neg hk.1]
    have hd₄ : (s₃.free x).node c = some { d with firstchild := none } := by
      rw [hother c hc, hu.upper c d hparent hd]
    obtain ⟨fuel', rfl⟩ : ∃ n, fuel = n + 1 := ⟨fuel - 1, by omega⟩
    have hrun₄ : (s₃.free x).deleteChildren (fuel' + 1) c = some ([], s₃.free x) := by
      simp [Contexts.deleteChildren, hd₄]
    refine ⟨s₃.free x, ?_, h₄, fun k hk => ?_, fun k hk hkc => ?_, fun d' hd' => ?_⟩
    · rw [Contexts.deleteChildren]
      simp only [hd, hdfirst, Option.bind_eq_bind, Option.bind_some, hrun₁, hrun₂, hrun₃, hrun₄,
        List.reverse_cons]
    · rw [node_free]
      rcases List.mem_cons.mp hk with rfl | hkxs
      · rw [if_pos rfl]
      · have hkx : k ≠ x := by
          rintro rfl
          exact hxxs hkxs
        rw [if_neg hkx, hcl.gone k hkxs]
    · rw [hother k hk]
      exact hu.others k (fun hkx => hk (hkx ▸ List.mem_cons_self)) fun hk' => by
        rw [hparent] at hk'
        exact hkc (Option.some.inj hk').symm
    · obtain rfl := Option.some.inj (hd.symm.trans hd')
      exact hd₄

/-- What a context holds besides its links. -/
def contents (s : Contexts) (k : MemoryContext) : Option (Bool × UInt64 × List Nat) :=
  (s.node k).map fun d => (d.isReset, d.memAllocated, d.resetCbs)

theorem OnlyChildren.delete (h : OnlyChildren s) (hd : s.node c = some d)
    {xs : List MemoryContext} (hxs : Chain s.firstchild (s.firstchild c) xs none) {fuel : Nat}
    (hfuel : xs.length < fuel) : ∃ s', Contexts.delete fuel s c = some (xs.reverse ++ [c], s') ∧
      OnlyChildren s' ∧ (∀ k ∈ c :: xs, s'.node k = none) ∧
      ∀ k ∉ c :: xs, s'.contents k = s.contents k := by
  have hline : Chain s.firstchild (some c) (c :: xs) none := ⟨rfl, hxs⟩
  have hc := (List.nodup_cons.mp hline.nodup).1
  set s₁ := s.set c { d with resetCbs := [] } with hs₁
  have hrun₁ : s.callResetCallbacks c = some s₁ := callResetCallbacks_eq hd
  have hsame : SameLinks s s₁ := sameLinks_callResetCallbacks hd
  have hd₁ : s₁.node c = some { d with resetCbs := [] } := by rw [hs₁, node_set, if_pos rfl]
  have hxs₁ : Chain s₁.firstchild (s₁.firstchild c) xs none := by
    rw [hsame.firstchild]
    exact hxs.congr fun k _ => hsame.firstchild k
  obtain ⟨s₂, hrun₂, h₂, hcl⟩ := (h.congr hsame).deleteChildren hd₁ hxs₁ hfuel
  have hd₂ := hcl.self _ hd₁
  obtain ⟨s₃, hrun₃, hu⟩ := h₂.unlinkChild hd₂
  obtain ⟨prev, next, hd₃⟩ := hu.self _ hd₂
  have h₄ : OnlyChildren (s₃.free c) :=
    (h₂.of_unlinked hu).free (by rw [parent, hd₃]; rfl) (by rw [firstchild, hd₃]; rfl)
  have hupper (k : MemoryContext) (hk : s₂.parent c = some k) :
      ∃ p, s₂.node k = some p ∧ p.firstchild = some c := by
    have hfirst := (h₂.parent_iff k c).mpr hk
    obtain ⟨p, hp, hpf⟩ := Option.bind_eq_some_iff.mp hfirst
    exact ⟨p, hp, hpf⟩
  refine ⟨s₃.free c, ?_, h₄, fun k hk => ?_, fun k hk => ?_⟩
  · rw [Contexts.delete]
    simp only [hrun₁, hrun₂, hrun₃, Option.bind_eq_bind, Option.bind_some]
  · rw [node_free]
    rcases List.mem_cons.mp hk with rfl | hkxs
    · rw [if_pos rfl]
    · have hkc : k ≠ c := by
        rintro rfl
        exact hc hkxs
      have hgone := hcl.gone k hkxs
      rw [if_neg hkc, hu.others k hkc, hgone]
      intro hp
      obtain ⟨p, hp, -⟩ := hupper k hp
      rw [hgone] at hp
      cases hp
  · rw [List.mem_cons, not_or] at hk
    have hkeep : s₂.node k = s.node k := by
      rw [hcl.others k hk.2 hk.1, hs₁, node_set, if_neg hk.1]
    rw [contents, node_free, if_neg hk.1, contents, ← hkeep]
    by_cases hp : s₂.parent c = some k
    · obtain ⟨p, hpk, -⟩ := hupper k hp
      rw [hu.upper k p hp hpk, hpk]
      rfl
    · rw [hu.others k hk.1 hp]

/-! ### Resetting and counting -/

def resetData (d : MemoryContextData) : MemoryContextData :=
  { d with isReset := true, memAllocated := 0, resetCbs := [] }

/-- The part of a reset that comes after the children. -/
theorem exists_resetSelf (hd : s.node c = some d) :
    ∃ s', ((s.callResetCallbacks c).bind fun s => s.methodsReset c) = some s' ∧
      ∀ k, s'.node k = if k = c then some (resetData d) else s.node k := by
  have hd₁ : (s.set c { d with resetCbs := [] }).node c = some { d with resetCbs := [] } := by
    rw [node_set, if_pos rfl]
  refine ⟨_, by rw [callResetCallbacks_eq hd, Option.bind_some, methodsReset, modify_eq hd₁],
    fun k => ?_⟩
  rw [node_set, node_set]
  split <;> rfl

theorem OnlyChildren.reset (h : OnlyChildren s) (hd : s.node c = some d)
    {xs : List MemoryContext} (hxs : Chain s.firstchild (s.firstchild c) xs none) {fuel : Nat}
    (hfuel : 2 * xs.length + 2 ≤ fuel) :
    ∃ s', Contexts.reset fuel s c = some (xs.reverse ++ [c], s') ∧
      ∀ k, s'.node k = if k ∈ c :: xs then (s.node k).map resetData else s.node k := by
  obtain ⟨fuel, rfl⟩ : ∃ n, fuel = n + 2 := ⟨fuel - 2, by omega⟩
  induction xs generalizing c d fuel with
  | nil =>
    have hfirst : d.firstchild = none := by
      have hc : s.firstchild c = none := hxs
      rwa [firstchild, hd] at hc
    obtain ⟨s', hrun, hnode⟩ := exists_resetSelf hd
    refine ⟨s', ?_, fun k => ?_⟩
    · obtain ⟨s₁, hrun₁, hrun₂⟩ := Option.bind_eq_some_iff.mp hrun
      simp [Contexts.reset, resetChildren, hd, hfirst, hrun₁, hrun₂]
    · rw [hnode]
      simp only [List.mem_singleton]
      split
      · subst k
        rw [hd, Option.map_some]
      · rfl
  | cons x xs ih =>
    rw [List.length_cons] at hfuel
    obtain ⟨fuel, rfl⟩ : ∃ n, fuel = n + 2 := ⟨fuel - 2, by omega⟩
    have hdfirst : d.firstchild = some x := by
      have hc := hxs.1
      rwa [firstchild, hd] at hc
    obtain ⟨e, he, -⟩ := Option.bind_eq_some_iff.mp ((h.parent_iff c x).mp hxs.1)
    have henext : e.nextchild = none := by
      have hx := h.nextchild_eq c x hxs.1
      rwa [nextchild, he] at hx
    have hline : Chain s.firstchild (some c) (c :: x :: xs) none := ⟨rfl, hxs⟩
    have hc := (List.nodup_cons.mp hline.nodup).1
    obtain ⟨s₁, hrun₁, hnode₁⟩ := ih he hxs.2 fuel (by omega)
    have hd₁ : s₁.node c = some d := by rw [hnode₁, if_neg hc, hd]
    obtain ⟨s', hrun, hnode⟩ := exists_resetSelf hd₁
    refine ⟨s', ?_, fun k => ?_⟩
    · obtain ⟨s₂, hrun₂, hrun₃⟩ := Option.bind_eq_some_iff.mp hrun
      have hrest : resetChildren (fuel + 2) s₁ none = some ([], s₁) := rfl
      rw [Contexts.reset]
      simp only [hd, hdfirst, Option.bind_eq_bind, Option.bind_some]
      rw [resetChildren]
      simp only [he, henext, Option.bind_eq_bind, Option.bind_some, hrun₁, hrest, hrun₂, hrun₃,
        List.append_nil, List.reverse_cons]
    · rw [hnode, hnode₁]
      simp only [List.mem_cons (b := c)]
      by_cases hk : k = c
      · rw [if_pos hk, if_pos (.inl hk), hk, hd, Option.map_some]
      · rw [if_neg hk]
        simp only [hk, false_or]

theorem OnlyChildren.memAllocated (h : OnlyChildren s) (hd : s.node c = some d)
    {xs : List MemoryContext} (hxs : Chain s.firstchild (s.firstchild c) xs none) {fuel : Nat}
    (hfuel : 2 * xs.length + 2 ≤ fuel) :
    Contexts.memAllocated fuel s c =
      some ((c :: xs).map fun k => ((s.node k).map (·.memAllocated)).getD 0).sum := by
  obtain ⟨fuel, rfl⟩ : ∃ n, fuel = n + 2 := ⟨fuel - 2, by omega⟩
  induction xs generalizing c d fuel with
  | nil =>
    have hfirst : d.firstchild = none := by
      have hc : s.firstchild c = none := hxs
      rwa [firstchild, hd] at hc
    simp [Contexts.memAllocated, memAllocatedChildren, hd, hfirst]
  | cons x xs ih =>
    rw [List.length_cons] at hfuel
    obtain ⟨fuel, rfl⟩ : ∃ n, fuel = n + 2 := ⟨fuel - 2, by omega⟩
    have hdfirst : d.firstchild = some x := by
      have hc := hxs.1
      rwa [firstchild, hd] at hc
    obtain ⟨e, he, -⟩ := Option.bind_eq_some_iff.mp ((h.parent_iff c x).mp hxs.1)
    have henext : e.nextchild = none := by
      have hx := h.nextchild_eq c x hxs.1
      rwa [nextchild, he] at hx
    have hx := ih he hxs.2 fuel (by omega)
    rw [Contexts.memAllocated]
    simp only [hd, hdfirst, Option.bind_eq_bind, Option.bind_some]
    rw [memAllocatedChildren]
    simp only [he, henext, Option.bind_eq_bind, Option.bind_some, hx]
    simp only [memAllocatedChildren, List.map_cons, List.sum_cons, hd, Option.map_some,
      Option.getD_some]

/-! ### Intact trees -/

/-- The sibling links list the children of a context, and the traversals from a context come to an
end and touch the contexts below it, each once. -/
structure Intact (s : Contexts) : Prop where
  siblings : ∀ c d, s.node c = some d → ∃ ks, Chain s.nextchild d.firstchild ks none ∧ ks.Nodup ∧
    ∀ k, k ∈ ks ↔ s.parent k = some c
  reset : ∀ c d, s.node c = some d → ∃ (fuel : Nat) (touched : List MemoryContext) (s' : Contexts),
    Contexts.reset fuel s c = some (touched, s') ∧ touched.Nodup ∧
      (∀ k, k ∈ touched ↔ s.Below c k) ∧
      ∀ k, s'.node k = if k ∈ touched then (s.node k).map resetData else s.node k
  memAllocated : ∀ c d, s.node c = some d → ∃ (fuel : Nat) (counted : List MemoryContext),
    counted.Nodup ∧
    (∀ k, k ∈ counted ↔ s.Below c k) ∧ Contexts.memAllocated fuel s c =
      some (counted.map fun k => ((s.node k).map (·.memAllocated)).getD 0).sum
  delete : ∀ c d, s.node c = some d → ∃ (fuel : Nat) (touched : List MemoryContext) (s' : Contexts),
    Contexts.delete fuel s c = some (touched, s') ∧ touched.Nodup ∧
      (∀ k, k ∈ touched ↔ s.Below c k) ∧ (∀ k ∈ touched, s'.node k = none) ∧
      ∀ k ∉ touched, s'.contents k = s.contents k

theorem OnlyChildren.intact (h : OnlyChildren s) : Intact s := by
  have hline (c : MemoryContext) : ∃ xs, Chain s.firstchild (s.firstchild c) xs none ∧
      (c :: xs).Nodup ∧ ∀ k, k ∈ c :: xs ↔ s.Below c k := by
    obtain ⟨xs, hxs⟩ := h.exists_line c
    have hall : Chain s.firstchild (some c) (c :: xs) none := ⟨rfl, hxs⟩
    exact ⟨xs, hxs, hall.nodup, fun k => h.mem_line_iff hxs⟩
  -- The order of the visits: what is below the context, then the context itself.
  have hreverse {c : MemoryContext} {xs : List MemoryContext} (hnodup : (c :: xs).Nodup) :
      (xs.reverse ++ [c]).Nodup ∧ ∀ k, k ∈ xs.reverse ++ [c] ↔ k ∈ c :: xs := by
    rw [← List.reverse_cons]
    exact ⟨List.nodup_reverse.mpr hnodup, fun k => List.mem_reverse⟩
  refine ⟨fun c d hd => ?_, fun c d hd => ?_, fun c d hd => ?_, fun c d hd => ?_⟩
  · have hfirst : s.firstchild c = d.firstchild := by rw [firstchild, hd, Option.bind_some]
    cases hk : d.firstchild with
    | none =>
      refine ⟨[], rfl, List.nodup_nil, fun k => ?_⟩
      rw [← h.parent_iff, hfirst, hk]
      simp
    | some x =>
      refine ⟨[x], ⟨rfl, h.nextchild_eq c x (hfirst.trans hk)⟩, List.nodup_singleton x,
        fun k => ?_⟩
      rw [← h.parent_iff, hfirst, hk, List.mem_singleton, Option.some.injEq, eq_comm]
  · obtain ⟨xs, hxs, hnodup, hbelow⟩ := hline c
    obtain ⟨hnodup', hmem⟩ := hreverse hnodup
    obtain ⟨s', hrun, hnode⟩ := h.reset hd hxs (Nat.le_refl _)
    refine ⟨_, _, s', hrun, hnodup', fun k => (hmem k).trans (hbelow k), fun k => ?_⟩
    rw [hnode]
    simp only [hmem]
  · obtain ⟨xs, hxs, hnodup, hbelow⟩ := hline c
    exact ⟨_, c :: xs, hnodup, hbelow, h.memAllocated hd hxs (Nat.le_refl _)⟩
  · obtain ⟨xs, hxs, hnodup, hbelow⟩ := hline c
    obtain ⟨hnodup', hmem⟩ := hreverse hnodup
    obtain ⟨s', hrun, -, hgone, hothers⟩ := h.delete hd hxs (Nat.lt_succ_self _)
    exact ⟨_, _, s', hrun, hnodup', fun k => (hmem k).trans (hbelow k),
      fun k hk => hgone k ((hmem k).mp hk), fun k hk => hothers k fun hk' => hk ((hmem k).mpr hk')⟩

/-! ### Runs -/

inductive ContextEvent where
  | create (new : MemoryContext) (parent : Option MemoryContext)
  | setParent (ctx : MemoryContext) (parent : Option MemoryContext)
  | delete (ctx : MemoryContext)
  | charge (ctx : MemoryContext) (memAllocated : UInt64)

/-- `charge` stands for any allocation and release in the context. -/
inductive Step (s : Contexts) : ContextEvent → Contexts → Prop
  | create {new : MemoryContext} {parent : Option MemoryContext} {s' : Contexts} :
    s.create new parent = some s' → Step s (.create new parent) s'
  | setParent {ctx : MemoryContext} {parent : Option MemoryContext} {s' : Contexts} :
    s.setParent ctx parent = some s' → Step s (.setParent ctx parent) s'
  | delete {ctx : MemoryContext} {fuel : Nat} {touched : List MemoryContext} {s' : Contexts} :
    Contexts.delete fuel s ctx = some (touched, s') → Step s (.delete ctx) s'
  | charge {ctx : MemoryContext} {memAllocated : UInt64} {s' : Contexts} :
    (s.modify ctx fun d => { d with memAllocated := memAllocated, isReset := false }) = some s' →
      Step s (.charge ctx memAllocated) s'

/-- A new child finds no other child, and is no ancestor of its new parent. -/
def Fits (s : Contexts) : ContextEvent → Prop
  | .create _ (some p) => s.firstchild p = none
  | .setParent ctx (some p) =>
    ¬ s.Below ctx p ∧ (s.firstchild p = none ∨ s.firstchild p = some ctx)
  | _ => True

inductive Run (ok : Contexts → ContextEvent → Prop) : Contexts → Prop
  | start : Run ok ⟨fun _ => none⟩
  | step {s s' : Contexts} {e : ContextEvent} : Run ok s → ok s e → Step s e s' → Run ok s'

theorem deleteChildren_mono {fuel fuel' : Nat} (hle : fuel ≤ fuel')
    {r : List MemoryContext × Contexts} (h : s.deleteChildren fuel c = some r) :
    s.deleteChildren fuel' c = some r := by
  induction fuel generalizing fuel' s c r with
  | zero => cases h
  | succ fuel ih =>
    obtain ⟨fuel', rfl⟩ : ∃ n, fuel' = n + 1 := ⟨fuel' - 1, by omega⟩
    rw [deleteChildren] at h ⊢
    obtain ⟨d, hd, h⟩ := Option.bind_eq_some_iff.mp h
    simp only [hd, Option.bind_eq_bind, Option.bind_some]
    cases hfirst : d.firstchild with
    | none => simpa only [hfirst] using h
    | some x =>
      simp only [hfirst] at h ⊢
      obtain ⟨s₁, hrun₁, h⟩ := Option.bind_eq_some_iff.mp h
      obtain ⟨s₂, hrun₂, h⟩ := Option.bind_eq_some_iff.mp h
      obtain ⟨⟨touched, s₃⟩, hrun₃, h⟩ := Option.bind_eq_some_iff.mp h
      obtain ⟨⟨touched', s₄⟩, hrun₄, h⟩ := Option.bind_eq_some_iff.mp h
      have hle : fuel ≤ fuel' := by omega
      simp only [hrun₁, hrun₂, Option.bind_some, ih hle hrun₃, ih hle hrun₄]
      exact h

namespace OnlyChildren

theorem eq_of_below (h : OnlyChildren s) (hfirst : s.firstchild c = none) (hk : s.Below c k) :
    k = c := by
  induction hk with
  | self => rfl
  | child _ hp ih =>
    rw [ih, ← h.parent_iff, hfirst] at hp
    cases hp

/-- Linking a root, as a creation and a change of parents end. -/
theorem link (h : OnlyChildren s) (he : s.node ctx = some e) (hparent : s.parent ctx = none)
    (hfirst : s.firstchild p = none) (hbelow : ¬ s.Below ctx p)
    (hrun : s.linkChild p ctx = some s') : OnlyChildren s' := by
  have hne : p ≠ ctx := fun hp => hbelow (hp ▸ .self)
  cases hd : s.node p with
  | none =>
    have hd₁ : (s.set ctx { e with parent := some p }).node p = none := by
      rw [node_set, if_neg hne, hd]
    simp [Contexts.linkChild, modify_eq he, hd₁] at hrun
  | some d =>
    obtain ⟨s'', hrun', hl⟩ := linkChild_eq he hd hfirst hne
    obtain rfl := Option.some.inj (hrun.symm.trans hrun')
    exact h.of_linked hparent hfirst hbelow hl

theorem setParent (h : OnlyChildren s) {parent : Option MemoryContext}
    (hfits : Fits s (.setParent ctx parent)) (hrun : s.setParent ctx parent = some s') :
    OnlyChildren s' := by
  obtain ⟨s₁, hrun₁, hrun₂⟩ := Option.bind_eq_some_iff.mp hrun
  obtain ⟨e, he, -⟩ := Option.bind_eq_some_iff.mp hrun₁
  obtain ⟨s₂, hrun₃, hu⟩ := h.unlinkChild he
  obtain rfl := Option.some.inj (hrun₁.symm.trans hrun₃)
  have h₁ := h.of_unlinked hu
  cases parent with
  | none => exact Option.some.inj hrun₂ ▸ h₁
  | some p =>
    obtain ⟨prev, next, he₁⟩ := hu.self e he
    obtain ⟨hbelow, hfirst⟩ := hfits
    refine h₁.link he₁ (by rw [hu.parent, if_pos rfl]) ?_ (fun hk => hbelow ?_) hrun₂
    · rw [hu.firstchild]
      split
      · rfl
      case isFalse hne =>
        refine hfirst.resolve_right fun hc => hne ?_
        exact (h.parent_iff p ctx).mp hc
    · clear hfirst hbelow hrun₂ hrun
      induction hk with
      | self => exact .self
      | child _ hp ih =>
        rw [hu.parent] at hp
        split at hp
        · cases hp
        · exact .child ih hp

theorem create (h : OnlyChildren s) {new : MemoryContext} {parent : Option MemoryContext}
    (hfits : Fits s (.create new parent)) (hrun : s.create new parent = some s') :
    OnlyChildren s' := by
  rw [Contexts.create] at hrun
  split at hrun
  · cases hrun
  case h_2 hnew =>
    set s₁ := s.set new ⟨true, 0, none, none, none, none, []⟩ with hs₁
    have hsame : SameLinks s s₁ := by
      refine ⟨fun k => ?_, fun k => ?_, fun k => ?_, fun k => ?_⟩
      · rw [hs₁, parent_set, Contexts.parent]
        split
        · subst k
          rw [hnew]
          rfl
        · rfl
      · rw [hs₁, firstchild_set, Contexts.firstchild]
        split
        · subst k
          rw [hnew]
          rfl
        · rfl
      · rw [hs₁, prevchild_set, Contexts.prevchild]
        split
        · subst k
          rw [hnew]
          rfl
        · rfl
      · rw [hs₁, nextchild_set, Contexts.nextchild]
        split
        · subst k
          rw [hnew]
          rfl
        · rfl
    have h₁ := h.congr hsame
    cases parent with
    | none => exact Option.some.inj hrun ▸ h₁
    | some p =>
      obtain ⟨d, hd, hrun⟩ := Option.bind_eq_some_iff.mp hrun
      have hfree : s₁.firstchild p = none := (hsame.firstchild p).trans hfits
      have hfits' : Fits s₁ (.setParent new (some p)) := by
        refine ⟨fun hk => ?_, .inl hfree⟩
        have hfirst : s₁.firstchild new = none := by rw [hs₁, firstchild_set, if_pos rfl]
        rw [h₁.eq_of_below hfirst hk, hnew] at hd
        cases hd
      exact h₁.setParent hfits' hrun

theorem step (h : OnlyChildren s) {e : ContextEvent} (hfits : Fits s e) (hstep : Step s e s') :
    OnlyChildren s' := by
  cases hstep with
  | create hrun => exact h.create hfits hrun
  | setParent hrun => exact h.setParent hfits hrun
  | @delete ctx fuel touched _ hrun =>
    obtain ⟨s₁, hcb, hrest⟩ := Option.bind_eq_some_iff.mp hrun
    obtain ⟨d, hd, -⟩ := Option.map_eq_some_iff.mp hcb
    obtain ⟨xs, hxs⟩ := h.exists_line ctx
    have hfuel : xs.length < max fuel (xs.length + 1) := by omega
    obtain ⟨s₂, hrun₂, h₂, -⟩ := h.delete hd hxs hfuel
    -- With more fuel the deletion ends as it did.
    have hmono : Contexts.delete (max fuel (xs.length + 1)) s ctx = some (touched, s') := by
      obtain ⟨⟨t, s₃⟩, hchildren, hend⟩ := Option.bind_eq_some_iff.mp hrest
      rw [Contexts.delete]
      simp only [hcb, deleteChildren_mono (Nat.le_max_left _ _) hchildren, Option.bind_eq_bind,
        Option.bind_some]
      exact hend
    rw [hrun₂] at hmono
    obtain ⟨-, rfl⟩ := Prod.mk.inj (Option.some.inj hmono)
    exact h₂
  | @charge ctx memAllocated _ hrun =>
    obtain ⟨d, hd, rfl⟩ := Option.map_eq_some_iff.mp hrun
    exact h.congr (sameLinks_set hd rfl rfl rfl rfl)

end OnlyChildren

/-- While every new child finds no other child, the tree is intact in every state. -/
theorem intact_of_fits (h : Run Fits s) : Intact s := by
  suffices hs : OnlyChildren s from hs.intact
  induction h with
  | start => exact onlyChildren_empty
  | step _ hfits hstep ih => exact ih.step hfits hstep

theorem intact_deleted : ∃ s, Run Fits s ∧ s.node 1 ≠ none ∧ s.node 2 = none ∧ Intact s := by
  have h₁ : Run Fits _ := .step (e := .create 1 none) .start trivial (.create rfl)
  have h₂ : Run Fits _ := .step (e := .create 2 (some 1)) h₁ rfl (.create rfl)
  have h₃ : Run Fits _ := .step (e := .charge 2 64) h₂ trivial (.charge rfl)
  have h₄ : Run Fits _ := .step (e := .delete 2) h₃ trivial (@Step.delete _ 2 1 _ _ rfl)
  exact ⟨_, h₄, by decide, by decide, intact_of_fits h₄⟩

/-! ### A second child -/

theorem not_intact_of_circle {a b : MemoryContext} (hd : s.node p = some d)
    (hfirst : d.firstchild = some a) (hab : s.nextchild a = some b)
    (hba : s.nextchild b = some a) : ¬ Intact s := by
  intro h
  obtain ⟨ks, hks, -⟩ := h.siblings p d hd
  rw [hfirst] at hks
  have hround : Chain s.nextchild (some a) (a :: b :: ks) none := by
    refine ⟨rfl, hab, ?_⟩
    rw [hba]
    exact hks
  have hlength := congrArg List.length (hks.unique hround)
  rw [List.length_cons, List.length_cons] at hlength
  omega

/-- The tail of a list of one is its head, whose link forward then leads back to the new child. -/
theorem OnlyChildren.not_intact_secondChild (h : OnlyChildren s) {first : MemoryContext}
    (he : s.node ctx = some e) (hd : s.node p = some d) (hparent : s.parent ctx = none)
    (hfirst : d.firstchild = some first) (hne : p ≠ ctx) :
    ∃ s', s.linkChild p ctx = some s' ∧ ¬ Intact s' := by
  have hpf : s.firstchild p = some first := by rw [firstchild, hd, Option.bind_some, hfirst]
  have hup := (h.parent_iff p first).mp hpf
  have hfp : first ≠ p := h.firstchild_ne hpf
  have hfc : first ≠ ctx := by
    rintro rfl
    rw [hup] at hparent
    cases hparent
  obtain ⟨f, hf, -⟩ := Option.bind_eq_some_iff.mp hup
  have hprev : f.prevchild = some first := by
    have hf' := h.prevchild_eq p first hpf
    rwa [prevchild, hf] at hf'
  set s₁ := s.set ctx { e with parent := some p } with hs₁
  set s₂ := s₁.set ctx { e with
    parent := some p, prevchild := some first, nextchild := some first } with hs₂
  set s₃ := s₂.set first { f with nextchild := some ctx } with hs₃
  set s₄ := s₃.set first { f with prevchild := some ctx, nextchild := some ctx } with hs₄
  have hd₁ : s₁.node p = some d := by rw [hs₁, node_set, if_neg hne, hd]
  have he₁ : s₁.node ctx = some { e with parent := some p } := by rw [hs₁, node_set, if_pos rfl]
  have hf₁ : s₁.node first = some f := by rw [hs₁, node_set, if_neg hfc, hf]
  have hf₂ : s₂.node first = some f := by rw [hs₂, node_set, if_neg hfc, hf₁]
  have hf₃ : s₃.node first = some { f with nextchild := some ctx } := by
    rw [hs₃, node_set, if_pos rfl]
  have hd₄ : s₄.node p = some d := by
    rw [hs₄, node_set, if_neg hfp.symm, hs₃, node_set, if_neg hfp.symm, hs₂, node_set, if_neg hne,
      hd₁]
  have hstep₁ : (s.modify ctx fun d => { d with parent := some p }) = some s₁ := modify_eq he _
  have hstep₂ : (s₁.modify ctx fun d => { d with
      prevchild := some first, nextchild := some first }) = some s₂ :=
    modify_eq he₁ _
  have hstep₃ : (s₂.modify first fun d => { d with nextchild := some ctx }) = some s₃ :=
    modify_eq hf₂ _
  have hstep₄ : (s₃.modify first fun d => { d with prevchild := some ctx }) = some s₄ :=
    modify_eq hf₃ _
  have hstep₅ : (s₄.modify p fun d => { d with firstchild := some ctx }) =
      some (s₄.set p { d with firstchild := some ctx }) := modify_eq hd₄ _
  refine ⟨s₄.set p { d with firstchild := some ctx }, ?_, ?_⟩
  · simp only [Contexts.linkChild, hstep₁, Option.bind_eq_bind, Option.bind_some, hd₁, hfirst, hf₁,
      hprev, hstep₂, hf₂, hstep₃, hstep₄, hstep₅]
  · refine not_intact_of_circle (p := p) (a := ctx) (b := first)
      (by rw [node_set, if_pos rfl]) rfl ?_ ?_
    · rw [nextchild_set, if_neg hne.symm, hs₄, nextchild_set, if_neg hfc.symm, hs₃, nextchild_set,
        if_neg hfc.symm, hs₂, nextchild_set, if_pos rfl]
    · rw [nextchild_set, if_neg hfp, hs₄, nextchild_set, if_pos rfl]

/-- A root with two children. -/
theorem not_intact_twoChildren : ∃ s, Run (fun _ _ => True) s ∧ ¬ Intact s := by
  have h₁ : Run (fun _ _ => True) _ := .step (e := .create 1 none) .start trivial (.create rfl)
  have h₂ : Run (fun _ _ => True) _ := .step (e := .create 2 (some 1)) h₁ trivial (.create rfl)
  have h₃ : Run (fun _ _ => True) _ := .step (e := .create 3 (some 1)) h₂ trivial (.create rfl)
  exact ⟨_, h₃, not_intact_of_circle (p := 1) (a := 3) (b := 2) rfl rfl rfl rfl⟩

end JiaMiaoDB.Contexts
