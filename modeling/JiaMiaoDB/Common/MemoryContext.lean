import JiaMiaoDB.Lib.Chain
import Mathlib.Data.UInt
import Mathlib.Logic.Function.Basic

/-!
# Memory contexts

Contexts live at addresses, and the tree is kept in the links of the contexts. A result is `none`
where the source would dereference a null pointer or a freed context, or where a traversal has no
steps left.
-/

set_option autoImplicit false

namespace JiaMiaoDB

/-- The address of a context. The null pointer is `none`. -/
abbrev MemoryContext := Nat

structure MemoryContextData where
  isReset : Bool
  memAllocated : UInt64
  parent : Option MemoryContext
  firstchild : Option MemoryContext
  prevchild : Option MemoryContext
  nextchild : Option MemoryContext
  /-- The callbacks in the order of their calls. -/
  resetCbs : List Nat
deriving DecidableEq

structure Contexts where
  node : MemoryContext → Option MemoryContextData

namespace Contexts

section Links
variable (s : Contexts)

def modify (p : MemoryContext) (f : MemoryContextData → MemoryContextData) : Option Contexts :=
  (s.node p).map fun d => ⟨Function.update s.node p (some (f d))⟩

/-- What `delete_context` leaves: the context is freed with its blocks. -/
def free (p : MemoryContext) : Contexts := ⟨Function.update s.node p none⟩

/-- The functions that are called do not change the tree. -/
def callResetCallbacks (ctx : MemoryContext) : Option Contexts :=
  s.modify ctx fun d => { d with resetCbs := [] }

/-- `ctx->methods->reset(ctx)` -/
def methodsReset (ctx : MemoryContext) : Option Contexts :=
  s.modify ctx fun d => { d with memAllocated := 0, isReset := true }

def linkChild (parent child : MemoryContext) : Option Contexts := do
  let s ← s.modify child fun d => { d with parent := some parent }
  match (← s.node parent).firstchild with
  | none =>
    let s ← s.modify child fun d => { d with prevchild := some child, nextchild := none }
    s.modify parent fun d => { d with firstchild := some child }
  | some first =>
    let tail := (← s.node first).prevchild
    let s ← s.modify child fun d => { d with prevchild := tail, nextchild := some first }
    let s ← s.modify (← (← s.node first).prevchild) fun d => { d with nextchild := some child }
    let s ← s.modify first fun d => { d with prevchild := some child }
    s.modify parent fun d => { d with firstchild := some child }

def clearLinks (ctx : MemoryContext) : Option Contexts :=
  s.modify ctx fun d => { d with prevchild := none, nextchild := none, parent := none }

def unlinkChild (ctx : MemoryContext) : Option Contexts := do
  let d ← s.node ctx
  match d.parent with
  | none => some s
  | some parent =>
    match (← s.node parent).firstchild with
    | none => some s
    | some first =>
      if d.prevchild = some ctx ∧ first = ctx then
        let s ← s.modify parent fun p => { p with firstchild := none }
        s.clearLinks ctx
      else if first = ctx then
        let s ← match d.nextchild with
          | none => some s
          | some newHead => s.modify newHead fun n => { n with prevchild := d.prevchild }
        let s ← s.modify parent fun p => { p with firstchild := d.nextchild }
        s.clearLinks ctx
      else
        let s ← s.modify (← d.prevchild) fun n => { n with nextchild := d.nextchild }
        let s ← s.modify (d.nextchild.getD first) fun n => { n with prevchild := d.prevchild }
        s.clearLinks ctx

def setParent (ctx : MemoryContext) (parent : Option MemoryContext) : Option Contexts := do
  let s ← s.unlinkChild ctx
  match parent with
  | none => some s
  | some parent => s.linkChild parent ctx

/-- The new context at an address that `malloc` returns, below a context that is there. -/
def create (new : MemoryContext) (parent : Option MemoryContext) : Option Contexts :=
  match s.node new with
  | some _ => none
  | none =>
    let created : Contexts :=
      ⟨Function.update s.node new (some ⟨true, 0, none, none, none, none, []⟩)⟩
    match parent with
    | none => some created
    | some parent => (s.node parent).bind fun _ => created.setParent new (some parent)

end Links

/-! ### Traversals

The first argument bounds the calls and rounds. Each returns the contexts it touches, in order. -/

mutual

def reset : Nat → Contexts → MemoryContext → Option (List MemoryContext × Contexts)
  | 0, _, _ => none
  | fuel + 1, s, ctx => do
    let (touched, s) ← resetChildren fuel s (← s.node ctx).firstchild
    let s ← s.callResetCallbacks ctx
    let s ← s.methodsReset ctx
    some (touched ++ [ctx], s)

/-- The loop over the children, from `child` on. -/
def resetChildren : Nat → Contexts → Option MemoryContext →
    Option (List MemoryContext × Contexts)
  | 0, _, _ => none
  | _ + 1, s, none => some ([], s)
  | fuel + 1, s, some child => do
    let next := (← s.node child).nextchild
    let (touched, s) ← reset fuel s child
    let (touched', s) ← resetChildren fuel s next
    some (touched ++ touched', s)

end

mutual

/-- With `recurse`. -/
def memAllocated : Nat → Contexts → MemoryContext → Option UInt64
  | 0, _, _ => none
  | fuel + 1, s, ctx => do
    let d ← s.node ctx
    memAllocatedChildren fuel s d.memAllocated d.firstchild

def memAllocatedChildren : Nat → Contexts → UInt64 → Option MemoryContext → Option UInt64
  | 0, _, _, _ => none
  | _ + 1, _, total, none => some total
  | fuel + 1, s, total, some c => do
    let total := total + (← memAllocated fuel s c)
    memAllocatedChildren fuel s total (← s.node c).nextchild

end

def deleteChildren : Nat → Contexts → MemoryContext → Option (List MemoryContext × Contexts)
  | 0, _, _ => none
  | fuel + 1, s, ctx => do
    match (← s.node ctx).firstchild with
    | none => some ([], s)
    | some child =>
      let s ← s.unlinkChild child
      let s ← s.callResetCallbacks child
      let (touched, s) ← deleteChildren fuel s child
      let (touched', s) ← deleteChildren fuel (s.free child) ctx
      some (touched ++ child :: touched', s)

def delete (fuel : Nat) (s : Contexts) (ctx : MemoryContext) :
    Option (List MemoryContext × Contexts) := do
  let s ← s.callResetCallbacks ctx
  let (touched, s) ← deleteChildren fuel s ctx
  let s ← s.unlinkChild ctx
  some (touched ++ [ctx], s.free ctx)

end Contexts
end JiaMiaoDB
