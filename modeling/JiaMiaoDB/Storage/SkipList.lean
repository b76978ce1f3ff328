import JiaMiaoDB.Lib.Chain
import Std.Data.ExtTreeMap

/-!
# The skip list

Nodes in a store that only grows, each with one link for every level up to its own. A level is the
list that its links lead through from the header. A writer looks for the predecessors on all levels
and relinks there; removed nodes stay in the store.
-/

set_option autoImplicit false

namespace JiaMiaoDB

/-- An index into the store. The null pointer is `none`. -/
abbrev Ptr := Nat

structure SkipList.Node (K V : Type) where
  key : K
  value : V
  topLevel : Nat
  next : List (Option Ptr)
deriving Inhabited

structure SkipList (K V : Type) where
  nodes : List (SkipList.Node K V)
  level : Nat
  size : Nat

namespace SkipList

abbrev kMaxLevel : Nat := 20

def header : Ptr := 0

variable {K V : Type} [Inhabited K] [Inhabited V]

def create : SkipList K V where
  nodes := [⟨default, default, kMaxLevel, List.replicate (kMaxLevel + 1) none⟩]
  level := 0
  size := 0

section Access
variable (s : SkipList K V)

def node (p : Ptr) : Node K V := s.nodes.getD p default

def key (p : Ptr) : K := (s.node p).key

def value (p : Ptr) : V := (s.node p).value

/-- `p->next[i]` -/
def nextAt (i : Nat) (p : Ptr) : Option Ptr := ((s.node p).next[i]?).join

def modifyNode (p : Ptr) (f : Node K V → Node K V) : SkipList K V :=
  { s with nodes := s.nodes.modify p f }

def setNext (p : Ptr) (i : Nat) (q : Option Ptr) : SkipList K V :=
  s.modifyNode p fun n => { n with next := n.next.set i q }

/-- The new node goes behind `pred` on level `i`. -/
def splice (pred new : Ptr) (i : Nat) : SkipList K V :=
  let expected := s.nextAt i pred
  (s.setNext new i expected).setNext pred i (some new)

def insertNode (update : List Ptr) (key : K) (value : V) (newLevel : Nat) : SkipList K V :=
  let update := update ++ List.replicate (newLevel - s.level) header
  let new := s.nodes.length
  let s₁ : SkipList K V := { s with
    nodes := s.nodes ++ [⟨key, value, newLevel, List.replicate (newLevel + 1) none⟩]
    level := max s.level newLevel }
  let s₂ := (List.range (newLevel + 1)).foldl (fun s i => s.splice (update.getD i header) new i) s₁
  { s₂ with size := s₂.size + 1 }

/-! ### The loops -/

/-- `while (p != nullptr && c(p->key)) p = p->next[i]` -/
def pass (i : Nat) (c : K → Bool) (p : Option Ptr) : List Ptr × Option Ptr :=
  walk (s.nextAt i) (fun p => c (s.key p)) s.nodes.length p

def all : List V := (s.pass 0 (fun _ => true) (s.nextAt 0 header)).1.map s.value

variable [Ord K]

def below (key : K) (k : K) : Bool := (compare k key).isLT

/-- `!(hi < k)` -/
def notAbove (hi : K) (k : K) : Bool := !(compare hi k).isLT

/-- The last node on level `i` from `cur` on with a key below `key`. -/
def advance (key : K) (i : Nat) (cur : Ptr) : Ptr :=
  (s.pass i (below key) (s.nextAt i cur)).1.getLast?.getD cur

/-- `update[0 .. levels - 1]`, found from the highest of these levels down. -/
def descend (key : K) : Nat → Ptr → List Ptr
  | 0, _ => []
  | i + 1, cur =>
    let cur := s.advance key i cur
    descend key i cur ++ [cur]

/-- The predecessors of `key` on the levels in use. -/
def predecessors (key : K) : List Ptr := s.descend key (s.level + 1) header

/-! ### Writing -/

/-- `height` is what `random_level` returns. -/
def put (key : K) (value : V) (height : Fin kMaxLevel) : SkipList K V :=
  let update := s.predecessors key
  match s.nextAt 0 (update.getD 0 header) with
  | some found =>
    if compare (s.key found) key = .eq then s.modifyNode found fun n => { n with value := value }
    else s.insertNode update key value height
  | none => s.insertNode update key value height

/-- `pred` is linked past the keys of the interval. -/
def bypass (hi : K) (pred : Ptr) (i : Nat) : SkipList K V :=
  s.setNext pred i (s.pass i (notAbove hi) (s.nextAt i pred)).2

/-- The number of nodes that are taken out, and the list without them. -/
def eraseRange (lo hi : K) : Nat × SkipList K V :=
  let update := s.predecessors lo
  let erased := (s.pass 0 (notAbove hi) (s.nextAt 0 (update.getD 0 header))).1.length
  let s₁ := (List.range (s.level + 1)).foldl (fun s i => s.bypass hi (update.getD i header) i) s
  (erased, { s₁ with size := s₁.size - erased })

/-! ### Reading -/

def getExact (key : K) : Option V :=
  match (s.pass 0 (below key) (s.nextAt 0 header)).2 with
  | some cur => if compare (s.key cur) key = .eq then some (s.value cur) else none
  | none => none

def range (lo hi : K) : List V :=
  let start := (s.pass 0 (below lo) (s.nextAt 0 header)).2
  (s.pass 0 (notAbove hi) start).1.map s.value

end Access

end SkipList
end JiaMiaoDB
