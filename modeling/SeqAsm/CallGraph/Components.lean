import SeqAsm.CallGraph.Closure

/-!
Components of call graphs by Tarjan's algorithm, without recursion. Nodes are numbered as they are
discovered, and stay on a stack until their component is complete. A node under way keeps the
least number known of the nodes on the stack that it leads to; when its last call is followed and
that number is its own, it and the nodes above it on the stack are a component.
-/

namespace SeqAsm.CallGraph

structure Frame where
  node : Int
  /-- The callees that are still to be followed, one for each call site. -/
  pending : List Int
  /-- The least number known of a node on the stack that the node leads to. -/
  low : Nat

structure Tarjan where
  /-- The nodes discovered, with their numbers. -/
  index : List (Int × Nat) := []
  /-- The nodes discovered whose components are not complete, the latest first. -/
  stack : List Int := []
  /-- The nodes under way, the latest first. -/
  work : List Frame := []
  /-- The components, the latest first. -/
  found : List (List Int) := []

namespace Tarjan

/-- Numbers a node and begins to follow its calls. -/
def visit (g : CallGraph) (v : Int) (s : Tarjan) : Tarjan :=
  { s with
    index := (v, s.index.length) :: s.index
    stack := v :: s.stack
    work := ⟨v, g.callees v, s.index.length⟩ :: s.work }

/-- Tells the latest node under way of a number that it leads to. -/
def lower (n : Nat) : List Frame → List Frame
  | [] => []
  | f :: work => { f with low := min f.low n } :: work

def popTo (v : Int) : List Int → List Int × List Int
  | [] => ([], [])
  | w :: stack =>
    if w = v then ([w], stack)
    else
      let (popped, left) := popTo v stack
      (w :: popped, left)

/-- Takes the component of a node from the stack. -/
def complete (v : Int) (s : Tarjan) : Tarjan :=
  let (component, stack) := popTo v s.stack
  { s with stack := stack, found := component :: s.found }

/-- Follows a call of the latest node under way, or ends with the node when all are followed. -/
def step (g : CallGraph) (s : Tarjan) : Tarjan :=
  match s.work with
  | [] => s
  | ⟨v, w :: pending, low⟩ :: work =>
    match s.index.lookup w with
    | none => { s with work := ⟨v, pending, low⟩ :: work }.visit g w
    | some n =>
      let low := if s.stack.contains w then min low n else low
      { s with work := ⟨v, pending, low⟩ :: work }
  | ⟨v, [], low⟩ :: work =>
    let s := { s with work := lower low work }
    if s.index.lookup v = some low then s.complete v else s

def run (g : CallGraph) : (fuel : Nat) → Tarjan → Tarjan
  | 0, s => s
  | fuel + 1, s => if s.work.isEmpty then s else run g fuel (s.step g)

/-- Starts from a node unless it is discovered. A node is visited once, and each call followed
once. -/
def start (g : CallGraph) (s : Tarjan) (v : Int) : Tarjan :=
  if (s.index.lookup v).isSome then s
  else (s.visit g v).run g (g.size g.callees)

end Tarjan

/-- The components, callees first; within a component the latest discovered first. -/
def components (g : CallGraph) : List (List Int) := (g.ids.foldl (Tarjan.start g) {}).found.reverse

/-- The nodes with callees before callers, where calls lead one way only. -/
def bottomUpOrder (g : CallGraph) : List Int := g.components.flatten

def isCycle (g : CallGraph) : List Int → Bool
  | [v] => g.callsItself v
  | _ => true

def recursiveGroups (g : CallGraph) : List (List Int) := g.components.filter g.isCycle

end SeqAsm.CallGraph
