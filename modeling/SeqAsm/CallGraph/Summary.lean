import SeqAsm.CallGraph.Closure
import SeqAsm.CallGraph.Components

/-!
Figures about call graphs: counts, the programs called by most others, and a summary that says
what blocks the programs of a graph and in which order they can be evaluated.
-/

namespace SeqAsm.CallGraph

structure Statistics where
  programs : Nat
  missing : Nat
  nodes : Nat
  edges : Nat
  seqCalls : Nat
  components : Nat
  /-- Components of two or more programs. -/
  cycles : Nat
  selfCalls : Nat
  roots : Nat
  leaves : Nat
  deriving DecidableEq, Repr

def statistics (g : CallGraph) : Statistics :=
  let components := g.components
  { programs := g.nodes.countP (·.kind == .program)
    missing := g.nodes.countP (·.kind == .missing)
    nodes := g.nodes.length
    edges := g.edges.length
    seqCalls := g.edges.countP (·.word == "seq")
    components := components.length
    cycles := components.countP (1 < ·.length)
    selfCalls := g.nodes.countP fun n => g.callsItself n.id
    roots := g.roots.length
    leaves := g.leaves.length }

def Statistics.calCalls (s : Statistics) : Nat := s.edges - s.seqCalls

def callerCount (g : CallGraph) (id : Int) : Nat := (Ids.ofList (g.callers id)).length

/-- The first of two ranks: more callers first, then the smaller id. -/
def ranksBefore (a b : Int × Nat) : Bool := b.2 < a.2 || (a.2 == b.2 && a.1 ≤ b.1)

def ranking (g : CallGraph) : List (Int × Nat) :=
  ((g.ids.filter fun id => !g.isRoot id).map fun id => (id, g.callerCount id)).mergeSort ranksBefore

/-- The first `limit` programs by rank. A negative limit leaves out as many of the last. -/
def mostCalled (g : CallGraph) (limit : Int) : List (Int × Nat) :=
  let ranked := g.ranking
  if 0 ≤ limit then ranked.take limit.toNat else ranked.take (ranked.length - (-limit).toNat)

/-- The names of programs in alphabetical order, or a dash for none. -/
def nameList (ids : List Int) : String :=
  if ids.isEmpty then "-"
  else ", ".intercalate (((Ids.ofList ids).map programName).mergeSort (fun a b => a ≤ b))

def smallest (ids : List Int) : Int := (Ids.ofList ids).headD 0

/-- A heading with entries, after an empty line; nothing without entries. -/
def section? (heading : String) (entries : List String) : List String :=
  if entries.isEmpty then [] else "" :: heading :: entries

def summary (g : CallGraph) (top : Int) : String :=
  let s := g.statistics
  let missing := (g.missing.map (·.id)).mergeSort (fun a b => a ≤ b)
  let groups := g.recursiveGroups.mergeSort fun a b => smallest a ≤ smallest b
  let order := g.bottomUpOrder.filter fun id => (g.node? id).any (·.kind == .program)
  "\n".intercalate
    (["Call Graph Summary",
        "  Programs:             " ++ toString s.programs,
        "  Calls:                " ++ toString s.edges ++ " (" ++ toString s.seqCalls ++ " seq, "
          ++ toString s.calCalls ++ " cal)",
        "  Root programs:        " ++ toString s.roots,
        "  Leaf programs:        " ++ toString s.leaves]
      ++ section? "Missing programs:" (missing.map fun id =>
          "  " ++ programName id ++ ": needed by " ++ nameList (g.callers id) ++ "; blocks "
            ++ nameList (g.transitiveCallers id))
      ++ section? "Recursive groups:" (groups.map fun c => "  " ++ nameList c)
      ++ section? "Most called:" ((g.mostCalled top).map fun r =>
          "  " ++ programName r.1 ++ ": " ++ toString r.2
            ++ (if r.2 = 1 then " caller" else " callers"))
      ++ ["", "Evaluation order (callees first):"]
      ++ order.map fun id => "  " ++ programName id ++ ": calls " ++ nameList (g.callees id))

end SeqAsm.CallGraph
