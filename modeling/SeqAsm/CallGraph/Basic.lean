import SeqAsm.Loader

/-!
Call graphs. A node is a program, or an id that is called but has no program; an edge is a call
site. Nodes are kept in the order in which they were discovered, edges in the order in which
they were added.
-/

namespace SeqAsm

namespace CallGraph

inductive NodeKind where
  | program
  /-- Called, but not found. -/
  | missing
  deriving DecidableEq, Repr

def NodeKind.word : NodeKind → String
  | .program => "program"
  | .missing => "missing"

def NodeKind.ofWord? (w : String) : Option NodeKind :=
  [NodeKind.program, .missing].find? fun k => k.word == w

structure Node where
  id : Int
  kind : NodeKind
  program : Option Program := none

structure Edge where
  caller : Int
  callee : Int
  word : String := "seq"
  line : Int := 0
  deriving DecidableEq, Repr

def Node.name (n : Node) : String := programName n.id

end CallGraph

structure CallGraph where
  nodes : List CallGraph.Node := []
  edges : List CallGraph.Edge := []

namespace CallGraph

def ids (g : CallGraph) : List Int := g.nodes.map (·.id)

def node? (g : CallGraph) (id : Int) : Option Node := g.nodes.find? (·.id == id)

def contains (g : CallGraph) (id : Int) : Bool := g.nodes.any (·.id == id)

def outEdges (g : CallGraph) (id : Int) : List Edge := g.edges.filter (·.caller == id)

def inEdges (g : CallGraph) (id : Int) : List Edge := g.edges.filter (·.callee == id)

def callees (g : CallGraph) (id : Int) : List Int := (g.outEdges id).map (·.callee)

def callers (g : CallGraph) (id : Int) : List Int := (g.inEdges id).map (·.caller)

def isLeaf (g : CallGraph) (id : Int) : Bool := (g.outEdges id).isEmpty

def isRoot (g : CallGraph) (id : Int) : Bool := (g.inEdges id).isEmpty

def callsItself (g : CallGraph) (id : Int) : Bool := (g.callees id).contains id

def roots (g : CallGraph) : List Node := g.nodes.filter fun n => g.isRoot n.id

def leaves (g : CallGraph) : List Node :=
  g.nodes.filter fun n => g.isLeaf n.id && n.kind != .missing

def missing (g : CallGraph) : List Node := g.nodes.filter (·.kind == .missing)

/-- Makes sure that an id has a node. A node that had no program takes the one given. -/
def addNode (g : CallGraph) (id : Int) (kind : NodeKind) (program : Option Program) : CallGraph :=
  if g.contains id then
    match program with
    | none => g
    | some p =>
      { g with
        nodes := g.nodes.map fun n =>
          if n.id == id && n.program.isNone then { n with program := some p, kind := .program }
          else n }
  else { g with nodes := g.nodes ++ [⟨id, kind, program⟩] }

def addEdge (g : CallGraph) (e : Edge) : CallGraph := { g with edges := g.edges ++ [e] }

def addCall (g : CallGraph) (caller : Int) (s : CallSite) : CallGraph :=
  (g.addNode s.callee .missing none).addEdge ⟨caller, s.callee, s.opcode.word, s.line⟩

/-- Adds a program under an id, with an edge for each call. Calls after one that lacks operands
are left out, and the crash is reported. -/
def addProgram (g : CallGraph) (id : Int) (p : Program) : CallGraph × Option Crash :=
  let (sites, crash) := Block.leadingCalls p.nodes
  (sites.foldl (·.addCall id) (g.addNode id .program (some p)), crash)

end CallGraph

end SeqAsm
