import SeqAsm.CallGraph.Basic

/-!
Call graphs as text in the DOT language, and the short forms in which nodes, edges and graphs
are shown.
-/

namespace SeqAsm.CallGraph

/-- A text between double quotes, in which a double quote has a backslash before it. -/
def dotString (s : String) : String :=
  String.ofList ('"' :: s.toList.flatMap (fun c => if c = '"' then ['\\', '"'] else [c]) ++ ['"'])

def NodeKind.dotStyle : NodeKind → String
  | .program => "style=filled, fillcolor=\"#ddeeff\""
  | .missing => "style=filled, fillcolor=\"#ffcccc\", shape=diamond"

def Node.dot (n : Node) : String :=
  "  \"" ++ n.name ++ "\" [label=\"" ++ n.name ++ "\", " ++ n.kind.dotStyle ++ "];"

def Edge.dot (e : Edge) : String :=
  let label := if e.line = 0 then e.word else e.word ++ ":" ++ toString e.line
  "  \"" ++ programName e.caller ++ "\" -> \"" ++ programName e.callee ++ "\" [label=\"" ++ label
    ++ "\"];"

/-- The graph in the DOT language; an empty title is left out. -/
def dot (g : CallGraph) (title : String) : String :=
  "\n".intercalate
    (["digraph CallGraph \x7b", "  rankdir=TB;"]
      ++ (if title.isEmpty then [] else ["  label=" ++ dotString title ++ ";"])
      ++ ["  node [shape=box, fontname=\"Helvetica\", fontsize=10];"]
      ++ g.nodes.map Node.dot ++ g.edges.map Edge.dot ++ ["\x7d"])

def Node.describe (n : Node) : String :=
  "CallGraphNode('" ++ n.name ++ "', kind=" ++ n.kind.word ++ ")"

def Edge.describe (e : Edge) : String :=
  "CallGraphEdge(" ++ programName e.caller ++ " -> " ++ programName e.callee ++ ", " ++ e.word
    ++ (if e.line = 0 then "" else " @ line " ++ toString e.line) ++ ")"

def describe (g : CallGraph) : String :=
  "CallGraph(nodes=" ++ toString g.nodes.length ++ ", edges=" ++ toString g.edges.length ++ ")"

end SeqAsm.CallGraph
