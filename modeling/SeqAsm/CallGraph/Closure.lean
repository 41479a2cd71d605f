import SeqAsm.CallGraph.Basic

/-!
Where calls lead to, and where they come from. Nodes wait in a list; the last of them is taken,
and if it is new, the nodes next to it are added at the end.
-/

namespace SeqAsm.CallGraph

/-- The nodes that a list of waiting nodes leads to, and those reached before. The last of the
waiting nodes stands first. Each node taken uses up fuel. -/
def gather (next : Int → List Int) : (fuel : Nat) → (waiting reached : List Int) → List Int
  | 0, _, reached => reached
  | _ + 1, [], reached => reached
  | fuel + 1, v :: waiting, reached =>
    if reached.contains v then gather next fuel waiting reached
    else gather next fuel ((next v).reverse ++ waiting) (v :: reached)

/-- How many nodes there are, and how many steps from them. -/
def size (g : CallGraph) (next : Int → List Int) : Nat :=
  g.ids.length + (g.ids.flatMap next).length

/-- The nodes that steps lead to from a node, without itself. A node is new once, and adds what is
next to it then. -/
def closure (g : CallGraph) (next : Int → List Int) (id : Int) : List Int :=
  let fuel := (next id).length + g.size next
  (gather next fuel (next id).reverse []).filter (· != id)

def transitiveCallees (g : CallGraph) (id : Int) : List Int := g.closure g.callees id

def transitiveCallers (g : CallGraph) (id : Int) : List Int := g.closure g.callers id

def isRecursive (g : CallGraph) (id : Int) : Bool :=
  (g.callees id).any fun v => v == id || (g.transitiveCallees v).contains id

end SeqAsm.CallGraph
