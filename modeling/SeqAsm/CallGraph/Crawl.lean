import SeqAsm.CallGraph.Basic

/-!
Crawling: the call graph of all programs that some programs lead to, discovered breadth first.
-/

namespace SeqAsm.CallGraph

structure Crawl where
  answer : Except Failure CallGraph
  findings : List Finding

/-- Adds the programs of a queue, and those they call to its end. `seen` holds the ids taken from
the queue before; the findings are in reverse order. Each program found uses up fuel. -/
def crawlFrom (loader : Loader) (fuel : Nat) (seen : List Int) (g : CallGraph)
    (findings : List Finding) : List Int → Crawl
  | [] => ⟨.ok g, findings.reverse⟩
  | id :: queue =>
    if seen.contains id then crawlFrom loader fuel seen g findings queue
    else
      let findings := .sought id :: findings
      match loader.find id with
      | .error e => ⟨.error e, findings.reverse⟩
      | .ok none =>
        crawlFrom loader fuel (id :: seen) (g.addNode id .missing none) (.absent id :: findings)
          queue
      | .ok (some p) =>
        match fuel, g.addProgram id (p.withId (some id)), p.dependencies with
        | 0, _, _ => ⟨.error (.crash .searchTooDeep), findings.reverse⟩
        | _ + 1, (_, some c), _ => ⟨.error (.crash c), findings.reverse⟩
        | _ + 1, _, .error c => ⟨.error (.crash c), findings.reverse⟩
        | fuel + 1, (g, none), .ok called =>
          crawlFrom loader fuel (id :: seen) g findings (queue ++ called)
termination_by queue => (fuel, queue.length)

def crawl (loader : Loader) (ids : List Int) : Crawl := crawlFrom loader loader.bound [] {} [] ids

end SeqAsm.CallGraph
