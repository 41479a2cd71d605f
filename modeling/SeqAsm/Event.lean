import SeqAsm.Ids
import SeqAsm.Limits
import SeqAsm.Query

/-!
The log. Events say what happens during a session; each has a level, the part of the engine it
comes from, and a text.
-/

namespace SeqAsm

inductive Level where
  | debug | info | warning | error
  deriving DecidableEq, Repr

def Level.weight : Level → Nat
  | .debug => 0
  | .info => 1
  | .warning => 2
  | .error => 3

/-- The name of a level in five places. -/
def Level.label : Level → String
  | .debug => "DEBUG"
  | .info => "INFO "
  | .warning => "WARNI"
  | .error => "ERROR"

inductive Event where
  | limitWarning (warning : String)
  | opened (stepBudget : Int) (policy : LoopPolicy)
  | fileMissing (path : String)
  | fileRead (path : String) (length : Nat)
  | parsed (name : String) (size : Nat) (offset : Int)
  | dependenciesKnown (id : Int)
  | cycleFound (path : List Int)
  | programMissing (id : Int)
  | cacheMissed (q : Query)
  | loopStalled (line iterations : Nat)
  | candidateRejected (summary : String)
  | installedFailed (summary : String)
  | compared (installed candidate : Nat) (winner : String)
  /-- A report as data. -/
  | reported (data : String)
  /-- A command could not be carried out. -/
  | refused (reason : String)
  deriving DecidableEq, Repr

namespace Event

def level : Event → Level
  | limitWarning .. | cycleFound .. => .warning
  | opened .. | candidateRejected .. | installedFailed .. | compared .. => .info
  | refused .. => .error
  | _ => .debug

def origin : Event → String
  | limitWarning .. | opened .. | candidateRejected .. | installedFailed .. | compared .. =>
    "lodaengine.runtime"
  | fileMissing .. | fileRead .. => "lodaengine.store"
  | parsed .. => "lodaengine.parser"
  | dependenciesKnown .. | cycleFound .. | programMissing .. => "lodaengine.callgraph"
  | cacheMissed .. => "lodaengine.cache"
  | loopStalled .. => "lodaengine.vm"
  | reported .. | refused .. => "lodaengine"

def text : Event → String
  | limitWarning warning => "RuntimeConfig: " ++ warning
  | opened stepBudget policy =>
    "Runtime session created (step budget " ++ toString stepBudget ++ ", loop policy "
      ++ policy.word ++ ")"
  | fileMissing path => "No program file " ++ path
  | fileRead path length => "Read " ++ path ++ " (" ++ toString length ++ " bytes)"
  | parsed name size offset =>
    "Parsed " ++ name ++ ": " ++ toString size ++ " instructions, offset " ++ toString offset
  | dependenciesKnown id => "Dependencies of " ++ programName id ++ " already resolved"
  | cycleFound path => "Circular dependency: " ++ " -> ".intercalate (path.map programName)
  | programMissing id => "Call graph: " ++ programName id ++ " not found"
  | cacheMissed q =>
    "Cache miss: program " ++ toString q.program ++ ", input " ++ toString q.input
  | loopStalled line iterations =>
    "Loop at line " ++ toString line ++ " stalled after " ++ toString iterations ++ " iterations"
  | candidateRejected summary => "Candidate rejected: " ++ summary
  | installedFailed summary => "Installed program failed, candidate wins: " ++ summary
  | compared installed candidate winner =>
    "Compared programs: installed " ++ toString installed ++ " steps, candidate "
      ++ toString candidate ++ " steps -> " ++ winner
  | reported data => data
  | refused reason => reason

def line (e : Event) : String := "[" ++ e.level.label ++ "] " ++ e.origin ++ ": " ++ e.text

end Event

end SeqAsm
