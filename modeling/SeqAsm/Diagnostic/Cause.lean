import SeqAsm.Datum
import SeqAsm.Diagnostic.Code

/-!
The causes of errors. Each cause fixes the message, the code and the kind of its error; the
general causes of a group carry a message and a code of their own.
-/

namespace SeqAsm

inductive Cause where
  | general (message : String) (code : Code)
  /-- The text is no program. -/
  | parsing (message : String) (code : Code)
  | unknownMnemonic (word : String)
  | operandCount (word expected : String) (found : Int)
  | malformedOperand (message : String)
  | unbalancedLoop (message : String)
  /-- A run failed. -/
  | evaluation (message : String) (code : Code)
  | divisionByZero (message : String)
  /-- A value needs `bits` bits; without a limit it is too large for any machine. -/
  | magnitudeLimit (bits : Int) (limit : Option Int)
  | domain (message : String)
  | registerAddress (address capacity : Int)
  | loopRangeLength (length limit : Int)
  /-- A run was stopped after this many steps. -/
  | nonTerminating (message : String) (steps : Int)
  /-- The call graph is at fault. -/
  | graph (message : String) (code : Code)
  | unresolvedDependency (program : Int) (referrer : Option Int)
  /-- A path of calls that returns to its start. -/
  | cyclicDependency (cycle : List Int)
  /-- The engine is at fault. -/
  | engine (message : String)

namespace Cause

def message : Cause → String
  | general m _ | parsing m _ | malformedOperand m | unbalancedLoop m | evaluation m _
  | divisionByZero m | domain m | nonTerminating m _ | graph m _ => m
  | unknownMnemonic w => "Unknown mnemonic '" ++ w ++ "'"
  | operandCount w expected found =>
    "'" ++ w ++ "' expects " ++ expected ++ " operand(s), found " ++ toString found
  | magnitudeLimit bits none => "Value of " ++ toString bits ++ " bits is too large to compute"
  | magnitudeLimit bits (some limit) =>
    "Value of " ++ toString bits ++ " bits exceeds the limit of " ++ toString limit ++ " bits"
  | registerAddress address capacity =>
    "Register address " ++ toString address ++ " is outside 0.." ++ toString (capacity - 1)
  | loopRangeLength length limit =>
    "Loop range length " ++ toString length ++ " exceeds the limit of " ++ toString limit
  | unresolvedDependency program none => "Program " ++ toString program ++ " not found"
  | unresolvedDependency program (some referrer) =>
    "Program " ++ toString program ++ " not found (called by program " ++ toString referrer ++ ")"
  | cyclicDependency cycle =>
    "Circular dependency detected: " ++ " -> ".intercalate (cycle.map toString)
  | engine m => "Internal error: " ++ m

def code : Cause → Code
  | general _ c | parsing _ c | evaluation _ c | graph _ c => c
  | unknownMnemonic .. => .unknownMnemonic
  | operandCount .. => .operandCount
  | malformedOperand .. => .malformedOperand
  | unbalancedLoop .. => .unbalancedLoop
  | divisionByZero .. => .divisionByZero
  | magnitudeLimit .. => .magnitudeLimit
  | domain .. => .domainError
  | registerAddress .. => .registerAddress
  | loopRangeLength .. => .loopRangeLength
  | nonTerminating .. => .nonTerminating
  | unresolvedDependency .. => .unresolvedDependency
  | cyclicDependency .. => .circularDependency
  | engine .. => .internalError

def isParsing : Cause → Bool
  | parsing .. | unknownMnemonic .. | operandCount .. | malformedOperand .. | unbalancedLoop .. =>
    true
  | _ => false

/-- The error arose in a run. Another input may do better, so the error is not permanent. -/
def isEvaluation : Cause → Bool
  | evaluation .. | divisionByZero .. | magnitudeLimit .. | domain .. | registerAddress ..
  | loopRangeLength .. | nonTerminating .. => true
  | _ => false

def kind (c : Cause) : Kind :=
  match c with
  | loopRangeLength .. | nonTerminating .. => .resource
  | graph .. | unresolvedDependency .. | cyclicDependency .. => .graph
  | general .. | engine .. => .engine
  | _ => if c.isParsing then .structural else .arithmetic

/-- What the cause itself adds to the context of a report. -/
def context : Cause → List (String × Datum)
  | unresolvedDependency program referrer =>
    [("program_id", .int program), ("referenced_by", referrer.elim .null .int)]
  | cyclicDependency cycle => [("cycle", .list (cycle.map .int))]
  | _ => []

end Cause

end SeqAsm
