import SeqAsm.Text.Numeral
import SeqAsm.Text.Quoted

/-!
Error codes. A code is a family and a number; its category and phase say more about it but do
not tell codes apart. The family of this instruction set uses the thousands for phases: one for
the reading of text, three for the dependency graph, five for running, nine for the engine.
-/

namespace SeqAsm

inductive Phase where
  | reading | graph | running | engine
  deriving DecidableEq, Repr

inductive Category where
  | unknownMnemonic | operandCount | malformedOperand | unbalancedLoop
  | unresolvedDependency | circularDependency
  | divisionByZero | magnitudeLimit | domainError | registerAddress | loopRange | timeout
  | internalError
  deriving DecidableEq, Repr

/-- What an error means for whoever runs many programs. -/
inductive Kind where
  | structural | arithmetic | resource | graph | engine
  deriving DecidableEq, Repr

structure Code where
  family : String
  number : Int
  category : Category
  phase : Phase
  deriving Repr

namespace Phase

def all : List Phase := [.reading, .graph, .running, .engine]

def word : Phase → String
  | .reading => "syntax"
  | .graph => "graph"
  | .running => "runtime"
  | .engine => "internal"

def ofWord? (w : String) : Option Phase := all.find? fun p => p.word == w

end Phase

namespace Category

def all : List Category :=
  [.unknownMnemonic, .operandCount, .malformedOperand, .unbalancedLoop, .unresolvedDependency,
    .circularDependency, .divisionByZero, .magnitudeLimit, .domainError, .registerAddress,
    .loopRange, .timeout, .internalError]

def word : Category → String
  | .unknownMnemonic => "UNKNOWN_MNEMONIC"
  | .operandCount => "OPERAND_COUNT"
  | .malformedOperand => "MALFORMED_OPERAND"
  | .unbalancedLoop => "UNBALANCED_LOOP"
  | .unresolvedDependency => "UNRESOLVED_DEPENDENCY"
  | .circularDependency => "CIRCULAR_DEPENDENCY"
  | .divisionByZero => "DIVISION_BY_ZERO"
  | .magnitudeLimit => "MAGNITUDE_LIMIT"
  | .domainError => "DOMAIN_ERROR"
  | .registerAddress => "REGISTER_ADDRESS"
  | .loopRange => "LOOP_RANGE"
  | .timeout => "TIMEOUT"
  | .internalError => "INTERNAL_ERROR"

def ofWord? (w : String) : Option Category := all.find? fun c => c.word == w

end Category

def Kind.word : Kind → String
  | .structural => "structural"
  | .arithmetic => "arithmetic"
  | .resource => "resource"
  | .graph => "graph"
  | .engine => "internal"

namespace Code

/-- Family and number; the number has at least four places. -/
def text (c : Code) : String := c.family ++ "-" ++ Text.padded 4 c.number

def describe (c : Code) : String :=
  "ErrorCode(" ++ Text.literal c.text ++ ", " ++ c.category.word ++ ")"

/-- Two codes are the same when family and number are. -/
def same (a b : Code) : Bool := a.family == b.family && a.number == b.number

def unknownMnemonic : Code := ⟨"LODA", 1001, .unknownMnemonic, .reading⟩
def operandCount : Code := ⟨"LODA", 1002, .operandCount, .reading⟩
def malformedOperand : Code := ⟨"LODA", 1003, .malformedOperand, .reading⟩
def unbalancedLoop : Code := ⟨"LODA", 1004, .unbalancedLoop, .reading⟩
def unresolvedDependency : Code := ⟨"LODA", 3001, .unresolvedDependency, .graph⟩
def circularDependency : Code := ⟨"LODA", 3002, .circularDependency, .graph⟩
def divisionByZero : Code := ⟨"LODA", 5001, .divisionByZero, .running⟩
def magnitudeLimit : Code := ⟨"LODA", 5002, .magnitudeLimit, .running⟩
def domainError : Code := ⟨"LODA", 5003, .domainError, .running⟩
def registerAddress : Code := ⟨"LODA", 5004, .registerAddress, .running⟩
def nonTerminating : Code := ⟨"LODA", 5005, .timeout, .running⟩
def loopRangeLength : Code := ⟨"LODA", 5006, .loopRange, .running⟩
def internalError : Code := ⟨"LODA", 9001, .internalError, .engine⟩

def known : List (String × Code) :=
  [("UNKNOWN_MNEMONIC", unknownMnemonic), ("OPERAND_COUNT", operandCount),
    ("MALFORMED_OPERAND", malformedOperand), ("UNBALANCED_LOOP", unbalancedLoop),
    ("UNRESOLVED_DEPENDENCY", unresolvedDependency), ("CIRCULAR_DEPENDENCY", circularDependency),
    ("DIVISION_BY_ZERO", divisionByZero), ("MAGNITUDE_LIMIT", magnitudeLimit),
    ("DOMAIN_ERROR", domainError), ("REGISTER_ADDRESS", registerAddress),
    ("NON_TERMINATING", nonTerminating), ("LOOP_RANGE_LENGTH", loopRangeLength),
    ("INTERNAL_ERROR", internalError)]

def ofName? (name : String) : Option Code := known.lookup name

/-- The names of the codes in use that are the same as `c`, in alphabetical order. -/
def names (c : Code) : List String :=
  ((known.filter fun k => k.2.same c).map (·.1)).mergeSort (· ≤ ·)

def countDistinct : List Code → Nat
  | [] => 0
  | c :: cs => if cs.any c.same then countDistinct cs else countDistinct cs + 1

end Code

end SeqAsm
