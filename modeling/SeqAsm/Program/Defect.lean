import SeqAsm.Program.Basic

/-!
What can be wrong with a program text. The first defect of a text is reported, with its line,
its column and the line itself.
-/

namespace SeqAsm

inductive Defect where
  | unreadable (message : String)
  | unknownWord (word : String)
  | operandCount (word : String) (least most found : Nat)
  | malformedOperand (token : String)
  | constantTarget (word : String) (target : Operand)
  /-- A call needs a constant that is not negative. -/
  | callTarget (word : String) (source : Operand)
  | loopLength (length : Int)
  | repeatedOffset
  | lateOffset
  | deepLoop
  | unopenedLoop
  | unclosedLoop
  deriving DecidableEq, Repr

/-- A defect and its place. Column zero stands for the whole line. -/
structure Flaw where
  defect : Defect
  line : Nat
  column : Nat
  source : List Char
  deriving DecidableEq, Repr

def Defect.cause : Defect → Cause
  | unreadable message => .malformedOperand message
  | unknownWord word => .unknownMnemonic word
  | operandCount word least most found =>
    .operandCount word
      (if least = most then toString least else toString least ++ "-" ++ toString most) found
  | malformedOperand token => .malformedOperand ("Malformed operand '" ++ token ++ "'")
  | constantTarget word target =>
    .malformedOperand ("'" ++ word ++ "' cannot write to constant " ++ target.text)
  | callTarget word source =>
    .malformedOperand
      ("'" ++ word ++ "' needs a non-negative constant program id, got " ++ source.text)
  | loopLength length =>
    .malformedOperand
      ("Loop range length " ++ toString length ++ " is outside 0.." ++ toString maxLoopRange)
  | repeatedOffset => .malformedOperand "Duplicate #offset directive"
  | lateOffset => .malformedOperand "#offset must precede all instructions"
  | deepLoop =>
    .unbalancedLoop ("Loops nested deeper than " ++ toString maxLoopDepth ++ " levels")
  | unopenedLoop => .unbalancedLoop "'lpe' without matching 'lpb'"
  | unclosedLoop => .unbalancedLoop "'lpb' without matching 'lpe'"

def Flaw.diagnostic (file : String) (f : Flaw) : Diagnostic :=
  { cause := f.defect.cause
    span := ⟨file, f.line, f.column⟩
    sourceLine := String.ofList f.source }

end SeqAsm
