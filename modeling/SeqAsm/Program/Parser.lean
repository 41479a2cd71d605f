import SeqAsm.Program.Defect
import SeqAsm.Statement.Scanner
import SeqAsm.Text.Lines

/-!
Reading a program text. Each line is scanned and its statement checked against the instruction
set, which gives a step; the steps of all lines, once their loop markers are known to pair up,
form the block of the program.
-/

namespace SeqAsm.Program

def operandOf (t : Token) : Except (Defect × Nat) Operand :=
  match t.operand? with
  | some o => .ok o
  | none => .error (.malformedOperand t.text, t.column)

def targetOf (word : String) (t : Token) : Except (Defect × Nat) Operand := do
  let o ← operandOf t
  if o.isRegister then return o else throw (.constantTarget word o, t.column)

/-- A loop length: a constant one must lie in the range that loops compare. -/
def lengthOf (t : Token) : Except (Defect × Nat) Operand := do
  match ← operandOf t with
  | .const n =>
    if 0 ≤ n ∧ n ≤ maxLoopRange then return .const n else throw (.loopLength n, t.column)
  | o => return o

/-- The source of an instruction: a call needs the id of a program. -/
def sourceOf (code : Opcode) (t : Token) : Except (Defect × Nat) Operand := do
  let o ← operandOf t
  if code.isCall then
    match o with
    | .const n =>
      if 0 ≤ n then return o else throw (.callTarget code.word o, t.column)
    | _ => throw (.callTarget code.word o, t.column)
  else return o

/-- Checks a word and its operands; a defect comes with its column. -/
def stepOf (line : Nat) (word : String) (column : Nat) (tokens : List Token) :
    Except (Defect × Nat) Step :=
  match Mnemonic.ofWord? word with
  | none => .error (.unknownWord word, column)
  | some .lpe =>
    match tokens with
    | [] => .ok .closing
    | _ => .error (.operandCount word 0 0 tokens.length, column)
  | some .lpb =>
    match tokens with
    | [t] => do return .opening ⟨← targetOf word t, .const 1⟩ line
    | [t, l] => do return .opening ⟨← targetOf word t, ← lengthOf l⟩ line
    | _ => .error (.operandCount word 1 2 tokens.length, column)
  | some (.code code) =>
    match tokens with
    | [t, s] => do return .instr ⟨code, [← targetOf word t, ← sourceOf code s]⟩ line
    | _ => .error (.operandCount word 2 2 tokens.length, column)

structure Reading where
  offset : Option Int := none
  /-- The steps in reverse order. -/
  steps : List Step := []
  /-- The loops that are still open, the innermost first, each by its line. -/
  opened : List (Nat × List Char) := []
  deriving DecidableEq, Repr

namespace Reading

def addOffset (r : Reading) (value : Int) : Except Defect Reading :=
  if r.offset.isSome then .error .repeatedOffset
  else if !r.steps.isEmpty then .error .lateOffset
  else .ok { r with offset := some value }

def addStep (r : Reading) (line : Nat) (source : List Char) (step : Step) :
    Except Defect Reading :=
  match step with
  | .instr .. => .ok { r with steps := step :: r.steps }
  | .opening .. =>
    if maxLoopDepth ≤ r.opened.length then .error .deepLoop
    else .ok { r with steps := step :: r.steps, opened := (line, source) :: r.opened }
  | .closing =>
    match r.opened with
    | [] => .error .unopenedLoop
    | _ :: opened => .ok { r with steps := step :: r.steps, opened }

/-- Takes in a line; the lines are numbered from one. -/
def addLine (r : Reading) (line : Nat) (source : List Char) : Except Flaw Reading :=
  match Statement.scan source with
  | .error u => .error ⟨.unreadable u.message, line, u.column, source⟩
  | .ok none => .ok r
  | .ok (some (.offset value column)) =>
    match r.addOffset value with
    | .ok r => .ok r
    | .error d => .error ⟨d, line, column, source⟩
  | .ok (some (.instruction word column tokens)) =>
    match stepOf line word column tokens with
    | .error (d, c) => .error ⟨d, line, c, source⟩
    | .ok step =>
      match r.addStep line source step with
      | .ok r => .ok r
      | .error d => .error ⟨d, line, column, source⟩

def addLines (r : Reading) (line : Nat) : List (List Char) → Except Flaw Reading
  | [] => .ok r
  | source :: rest =>
    match r.addLine line source with
    | .ok r => r.addLines (line + 1) rest
    | .error f => .error f

def finish (r : Reading) : Except Flaw Program :=
  match r.opened with
  | (line, source) :: _ => .error ⟨.unclosedLoop, line, 0, source⟩
  | [] => .ok { body := .ofSteps r.steps.reverse, offset := r.offset.getD 0 }

end Reading

def ofLines (lines : List (List Char)) : Except Flaw Program := do
  let r ← Reading.addLines {} 1 lines
  r.finish

def ofText (text : String) : Except Flaw Program := ofLines (Text.lines text.toList)

def parse (text file : String) (id : Option Int) : Except Diagnostic Program :=
  match ofText text with
  | .ok p => .ok (p.withId id)
  | .error f => .error (f.diagnostic file)

end SeqAsm.Program
