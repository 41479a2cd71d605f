/-!
Operands of instructions and loops. An operand is an immediate integer, a register, or a
register whose index is held in another register.
-/

namespace SeqAsm

inductive Operand where
  /-- The integer itself. -/
  | const (value : Int)
  /-- The register with this index. -/
  | reg (index : Int)
  /-- The register whose index is held in the register with this index. -/
  | ind (index : Int)
  deriving DecidableEq, Repr

namespace Operand

def text : Operand → String
  | .const v => toString v
  | .reg i => "$" ++ toString i
  | .ind i => "$$" ++ toString i

def isRegister : Operand → Bool
  | .const _ => false
  | _ => true

end Operand

/-- The longest range of registers that a loop compares. -/
def maxLoopRange : Int := 255

def maxLoopDepth : Nat := 255

end SeqAsm
