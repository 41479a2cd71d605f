import SeqAsm.Proofs.Program.Defects
import SeqAsm.Proofs.Program.Lines
import SeqAsm.Proofs.Program.RoundTrip
import SeqAsm.Proofs.Statement.Grammar

/-!
Where the flaw of a text is.

A text is read line by line, and the first line that cannot be taken in is the flaw: all lines before
it have been taken in, so that by themselves they can at most leave a loop open. Its column is that
of the directive, the word or the token that is to blame, or that from which on nothing can be read.
A loop that is never closed is noted with its line when it is opened, so that it can be named at the
end of the text. The diagnostic of a flaw has its line and column as its place and keeps the line
itself; what was wrong can be told from its cause.
-/

namespace SeqAsm

open Text (lines isLineEnd)
open Statement (StandsAt TokenAt)

/-! ### Lines of a text -/

namespace Text

end Text

/-! ### What is to blame -/

/-- What a defect is about stands in a line at a column, and has that defect. Defects of a text as a
whole are about no word or token. -/
def Defect.Blames (source : List Char) (column : ℕ) : Defect → Prop
  | unreadable message => ∃ u, Statement.scan source = .error u ∧ u.message = message ∧
      u.column = column
  | unknownWord word => StandsAt source column word.toList ∧ Mnemonic.ofWord? word = none
  | operandCount word .. => StandsAt source column word.toList
  | malformedOperand token =>
    TokenAt source column token.toList ∧ ∀ o, ¬ Operand.Denoted token.toList o
  | constantTarget _ target =>
    ∃ token, TokenAt source column token ∧ Operand.Denoted token target ∧ target.isRegister = false
  | callTarget _ callee =>
    ∃ token, TokenAt source column token ∧ Operand.Denoted token callee ∧ ¬ callee.IsId
  | loopLength n =>
    ∃ token, TokenAt source column token ∧ Operand.Denoted token (.const n) ∧
      ¬ (Operand.const n).IsLength
  | _ => True

variable {source : List Char} {line column c : ℕ} {d : Defect}

namespace Program

/-! ### The checks of a line -/

section

variable {word : String} {t : Token} {code : Opcode} {tokens : List Token}

end

namespace Reading

variable {r r' : Reading} {step : Step} {f : Flaw} {ls before after : List (List Char)}

/-! ### The line at fault -/

end Reading

/-! ### The flaw of a text -/

variable {ls : List (List Char)} {f : Flaw}

/-- The loop that is left open is not the one opened last. -/
example : ofText "lpb $0\n  lpb $1,2 ; within\nlpe" =
    .error ⟨.unclosedLoop, 1, 0, "lpb $0".toList⟩ := by cbv

end Program

end SeqAsm
