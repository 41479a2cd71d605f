import SeqAsm.Text.Real

/-!
S-expressions: the forms that a text can hold, and how a form is written.
-/

namespace SeqAsm

inductive Sexp where
  | list (items : List Sexp)
  /-- Items between square brackets. -/
  | bracket (items : List Sexp)
  | quoted (form : Sexp)
  | str (s : String)
  | int (n : Int)
  /-- The atom `t`. -/
  | truth
  | real (r : Text.Real)
  | symbol (name : String)

namespace Sexp

def stringChar (c : Char) : List Char := if c = '"' ∨ c = '\\' then ['\\', c] else [c]

mutual

def text : Sexp → String
  | .list items => "(" ++ " ".intercalate (texts items) ++ ")"
  | .bracket items => "[" ++ " ".intercalate (texts items) ++ "]"
  | .quoted form => "'" ++ text form
  | .str s => "\"" ++ String.ofList (s.toList.flatMap stringChar) ++ "\""
  | .int n => toString n
  | .truth => "t"
  | .real r => r.text
  | .symbol name => name

def texts : List Sexp → List String
  | [] => []
  | x :: xs => text x :: texts xs

end

end Sexp

end SeqAsm
