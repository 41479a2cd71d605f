import SeqAsm.Operand
import SeqAsm.Text.Numeral

/-!
What one line of text says, before anyone asks whether the instruction exists or how many
operands it takes: nothing, a first-index directive, or a word followed by tokens. Columns count
characters from one.
-/

namespace SeqAsm

/-- Reads an operand. The whole token must fit: `$12x` is no operand. -/
def Operand.read? : List Char → Option Operand
  | '$' :: '$' :: ds =>
    if !ds.isEmpty && ds.all Text.isDigit then some (.ind (Text.natValue ds)) else none
  | '$' :: ds =>
    if !ds.isEmpty && ds.all Text.isDigit then some (.reg (Text.natValue ds)) else none
  | cs =>
    let ds := (Text.takeSign cs).2
    if !ds.isEmpty && ds.all Text.isDigit then some (.const (Text.intValue cs)) else none

structure Token where
  chars : List Char
  column : Nat
  deriving DecidableEq, Repr

namespace Token

def text (t : Token) : String := String.ofList t.chars

def operand? (t : Token) : Option Operand := Operand.read? t.chars

end Token

inductive Statement where
  /-- The index of the first term. -/
  | offset (value : Int) (column : Nat)
  | instruction (word : String) (column : Nat) (operands : List Token)
  deriving DecidableEq, Repr

/-- A line that says nothing sensible from a column on. -/
structure Unreadable where
  fragment : String
  column : Nat
  deriving DecidableEq, Repr

def Unreadable.message (u : Unreadable) : String := "Cannot parse '" ++ u.fragment ++ "'"

end SeqAsm
