import SeqAsm.Sexp.Lexeme

/-!
Reading S-expressions. Lexemes are read from the left with a stack of the brackets that are
open. A quote waits for the next form of its own bracket.
-/

namespace SeqAsm.Sexp

/-- The form of an atom: the empty list, truth, an integer, a real number or a symbol, whichever
comes first. -/
def ofAtom (cs : List Char) : Sexp :=
  if cs = ['n', 'i', 'l'] then .list []
  else if cs = ['t'] then .truth
  else match Text.int? cs with
    | some n => .int n
    | none =>
      match Text.real? cs with
      | some r => .real r
      | none => .symbol (String.ofList cs)

structure Contents where
  /-- Quotes that wait for a form. -/
  quotes : Nat := 0
  /-- The forms in reverse order. -/
  forms : List Sexp := []

def quoteTimes : Nat → Sexp → Sexp
  | 0, x => x
  | n + 1, x => .quoted (quoteTimes n x)

def Contents.add (c : Contents) (x : Sexp) : Contents :=
  ⟨0, quoteTimes c.quotes x :: c.forms⟩

def ofShape : Shape → List Sexp → Sexp
  | .round, items => .list items
  | .square, items => .bracket items

/-- Reads lexemes into `inner`, the contents of the innermost open bracket. The brackets around
it have the contents that they had when it was opened. -/
def readFrom (inner : Contents) (outer : List (Shape × Contents)) :
    List Lexeme → Except Fault (List Sexp)
  | [] =>
    if inner.quotes ≠ 0 then .error .missingForm
    else if !outer.isEmpty then .error .missingClosing
    else .ok inner.forms.reverse
  | .fault f :: _ => .error f
  | .quote :: ls => readFrom { inner with quotes := inner.quotes + 1 } outer ls
  | .atom cs :: ls => readFrom (inner.add (ofAtom cs)) outer ls
  | .str cs :: ls => readFrom (inner.add (.str (String.ofList cs))) outer ls
  | .opening s :: ls => readFrom {} ((s, inner) :: outer) ls
  | .closing s :: ls =>
    if inner.quotes ≠ 0 then .error .missingForm
    else match outer with
      | [] => .error .extraClosing
      | (s', c) :: outer =>
        if s = s' then readFrom (c.add (ofShape s inner.forms.reverse)) outer ls
        else .error .missingClosing

/-- Reads a text that holds exactly one form. -/
def read (text : String) : Except Fault Sexp := do
  match ← readFrom {} [] (Lexeme.scan text.toList) with
  | [x] => return x
  | _ => throw .formCount

end SeqAsm.Sexp
