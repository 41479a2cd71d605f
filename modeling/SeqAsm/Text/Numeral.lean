import SeqAsm.Text.Space
import SeqAsm.Text.Digit

/-!
Numerals. An integer is printed in decimal, with zeros in front up to a width where one is
asked for. An integer is read with an optional sign, with digits of any script, and with single
underscores between digits.
-/

namespace SeqAsm.Text

def ofDigits (ds : List Nat) : Nat := ds.foldl (fun n d => 10 * n + d) 0

/-- The number that decimal digit characters denote; other characters count as zero. -/
def natValue (cs : List Char) : Nat := ofDigits (cs.map fun c => (digit? c).getD 0)

/-- Splits an optional sign from a numeral; `true` for a minus sign. -/
def takeSign : List Char → Bool × List Char
  | '-' :: cs => (true, cs)
  | '+' :: cs => (false, cs)
  | cs => (false, cs)

def intValue (cs : List Char) : Int :=
  match takeSign cs with
  | (true, ds) => -(natValue ds : Int)
  | (false, ds) => (natValue ds : Int)

/-- Drops the underscores of a numeral; `none` unless each stands between two digits. The flag
tells whether the character before was a digit. -/
def dropUnderscores (afterDigit : Bool) : List Char → Option (List Char)
  | [] => some []
  | '_' :: c :: cs =>
    if afterDigit && isDigit c then (dropUnderscores true cs).map (c :: ·) else none
  | '_' :: [] => none
  | c :: cs => (dropUnderscores (isDigit c) cs).map (c :: ·)

/-- Reads an integer. White space around it is allowed. -/
def int? (cs : List Char) : Option Int :=
  match dropUnderscores false (trim cs) with
  | none => none
  | some ds =>
    let unsigned := (takeSign ds).2
    if unsigned.isEmpty || !unsigned.all isDigit then none else some (intValue ds)

/-- Decimal text with zeros in front up to a width; the sign counts for the width. -/
def padded (width : Nat) (n : Int) : String :=
  let digits := toString n.natAbs
  let sign := if n < 0 then "-" else ""
  sign ++ String.ofList (List.replicate (width - sign.length - digits.length) '0') ++ digits

end SeqAsm.Text
