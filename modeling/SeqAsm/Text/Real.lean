import SeqAsm.Text.Numeral

/-!
Real-number literals. A literal is kept as it was written, a decimal mantissa with an exponent.
Its value is the nearest number with a binary significand of 53 places, and of that value only
the whole part is ever asked for.
-/

namespace SeqAsm.Text

inductive Real where
  | nan
  | infinite (negative : Bool)
  /-- `mantissa * 10 ^ exponent` with a sign. -/
  | decimal (negative : Bool) (mantissa : Nat) (exponent : Int)
  deriving DecidableEq, Repr

/-- The whole number nearest to `num / den`; of two the even one. -/
def roundQuotient (num den : Nat) : Nat :=
  let q := num / den
  let r := num % den
  if den < 2 * r ∨ (2 * r = den ∧ q % 2 = 1) then q + 1 else q

/-- Rounds `num / den` to 53 binary places and cuts it to a whole number; `none` when the rounded
value is beyond the range of the exponent. -/
def wholeOfQuotient (num den : Nat) : Option Nat :=
  let guess : Int := (num.log2 : Int) - den.log2 - 53
  let scaled (k : Int) : Nat × Nat := (num <<< (-k).toNat, den <<< k.toNat)
  let k := if (scaled guess).1 / (scaled guess).2 < 1 <<< 53 then guess else guess + 1
  let significand := roundQuotient (scaled k).1 (scaled k).2
  let whole := significand <<< k.toNat >>> (-k).toNat
  if whole < 1 <<< 1024 then some whole else none

/-- The whole part of `mantissa * 10 ^ exponent` after rounding; `none` when out of range. The
first tests keep the powers of ten small. -/
def wholeOfDecimal (mantissa : Nat) (exponent : Int) : Option Nat :=
  let magnitude := (Nat.toDigits 10 mantissa).length + exponent
  if mantissa = 0 ∨ magnitude < 0 then some 0
  else if 310 < magnitude then none
  else wholeOfQuotient (mantissa * Nat.pow 10 exponent.toNat) (Nat.pow 10 (-exponent).toNat)

/-- Reads the exponent of a literal; nothing stands for zero. -/
def exponent? : List Char → Option Int
  | [] => some 0
  | c :: cs =>
    let ds := (takeSign cs).2
    if (c == 'e' || c == 'E') && !ds.isEmpty && ds.all isDigit then some (intValue cs) else none

/-- Reads a decimal without a sign: digits with a point somewhere, then an exponent. -/
def decimal? (negative : Bool) (cs : List Char) : Option Real :=
  let whole := cs.takeWhile isDigit
  let rest := cs.dropWhile isDigit
  let fraction := match rest with
    | '.' :: r => r.takeWhile isDigit
    | _ => []
  let tail := match rest with
    | '.' :: r => r.dropWhile isDigit
    | r => r
  if whole.isEmpty && fraction.isEmpty then none
  else (exponent? tail).map fun e =>
    .decimal negative (natValue (whole ++ fraction)) (e - fraction.length)

/-- Reads a real number. White space around it is allowed. -/
def real? (cs : List Char) : Option Real :=
  match dropUnderscores false (trim cs) with
  | none => none
  | some cs =>
    let (negative, cs) := takeSign cs
    let name := String.ofList (cs.map Char.toLower)
    if name = "nan" then some .nan
    else if name = "inf" ∨ name = "infinity" then some (.infinite negative)
    else decimal? negative cs

def Real.text : Real → String
  | .nan => "nan"
  | .infinite negative => if negative then "-inf" else "inf"
  | .decimal negative m e => (if negative then "-" else "") ++ toString m ++ "e" ++ toString e

end SeqAsm.Text
