import SeqAsm.Opcode
import SeqAsm.Arith.Digits
import SeqAsm.Arith.Root
import SeqAsm.Arith.Binomial

/-!
The arithmetic of the instruction set: each operation on two integers, with the exact domain on
which it has a value, and the optional limit on the size of operands and results.

Division truncates toward zero and the remainder takes the sign of the dividend. Bitwise
operations work on magnitudes and put a sign back by a rule of their own.
-/

namespace SeqAsm.Arith

inductive Fault where
  | divisionByZero
  /-- Zero was raised to a negative power. -/
  | zeroToNegativePower
  /-- The result would need this many bits, more than can be computed at all. -/
  | tooLarge (bits : Nat)
  /-- An operand or a result needs `bits` bits and must stay below `limit`. -/
  | overLimit (bits : Nat) (limit : Int)
  | logOfNonPositive (n : Int)
  | logBase (base : Int)
  | rootOfNegative (n : Int)
  | rootDegree (degree : Int)
  | rootDegreeTooLarge (degree : Int)
  | digitSumBase (base : Int)
  | digitalRootBase (base : Int)
  /-- A binomial coefficient has more factors than can be counted in a machine word. -/
  | binomialTooWide
  deriving DecidableEq, Repr

/-- The largest exponent of a power and the largest degree of a root. -/
def maxExponent : Int := 0xFFFFFFFF

/-- The largest number of factors of a binomial coefficient: 63 ones in binary. -/
def maxFactors : Nat := 9223372036854775807

/-- The length of an integer's magnitude in binary; zero has no bits. -/
def bitLength (n : Int) : Nat := if n = 0 then 0 else n.natAbs.log2 + 1

def ofBool (b : Bool) : Int := if b then 1 else 0

def withSign (negative : Bool) (n : Nat) : Int := if negative then -(n : Int) else n

theorem natAbs_withSign (negative : Bool) (n : Nat) : (withSign negative n).natAbs = n := by
  unfold withSign
  split
  · rw [Int.natAbs_neg, Int.natAbs_natCast]
  · rw [Int.natAbs_natCast]

/-- The quotient, rounded toward zero. -/
def quotient (x y : Int) : Int :=
  withSign (decide (x < 0) != decide (y < 0)) (x.natAbs / y.natAbs)

/-- The remainder, with the sign of the dividend. -/
def remainder (x y : Int) : Int := withSign (x < 0) (x.natAbs % y.natAbs)

/-- Divides when the division is exact and leaves `x` alone otherwise. -/
def exactQuotient (x y : Int) : Int :=
  if y = 0 then x else if remainder x y = 0 then quotient x y else x

theorem natAbs_exactQuotient_le (x y : Int) : (exactQuotient x y).natAbs ≤ x.natAbs := by
  unfold exactQuotient
  split
  · exact Nat.le_refl _
  · split
    · rw [quotient, natAbs_withSign]
      exact Nat.div_le_self _ _
    · exact Nat.le_refl _

/-- Divides by `y` for as long as that is exact and changes the magnitude. -/
def removeFactor (x y : Int) : Int :=
  if _h : (exactQuotient x y).natAbs = x.natAbs then x else removeFactor (exactQuotient x y) y
termination_by x.natAbs
decreasing_by
  have := natAbs_exactQuotient_le x y
  omega

/-- The power with an integer exponent, truncated toward zero. -/
def power (base exponent : Int) : Except Fault Int :=
  if base = 0 then
    if 0 < exponent then .ok 0
    else if exponent = 0 then .ok 1
    else .error .zeroToNegativePower
  else if base = 1 then .ok 1
  else if base = -1 then .ok (if exponent % 2 = 0 then 1 else -1)
  else if exponent < 0 then .ok 0
  else if maxExponent < exponent then .error (.tooLarge (bitLength base * exponent.toNat))
  else .ok (Int.pow base exponent.toNat)

def binomial (n k : Int) : Except Fault Int :=
  match binomialForm n k with
  | .zero => .ok 0
  | .signed negative n k =>
    if maxFactors < smallerPart n k then .error .binomialTooWide
    else .ok (withSign negative (choose n k))

def logarithm (n base : Int) : Except Fault Int :=
  if n ≤ 0 then .error (.logOfNonPositive n)
  else if base ≤ 1 then .error (.logBase base)
  else .ok (floorLog base.toNat n.toNat)

def root (n degree : Int) : Except Fault Int :=
  if n < 0 then .error (.rootOfNegative n)
  else if degree ≤ 0 then .error (.rootDegree degree)
  else if maxExponent < degree then .error (.rootDegreeTooLarge degree)
  else .ok (floorRoot degree.toNat n.toNat)

def apply (o : Operation) (x y : Int) : Except Fault Int :=
  match o with
  | .mov => .ok y
  | .add => .ok (x + y)
  | .sub => .ok (x - y)
  | .trn => .ok (max (x - y) 0)
  | .mul => .ok (x * y)
  | .div => if y = 0 then .error .divisionByZero else .ok (quotient x y)
  | .dif => .ok (exactQuotient x y)
  | .dir => .ok (removeFactor x y)
  | .mod => if y = 0 then .error .divisionByZero else .ok (remainder x y)
  | .pow => power x y
  | .gcd => .ok (Int.gcd x y)
  | .bin => binomial x y
  | .cmp | .equ => .ok (ofBool (x = y))
  | .neq => .ok (ofBool (x ≠ y))
  | .leq => .ok (ofBool (x ≤ y))
  | .geq => .ok (ofBool (y ≤ x))
  | .min => .ok (min x y)
  | .max => .ok (max x y)
  | .ban => .ok (withSign (x < 0 && y < 0) (x.natAbs &&& y.natAbs))
  | .bor => .ok (withSign (x < 0 || y < 0) (x.natAbs ||| y.natAbs))
  | .bxo => .ok (withSign (decide (x < 0) != decide (y < 0)) (x.natAbs ^^^ y.natAbs))
  | .log => logarithm x y
  | .nrt => root x y
  | .dgs =>
    if y < 2 then .error (.digitSumBase y)
    else .ok (withSign (x < 0) (digitSum y.toNat x.natAbs))
  | .dgr =>
    if y < 2 then .error (.digitalRootBase y)
    else .ok (withSign (x < 0) (digitalRoot y.toNat x.natAbs))

def checkSize (limit : Int) (n : Int) : Except Fault Unit :=
  if limit ≤ bitLength n then .error (.overLimit (bitLength n) limit) else .ok ()

/-- Refuses a power whose size, estimated from the size of its base, is above the limit. -/
def checkPower (limit : Int) (o : Operation) (x y : Int) : Except Fault Unit :=
  if o = .pow ∧ 1 < x.natAbs ∧ 0 < y ∧ limit < (bitLength x * y.toNat : Nat) then
    .error (.overLimit (bitLength x * y.toNat) limit)
  else .ok ()

/-- The operation under an optional limit on sizes. A plain move is never limited. -/
def compute (limit : Option Int) (o : Operation) (x y : Int) : Except Fault Int :=
  match limit with
  | none => apply o x y
  | some limit =>
    if o = .mov then apply o x y
    else do
      checkSize limit x
      checkSize limit y
      checkPower limit o x y
      let value ← apply o x y
      checkSize limit value
      return value

end SeqAsm.Arith
