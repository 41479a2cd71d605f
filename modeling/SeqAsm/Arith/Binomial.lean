/-!
Binomial coefficients, extended to a negative upper argument so that Pascal's rule holds on all
integers.
-/

namespace SeqAsm.Arith

/-- The number of ways to choose `k` out of `m + k`: each factor is multiplied in and divided
out at once, so every intermediate value is itself a binomial coefficient. -/
def chooseFrom (m k : Nat) : Nat :=
  k.fold (fun i _ c => c * (m + i + 1) / (i + 1)) 1

/-- The smaller of the two parts that `k` cuts `n` into. -/
def smallerPart (n k : Nat) : Nat := min k (n - k)

def choose (n k : Nat) : Nat :=
  if n < k then 0 else chooseFrom (n - smallerPart n k) (smallerPart n k)

/-- How an extended binomial coefficient comes from an ordinary one: zero, or a sign before the
coefficient of two natural numbers with `k ≤ n`. -/
inductive BinomialForm where
  | zero
  | signed (negative : Bool) (n k : Nat)
  deriving DecidableEq, Repr

/-- Reflects the arguments into the natural numbers. -/
def binomialForm (n k : Int) : BinomialForm :=
  if 0 ≤ n then
    if k < 0 ∨ n < k then .zero else .signed false n.toNat k.toNat
  else if 0 ≤ k then
    .signed (k % 2 = 1) (-n + k - 1).toNat k.toNat
  else if k ≤ n then
    .signed ((n - k) % 2 = 1) (-k - 1).toNat (n - k).toNat
  else .zero

end SeqAsm.Arith
