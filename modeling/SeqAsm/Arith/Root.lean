/-!
Whole-number roots and logarithms: the largest `r` with `r ^ d ≤ n`, and the largest `c` with
`b ^ c ≤ n`. A square root is found bit by bit from above, a higher root by bisection, the
logarithm by repeated division.
-/

namespace SeqAsm.Arith

/-- Decides the lowest `k` bits of the `d`-th root of `n`, highest bit first, when the bits above
them are those of `r`. -/
def rootBits (d n : Nat) : Nat → Nat → Nat
  | 0, r => r
  | k + 1, r => rootBits d n k (if (r + 1 <<< k).pow d ≤ n then r + 1 <<< k else r)

def squareRoot (n : Nat) : Nat := rootBits 2 n (n.log2 / 2 + 1) 0

/-- Halves the numbers from `low` up to, but not including, `stop` around the `d`-th root of `n`.
A number whose power is `n` is the answer at once; `best` is the last one whose power was too
small, and the answer when none is left. -/
def bisect (d n low stop best : Nat) : Nat :=
  if _h : low < stop then
    let mid := (low + stop - 1) / 2
    let value := mid.pow d
    if value = n then mid
    else if value < n then bisect d n (mid + 1) stop mid
    else bisect d n low mid best
  else best
termination_by stop - low

/-- The largest `r` with `r ^ d ≤ n`, for a positive degree `d`. -/
def floorRoot (d n : Nat) : Nat :=
  if d = 1 ∨ n < 2 then n
  else if d = 2 then squareRoot n
  else bisect d n 0 (n + 1) 0

/-- The largest `c` with `b ^ c ≤ n`, added to `c₀`. A base below two counts nothing. -/
def floorLogFrom (b n c₀ : Nat) : Nat :=
  if h : n < b ∨ b < 2 then c₀ else floorLogFrom b (n / b) (c₀ + 1)
termination_by n
decreasing_by exact Nat.div_lt_self (by omega) (by omega)

def floorLog (b n : Nat) : Nat := floorLogFrom b n 0

/-- The bits kept so far stay a lower bound and never miss by more than the bits to come. -/
theorem rootBits_spec (d n : Nat) : ∀ k r, r.pow d ≤ n → n < (r + 1 <<< k).pow d →
    (rootBits d n k r).pow d ≤ n ∧ n < (rootBits d n k r + 1).pow d
  | 0, _, h₁, h₂ => ⟨h₁, h₂⟩
  | k + 1, r, h₁, h₂ => by
    rw [rootBits]
    split
    · rename_i h
      refine rootBits_spec d n k _ h ?_
      rwa [Nat.add_assoc, ← Nat.two_mul, ← Nat.shiftLeft_succ]
    · rename_i h
      exact rootBits_spec d n k r h₁ (Nat.lt_of_not_le h)

end SeqAsm.Arith
