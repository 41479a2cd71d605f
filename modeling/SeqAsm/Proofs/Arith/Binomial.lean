import Mathlib
import SeqAsm.Proofs.Arith.Limit

/-!
Binomial coefficients of all integers.

Multiplying the factors in one by one and dividing each out at once gives the coefficient of two
natural numbers, since every value on the way is a coefficient itself. The extension keeps two laws
of these: it does not matter whether `k` or `n - k` are chosen, and a coefficient is the sum of the
two above it. Where the lower argument is a natural number, the extension is the generalised
coefficient of the integers, for which the second law is known; the first law leads the other half
plane back to this one, and in the gap between the two everything is zero.

The factors are counted in a machine word. A coefficient with more of them is the one thing that an
operation fails with and that is no report, and operands that pass a limit of 64 bits or fewer are
too small for it.
-/

namespace SeqAsm

namespace Arith

/-! ### Coefficients that are too wide -/

/-- Both parts of a binomial coefficient, once its arguments have been made natural numbers, need
more than 63 bits. -/
def TooWide (n k : Int) : Prop :=
  2 ^ 63 ≤ k ∧ 2 ^ 63 ≤ n - k ∨ 2 ^ 63 ≤ -n - 1 ∧ (2 ^ 63 ≤ k ∨ 2 ^ 63 ≤ n - k)

lemma binomial_eq_tooWide {n k : Int} : binomial n k = .error .binomialTooWide ↔ TooWide n k := by
  have counted {negative : Bool} {m j : ℕ} :
      (if maxFactors < smallerPart m j then .error .binomialTooWide
        else .ok (withSign negative (choose m j)) : Except Fault Int) = .error .binomialTooWide ↔
      maxFactors < min j (m - j) := by
    unfold smallerPart
    split <;> simp_all
  unfold binomial binomialForm TooWide
  split_ifs with hn hk hk hk'
  · exact iff_of_false nofun (by omega)
  · rw [counted, maxFactors]
    omega
  · rw [counted, maxFactors]
    omega
  · rw [counted, maxFactors]
    omega
  · exact iff_of_false nofun (by omega)

/-- No other operation has this fault. -/
lemma apply_eq_tooWide {o : Operation} {x y : Int} :
    apply o x y = .error .binomialTooWide ↔ o = .bin ∧ TooWide x y := by
  by_cases ho : o = .bin
  · subst ho
    simp only [true_and, ← binomial_eq_tooWide, apply]
  · simp only [ho, false_and, iff_false]
    intro h
    cases o <;> simp only [apply, power, logarithm, root] at h <;> (repeat' split at h) <;> simp_all

lemma bitLength_lt_iff {n : Int} : bitLength n < 64 ↔ n.natAbs < 2 ^ 63 := by
  unfold bitLength
  split
  · subst n
    simp
  · rw [Nat.add_lt_iff_lt_sub_right, Nat.log2_lt (by omega)]

/-- Operands of fewer than 64 bits are never too wide. -/
lemma TooWide.lt_limit {n k limit : Int} (h : TooWide n k) (hn : bitLength n < limit)
    (hk : bitLength k < limit) : 64 < limit := by
  by_contra small
  have hn' := bitLength_lt_iff.1 (show bitLength n < 64 by omega)
  have hk' := bitLength_lt_iff.1 (show bitLength k < 64 by omega)
  unfold TooWide at h
  omega

lemma checkSize_ne_tooWide {limit n : Int} : checkSize limit n ≠ .error .binomialTooWide := by
  unfold checkSize
  split <;> simp

lemma checkPower_ne_tooWide {limit x y : Int} {o : Operation} :
    checkPower limit o x y ≠ .error .binomialTooWide := by
  unfold checkPower
  split <;> simp

lemma compute_eq_tooWide {limit : Option Int} {o : Operation} {x y : Int}
    (h : compute limit o x y = .error .binomialTooWide) :
    o = .bin ∧ TooWide x y ∧ ∀ bits, limit = some bits → 64 < bits := by
  cases limit with
  | none =>
    obtain ⟨ho, wide⟩ := apply_eq_tooWide.1 h
    exact ⟨ho, wide, nofun⟩
  | some bits =>
    unfold compute at h
    dsimp only at h
    split at h
    · rename_i move
      exact absurd (apply_eq_tooWide.1 h).1 (by simp [move])
    rcases bind_eq_error.1 h with h | ⟨_, hx, h⟩
    · exact absurd h checkSize_ne_tooWide
    rcases bind_eq_error.1 h with h | ⟨_, hy, h⟩
    · exact absurd h checkSize_ne_tooWide
    rcases bind_eq_error.1 h with h | ⟨_, -, h⟩
    · exact absurd h checkPower_ne_tooWide
    rcases bind_eq_error.1 h with h | ⟨_, -, h⟩
    · obtain ⟨ho, wide⟩ := apply_eq_tooWide.1 h
      refine ⟨ho, wide, fun _ same => ?_⟩
      obtain rfl := Option.some.inj same
      exact wide.lt_limit (checkSize_eq_ok.1 hx) (checkSize_eq_ok.1 hy)
    rcases bind_eq_error.1 h with h | ⟨_, -, h⟩
    · exact absurd h checkSize_ne_tooWide
    · cases h

/-! ### Natural numbers -/

@[simp] lemma chooseFrom_zero (m : ℕ) : chooseFrom m 0 = 1 := rfl

lemma chooseFrom_succ (m k : ℕ) :
    chooseFrom m (k + 1) = chooseFrom m k * (m + k + 1) / (k + 1) := by
  simp [chooseFrom, Nat.fold_succ]

/-- The product is exact at each of its divisions. -/
lemma chooseFrom_eq (m k : ℕ) : chooseFrom m k = (m + k).choose k := by
  induction k with
  | zero => simp
  | succ k ih =>
    have exact : (m + k).choose k * (m + k + 1) = (m + (k + 1)).choose (k + 1) * (k + 1) := by
      rw [Nat.mul_comm]
      exact Nat.add_one_mul_choose_eq (m + k) k
    rw [chooseFrom_succ, ih, exact, Nat.mul_div_cancel _ k.succ_pos]

lemma choose_smallerPart {n k : ℕ} (h : k ≤ n) : n.choose (smallerPart n k) = n.choose k := by
  rcases Nat.le_total k (n - k) with hk | hk
  · rw [smallerPart, Nat.min_eq_left hk]
  · rw [smallerPart, Nat.min_eq_right hk, Nat.choose_symm h]

lemma choose_eq (n k : ℕ) : choose n k = n.choose k := by
  unfold choose
  split
  · rename_i h
    exact (Nat.choose_eq_zero_of_lt h).symm
  · rename_i h
    have part : smallerPart n k ≤ n := (Nat.min_le_right k (n - k)).trans (Nat.sub_le n k)
    rw [chooseFrom_eq, Nat.sub_add_cancel part, choose_smallerPart (Nat.le_of_not_lt h)]

/-! ### Integers -/

def BinomialForm.value : BinomialForm → Int
  | .zero => 0
  | .signed negative n k => withSign negative (n.choose k)

/-- The extended coefficient of arguments of any size. -/
def coefficient (n k : Int) : Int := (binomialForm n k).value

/-- It is found unless it has too many factors. -/
lemma binomial_eq_ok {n k : Int} (h : ¬ TooWide n k) : binomial n k = .ok (coefficient n k) := by
  rw [← binomial_eq_tooWide] at h
  unfold binomial at h ⊢
  unfold coefficient
  rcases hf : binomialForm n k with _ | ⟨negative, m, j⟩ <;> rw [hf] at h
  · rfl
  · dsimp only at h ⊢
    by_cases wide : maxFactors < smallerPart m j
    · exact absurd (if_pos wide) h
    · rw [if_neg wide, choose_eq]
      rfl

lemma tooWide_symm {n k : Int} : TooWide n (n - k) ↔ TooWide n k := by
  unfold TooWide
  omega

/-- Below zero the reflected arguments are the same, whichever of the two is chosen. -/
lemma binomialForm_symm {n : Int} (hn : n < 0) (k : Int) :
    binomialForm n (n - k) = binomialForm n k := by
  have upper : -n + (n - k) - 1 = -k - 1 := by omega
  have upper' : -(n - k) - 1 = -n + k - 1 := by omega
  have lower : n - (n - k) = k := by omega
  unfold binomialForm
  rw [if_neg (Int.not_le.2 hn), if_neg (Int.not_le.2 hn)]
  rcases Int.lt_or_le k 0 with hk | hk
  · rw [if_neg (Int.not_le.2 hk)]
    by_cases low : k ≤ n
    · rw [if_pos (by omega), if_pos low, upper]
    · rw [if_neg (by omega), if_neg (by omega), if_neg low]
  · rw [if_neg (by omega), if_pos (by omega), if_pos hk, upper', lower]

/-- **What is chosen and what is left can change places.** -/
lemma coefficient_symm (n k : Int) : coefficient n (n - k) = coefficient n k := by
  unfold coefficient
  rcases Int.lt_or_le n 0 with hn | hn
  · rw [binomialForm_symm hn]
  · unfold binomialForm
    rw [if_pos hn, if_pos hn]
    by_cases out : k < 0 ∨ n < k
    · rw [if_pos out, if_pos (by omega)]
    · have parts : n.toNat = (n - k).toNat + k.toNat := by omega
      rw [if_neg out, if_neg (by omega)]
      exact congrArg (fun c : ℕ => withSign false c) (Nat.choose_symm_of_eq_add parts)

lemma coefficient_eq_zero {n k : Int} (hk : k < 0) (h : n < k ∨ 0 ≤ n) : coefficient n k = 0 := by
  have outside : binomialForm n k = .zero := by
    unfold binomialForm
    by_cases hn : 0 ≤ n
    · rw [if_pos hn, if_pos (.inl hk)]
    · rw [if_neg hn, if_neg (by omega), if_neg (by omega)]
  rw [coefficient, outside]
  rfl

/-- The sign is that of the power of `-1`. -/
lemma withSign_odd (k n : ℕ) : withSign ((k : Int) % 2 = 1) n = Int.negOnePow k • (n : Int) := by
  rcases Nat.even_or_odd k with hk | hk
  · have even : Int.negOnePow k = 1 := Int.negOnePow_even k (by exact_mod_cast hk)
    have : ¬ (k : Int) % 2 = 1 := by
      have := Nat.even_iff.1 hk
      omega
    simp [withSign, even, this]
  · have odd : Int.negOnePow k = -1 := Int.negOnePow_odd k (by exact_mod_cast hk)
    have : (k : Int) % 2 = 1 := by
      have := Nat.odd_iff.1 hk
      omega
    simp [withSign, odd, this]

/-- With a natural lower argument it is the generalised coefficient of the integers. -/
lemma coefficient_natCast (n : Int) (k : ℕ) : coefficient n k = Ring.choose n k := by
  unfold coefficient binomialForm
  by_cases hn : 0 ≤ n
  · obtain ⟨m, rfl⟩ := Int.eq_ofNat_of_zero_le hn
    rw [if_pos hn, Ring.choose_natCast]
    split_ifs with h
    · rw [Nat.choose_eq_zero_of_lt (by omega)]
      rfl
    · rfl
  · obtain ⟨m, rfl⟩ : ∃ m : ℕ, n = -(m + 1 : ℕ) := ⟨(-n - 1).toNat, by omega⟩
    have upper : (- -((m + 1 : ℕ) : Int) + k - 1).toNat = m + k := by omega
    have reflected : ((m + 1 : ℕ) : Int) + k - 1 = (m + k : ℕ) := by omega
    rw [if_neg hn, if_pos (by omega), upper, Int.toNat_natCast, Ring.choose_neg, reflected,
      Ring.choose_natCast]
    exact withSign_odd k _

/-- The left edge. To its left there is nothing, until the reflected arguments begin. -/
lemma coefficient_zero (n : Int) : coefficient n 0 = 1 := by
  rw [← Nat.cast_zero, coefficient_natCast, Ring.choose_zero_right]

lemma coefficient_pascal_of_nonneg {n k : Int} (hk : 0 ≤ k) (tip : n ≠ 0 ∨ k ≠ 0) :
    coefficient n k = coefficient (n - 1) k + coefficient (n - 1) (k - 1) := by
  obtain ⟨j, rfl⟩ := Int.eq_ofNat_of_zero_le hk
  cases j with
  | zero =>
    have outside : coefficient (n - 1) (0 - 1) = 0 := coefficient_eq_zero (by omega) (by omega)
    rw [Nat.cast_zero, coefficient_zero, coefficient_zero, outside, Int.add_zero]
  | succ j =>
    have before : ((j + 1 : ℕ) : Int) - 1 = j := by omega
    have pascal := Ring.choose_succ_succ (n - 1) j
    rw [Int.sub_add_cancel] at pascal
    rw [before, coefficient_natCast, coefficient_natCast, coefficient_natCast, pascal]
    exact Int.add_comm _ _

/-- **A coefficient is the sum of the two above it**, except at the tip. -/
lemma coefficient_pascal {n k : Int} (tip : n ≠ 0 ∨ k ≠ 0) :
    coefficient n k = coefficient (n - 1) k + coefficient (n - 1) (k - 1) := by
  rcases Int.lt_or_le k 0 with hk | hk
  · rcases Int.lt_or_le n k with hn | hn
    · -- the gap between the two half planes
      have gap {n k : Int} (hk : k < 0) (hn : n < k) : coefficient n k = 0 :=
        coefficient_eq_zero hk (.inl hn)
      rw [gap hk hn, gap hk (by omega), gap (k := k - 1) (by omega) (by omega), Int.add_zero]
    · -- what is left is a number of things, and the two above change places
      have law := coefficient_pascal_of_nonneg (n := n) (k := n - k) (by omega) (by omega)
      have left : n - k - 1 = n - 1 - k := by omega
      have right : n - k = n - 1 - (k - 1) := by omega
      rw [coefficient_symm, left, coefficient_symm, right, coefficient_symm] at law
      rw [law]
      exact Int.add_comm _ _
  · exact coefficient_pascal_of_nonneg hk tip

/-- **The extended binomial coefficient is symmetric and keeps Pascal's rule on all integers.** With
a natural lower argument it is the generalised coefficient of the integers; to choose `k` and to
choose `n - k` is the same; and every coefficient but the tip is the sum of the two above it. Each
is found unless its own arguments have too many factors. -/
theorem binomial_symm_and_pascal (n k : Int) :
    (∀ j : ℕ, k = j → ¬ TooWide n k → binomial n k = .ok (Ring.choose n j)) ∧
      (¬ TooWide n k → ∃ c, binomial n k = .ok c ∧ binomial n (n - k) = .ok c) ∧
      ((n, k) ≠ (0, 0) → ¬ TooWide n k → ¬ TooWide (n - 1) k → ¬ TooWide (n - 1) (k - 1) →
        ∃ a b, binomial (n - 1) k = .ok a ∧ binomial (n - 1) (k - 1) = .ok b ∧
          binomial n k = .ok (a + b)) := by
  refine ⟨?_, fun h => ⟨coefficient n k, binomial_eq_ok h, ?_⟩, fun tip h left right => ?_⟩
  · rintro j rfl h
    rw [binomial_eq_ok h, coefficient_natCast]
  · rw [binomial_eq_ok (mt tooWide_symm.1 h), coefficient_symm]
  · refine ⟨_, _, binomial_eq_ok left, binomial_eq_ok right, ?_⟩
    rw [binomial_eq_ok h, coefficient_pascal]
    rwa [Ne, Prod.mk.injEq, not_and_or] at tip

/-- Three coefficients whose arguments have to be reflected. -/
theorem binomial_symm_and_pascal_reflected :
    (¬ TooWide (-2) (-5) ∧ ¬ TooWide (-3) (-5) ∧ ¬ TooWide (-3) (-6)) ∧
      binomial (-2) (-5) = .ok (-4) ∧ binomial (-2) 3 = .ok (-4) ∧
      ∃ a b : Int, binomial (-3) (-5) = .ok a ∧ binomial (-3) (-6) = .ok b ∧ a + b = -4 := by
  have narrow : ¬ TooWide (-2) (-5) ∧ ¬ TooWide (-3) (-5) ∧ ¬ TooWide (-3) (-6) := by
    unfold TooWide
    decide
  have value : binomial (-2) (-5) = .ok (-4) := by decide
  obtain ⟨-, symm, pascal⟩ := binomial_symm_and_pascal (-2) (-5)
  obtain ⟨c, hc, other⟩ := symm narrow.1
  obtain ⟨a, b, ha, hb, sum⟩ := pascal (by decide) narrow.1 narrow.2.1 narrow.2.2
  obtain rfl : c = -4 := Except.ok.inj (hc.symm.trans value)
  exact ⟨narrow, hc, other, a, b, ha, hb, Except.ok.inj (sum.symm.trans value)⟩

end Arith

end SeqAsm
