import Mathlib
import SeqAsm.Arith.Basic

/-!
Truncated division, and the removal of a factor.

Quotient and remainder are computed on magnitudes and get their signs from the operands, so their
law is that of natural numbers with signs put before. A factor is removed by dividing for as long
as the magnitude changes. It changes just when the division is exact, there is something to divide
and the divisor is neither zero nor a unit; so each step takes one factor out, and none is left in
the end.
-/

namespace SeqAsm

namespace Arith

variable {x y : Int} {n : ℕ} {s : Bool}

/-! ### Magnitudes with a sign -/

@[simp] lemma abs_withSign (s : Bool) (n : ℕ) : |withSign s n| = n := by
  rw [Int.abs_eq_natAbs, natAbs_withSign]

@[simp] lemma withSign_eq_zero : withSign s n = 0 ↔ n = 0 := by
  rw [← Int.natAbs_eq_zero, natAbs_withSign]

@[simp] lemma withSign_natAbs (x : Int) : withSign (x < 0) x.natAbs = x := by
  by_cases h : x < 0
  · rw [withSign, if_pos (decide_eq_true h)]
    omega
  · rw [withSign, if_neg (by simpa using h)]
    omega

lemma withSign_add (s : Bool) (m n : ℕ) : withSign s m + withSign s n = withSign s (m + n) := by
  cases s
  · exact (Nat.cast_add m n).symm
  · exact (Int.neg_add.symm.trans (congrArg Neg.neg (Nat.cast_add m n).symm))

lemma withSign_mul (s t : Bool) (m n : ℕ) :
    withSign s m * withSign t n = withSign (s != t) (m * n) := by
  cases s <;> cases t <;> simp [withSign]

lemma withSign_eq_sign_mul (hx : x ≠ 0) (n : ℕ) : withSign (x < 0) n = x.sign * n := by
  rcases Int.lt_or_gt_of_ne hx with hx | hx
  · rw [withSign, if_pos (decide_eq_true hx), Int.sign_eq_neg_one_of_neg hx, neg_one_mul]
  · rw [withSign, if_neg (by simpa using hx.le), Int.sign_eq_one_of_pos hx, one_mul]

lemma sign_withSign (hx : x ≠ 0) (hn : n ≠ 0) : (withSign (x < 0) n).sign = x.sign := by
  rw [withSign_eq_sign_mul hx, Int.sign_mul, Int.sign_sign, Int.sign_natCast_of_ne_zero hn,
    mul_one]

/-! ### Quotient and remainder -/

lemma quotient_add_remainder (x y : Int) : x = y * quotient x y + remainder x y := by
  have signs : (decide (y < 0) != (decide (x < 0) != decide (y < 0))) = decide (x < 0) := by
    cases decide (x < 0) <;> cases decide (y < 0) <;> rfl
  calc
    x = withSign (x < 0) (y.natAbs * (x.natAbs / y.natAbs) + x.natAbs % y.natAbs) := by
      rw [Nat.div_add_mod, withSign_natAbs]
    _ = withSign (x < 0) (y.natAbs * (x.natAbs / y.natAbs)) + remainder x y :=
      (withSign_add _ _ _).symm
    _ = withSign (y < 0) y.natAbs * quotient x y + remainder x y := by
      rw [quotient, withSign_mul, signs]
    _ = y * quotient x y + remainder x y := by rw [withSign_natAbs]

lemma abs_remainder_lt (x : Int) (hy : y ≠ 0) : |remainder x y| < |y| := by
  rw [remainder, abs_withSign, Int.abs_eq_natAbs]
  exact_mod_cast Nat.mod_lt _ (Int.natAbs_pos.2 hy)

lemma remainder_eq_zero_iff : remainder x y = 0 ↔ y ∣ x := by
  rw [remainder, withSign_eq_zero, ← Nat.dvd_iff_mod_eq_zero, Int.natAbs_dvd_natAbs]

lemma remainder_sign (x y : Int) : remainder x y = 0 ∨ (remainder x y).sign = x.sign := by
  by_cases h : remainder x y = 0
  · exact .inl h
  · have hx : x ≠ 0 := by
      rintro rfl
      exact h (remainder_eq_zero_iff.2 (dvd_zero y))
    exact .inr (sign_withSign hx (mt withSign_eq_zero.2 h))

/-! ### Removing a factor -/

lemma exactQuotient_of_dvd (hy : y ≠ 0) (h : y ∣ x) : exactQuotient x y * y = x := by
  have exact := quotient_add_remainder x y
  rw [remainder_eq_zero_iff.2 h, Int.add_zero] at exact
  rw [exactQuotient, if_neg hy, if_pos (remainder_eq_zero_iff.2 h), mul_comm]
  exact exact.symm

lemma exactQuotient_of_not_dvd (h : ¬ y ∣ x) : exactQuotient x y = x := by
  rw [exactQuotient, if_neg (mt remainder_eq_zero_iff.1 h), ite_self]

lemma natAbs_exactQuotient (hy : y ≠ 0) (h : y ∣ x) :
    (exactQuotient x y).natAbs * y.natAbs = x.natAbs := by
  rw [← Int.natAbs_mul, exactQuotient_of_dvd hy h]

/-- When nothing is removed: there is nothing, or the divisor is zero or a unit, or it does not
divide. -/
lemma natAbs_exactQuotient_eq_iff :
    (exactQuotient x y).natAbs = x.natAbs ↔ x = 0 ∨ y.natAbs < 2 ∨ ¬ y ∣ x := by
  constructor
  · intro same
    by_contra! h
    obtain ⟨hx, hy, divides⟩ := h
    have product := natAbs_exactQuotient (by omega) divides
    rw [same] at product
    have unit : y.natAbs = 1 :=
      Nat.eq_of_mul_eq_mul_left (Int.natAbs_pos.2 hx) (product.trans (mul_one _).symm)
    omega
  · rintro (rfl | small | last)
    · have := natAbs_exactQuotient_le 0 y
      omega
    · rcases eq_or_ne y 0 with rfl | hy
      · rw [exactQuotient, if_pos rfl]
      · have unit : y.natAbs = 1 := by omega
        have divides : y ∣ x := by
          rw [← Int.natAbs_dvd, unit]
          exact one_dvd x
        have product := natAbs_exactQuotient hy divides
        rwa [unit, Nat.mul_one] at product
    · rw [exactQuotient_of_not_dvd last]

lemma removeFactor_of_unchanged (h : x = 0 ∨ y.natAbs < 2) : removeFactor x y = x := by
  rw [removeFactor, dif_pos (natAbs_exactQuotient_eq_iff.2 (h.imp_right .inl))]

/-- Each division takes one factor out, and the last number has none. -/
lemma removeFactor_spec (hy : 2 ≤ y.natAbs) (hx : x ≠ 0) :
    (∃ k : ℕ, x = removeFactor x y * y ^ k) ∧ ¬ y ∣ removeFactor x y := by
  have nonzero : y ≠ 0 := Int.natAbs_pos.1 (by omega)
  fun_induction removeFactor x y with
  | case1 x same =>
    obtain zero | small | last := natAbs_exactQuotient_eq_iff.1 same
    · exact absurd zero hx
    · omega
    · exact ⟨⟨0, by rw [pow_zero, mul_one]⟩, last⟩
  | case2 x changed ih =>
    rw [natAbs_exactQuotient_eq_iff] at changed
    push Not at changed
    have divided := exactQuotient_of_dvd nonzero changed.2.2
    have rest : exactQuotient x y ≠ 0 := by
      intro none
      rw [none, zero_mul] at divided
      exact hx divided.symm
    obtain ⟨⟨k, hk⟩, last⟩ := ih rest
    refine ⟨⟨k + 1, ?_⟩, last⟩
    calc
      x = exactQuotient x y * y := divided.symm
      _ = removeFactor (exactQuotient x y) y * y ^ k * y := by rw [← hk]
      _ = removeFactor (exactQuotient x y) y * y ^ (k + 1) := by rw [pow_succ, mul_assoc]

/-- **Repeated exact division removes the full power of the divisor.** A divisor that is neither
zero nor a unit is taken out of a number other than zero as often as it divides, and what is left
is not divisible by it any more; every other pair leaves the number alone. Quotient and remainder
are those of truncated division. -/
theorem removeFactor_exact (x y : Int) :
    (∃ q, apply .dir x y = .ok q ∧
      (2 ≤ |y| → x ≠ 0 → (∃ k : ℕ, x = q * y ^ k) ∧ ¬ y ∣ q) ∧
      (¬ (2 ≤ |y| ∧ x ≠ 0) → q = x)) ∧
    (y ≠ 0 → ∃ q r, apply .div x y = .ok q ∧ apply .mod x y = .ok r ∧ x = y * q + r ∧
      |r| < |y| ∧ (r = 0 ∨ r.sign = x.sign)) := by
  refine ⟨⟨removeFactor x y, rfl, fun hy hx => ?_, fun h => ?_⟩, fun hy => ?_⟩
  · rw [Int.abs_eq_natAbs] at hy
    exact removeFactor_spec (by omega) hx
  · rw [Int.abs_eq_natAbs] at h
    exact removeFactor_of_unchanged (by omega)
  · exact ⟨quotient x y, remainder x y, if_neg hy, if_neg hy, quotient_add_remainder x y,
      abs_remainder_lt x hy, remainder_sign x y⟩

/-- A negative divisor is taken out four times. -/
theorem removeFactor_exact_four : ((2 : Int) ≤ |-2| ∧ (-48 : Int) ≠ 0) ∧
    apply .dir (-48) (-2) = .ok (-3) ∧ (∃ k : ℕ, (-48 : Int) = -3 * (-2) ^ k) ∧ ¬ (-2 : Int) ∣ -3 := by
  have proper : (2 : Int) ≤ |-2| ∧ (-48 : Int) ≠ 0 := by decide
  have value : apply .dir (-48) (-2) = .ok (-3) := by cbv
  obtain ⟨⟨q, hq, removed, -⟩, -⟩ := removeFactor_exact (-48) (-2)
  obtain rfl : q = -3 := Except.ok.inj (hq.symm.trans value)
  exact ⟨proper, hq, removed proper.1 proper.2⟩

end Arith

end SeqAsm
