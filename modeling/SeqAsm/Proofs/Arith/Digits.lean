import Mathlib
import SeqAsm.Proofs.Arith.Division

/-!
What digit sums and digital roots mean.

Every digit but the last counts `b` times as much in a number as in the number without its last
digit, and once in the sum; so a number and its digit sum differ by a multiple of `b - 1`. The sum
of a positive number is positive. Both facts survive when the sum is taken again, and together they
determine the one digit that is left in the end.
-/

namespace SeqAsm

namespace Arith

variable {b n : ℕ}

lemma digitSum_of_lt (hb : 2 ≤ b) (h : n < b) : digitSum b n = n := by
  rw [digitSum_eq b n hb, Nat.mod_eq_of_lt h, Nat.div_eq_of_lt h, digitSum_zero, Nat.add_zero]

lemma exists_eq_digitSum_add (hb : 2 ≤ b) (n : ℕ) : ∃ k, n = digitSum b n + (b - 1) * k := by
  obtain ⟨c, rfl⟩ : ∃ c, b = c + 1 := ⟨b - 1, by omega⟩
  induction n using Nat.strongRecOn with
  | ind n ih =>
    by_cases h : n < c + 1
    · exact ⟨0, by rw [digitSum_of_lt hb h, Nat.mul_zero, Nat.add_zero]⟩
    · obtain ⟨k, hk⟩ := ih (n / (c + 1)) (Nat.div_lt_self (by omega) hb)
      refine ⟨n / (c + 1) + k, ?_⟩
      rw [Nat.add_sub_cancel] at hk ⊢
      calc
        n = n % (c + 1) + (c + 1) * (n / (c + 1)) := (Nat.mod_add_div n (c + 1)).symm
        _ = n % (c + 1) + n / (c + 1) + c * (n / (c + 1)) := by ring
        _ = n % (c + 1) + (digitSum (c + 1) (n / (c + 1)) + c * k) + c * (n / (c + 1)) := by
          rw [← hk]
        _ = digitSum (c + 1) n + c * (n / (c + 1) + k) := by
          rw [digitSum_eq (c + 1) n hb]
          ring

lemma digitSum_pos (hb : 2 ≤ b) (hn : n ≠ 0) : 0 < digitSum b n := by
  induction n using Nat.strongRecOn with
  | ind n ih =>
    rw [digitSum_eq b n hb]
    by_cases last : n % b = 0
    · have more : n / b ≠ 0 := by
        intro none
        have parts := Nat.mod_add_div n b
        rw [last, none, Nat.mul_zero] at parts
        exact hn parts.symm
      exact Nat.add_pos_right _ (ih (n / b) (Nat.div_lt_self (Nat.pos_of_ne_zero hn) hb) more)
    · omega

lemma digitSum_append {r : ℕ} (hb : 2 ≤ b) (n : ℕ) (hr : r < b) :
    digitSum b (b * n + r) = digitSum b n + r := by
  rw [digitSum_eq b _ hb, Nat.mul_add_mod, Nat.mod_eq_of_lt hr, Nat.mul_add_div (by omega),
    Nat.div_eq_of_lt hr, Nat.add_zero, Nat.add_comm]

/-! ### Digital roots -/

/-- What is kept when the digit sum is taken. -/
lemma digitSum_sub_one_mod (hb : 2 ≤ b) (hn : n ≠ 0) :
    (digitSum b n - 1) % (b - 1) = (n - 1) % (b - 1) := by
  obtain ⟨k, hk⟩ := exists_eq_digitSum_add hb n
  have positive := digitSum_pos hb hn
  have before : n - 1 = digitSum b n - 1 + (b - 1) * k := by omega
  rw [before, Nat.add_mul_mod_self_left]

lemma digitalRoot_zero (b : ℕ) : digitalRoot b 0 = 0 := by
  rw [digitalRoot, dif_pos (by rw [digitSum_zero]; omega), digitSum_zero]

lemma digitalRoot_eq (hb : 2 ≤ b) (hn : n ≠ 0) : digitalRoot b n = 1 + (n - 1) % (b - 1) := by
  fun_induction digitalRoot b n with
  | case1 n last =>
    have positive := digitSum_pos hb hn
    rw [← digitSum_sub_one_mod hb hn, Nat.mod_eq_of_lt (by omega)]
    omega
  | case2 n more ih => rw [ih (digitSum_pos hb hn).ne', digitSum_sub_one_mod hb hn]

/-! ### The operations -/

section

variable {base : Int}

lemma apply_dgs (hb : 2 ≤ base) (n : Int) :
    apply .dgs n base = .ok (withSign (n < 0) (digitSum base.toNat n.natAbs)) :=
  if_neg (Int.not_lt.2 hb)

lemma apply_dgs_natCast (hb : 2 ≤ b) (n : ℕ) : apply .dgs n b = .ok (digitSum b n : Int) := by
  have sign : withSign ((n : Int) < 0) (digitSum b n) = digitSum b n :=
    if_neg (by simp)
  rw [apply_dgs (by omega), Int.toNat_natCast, Int.natAbs_natCast, sign]

lemma apply_dgr (hb : 2 ≤ base) (n : Int) :
    apply .dgr n base = .ok (withSign (n < 0) (digitalRoot base.toNat n.natAbs)) :=
  if_neg (Int.not_lt.2 hb)

/-- **Digit sums and digital roots mean what they mean for numbers.** The digit sum of an integer
has its sign, its magnitude leaves the same remainder by `base - 1` and is not larger, and one more
digit adds that digit to it. The digital root is the sign of the integer before the one digit from
`1` to `base - 1` that leaves the same remainder. -/
theorem digit_sum_and_root (hb : 2 ≤ base) :
    (∀ n : Int, ∃ s, apply .dgs n base = .ok s ∧ s.sign = n.sign ∧
      |s| ≡ |n| [ZMOD base - 1] ∧ |s| ≤ |n|) ∧
    (∀ m r : Int, 0 ≤ m → 0 ≤ r → r < base → ∃ s, apply .dgs m base = .ok s ∧
      apply .dgs (base * m + r) base = .ok (s + r)) ∧
    ∀ n : Int, apply .dgr n base =
      .ok (if n = 0 then 0 else n.sign * (1 + (|n| - 1) % (base - 1))) := by
  obtain ⟨b, rfl⟩ := Int.eq_ofNat_of_zero_le (show 0 ≤ base by omega)
  have two : 2 ≤ b := by omega
  have less : ((b - 1 : ℕ) : Int) = b - 1 := by omega
  refine ⟨fun n => ⟨_, apply_dgs hb n, ?_, ?_, ?_⟩, fun m r hm hr hrb => ?_, fun n => ?_⟩
  · rcases eq_or_ne n 0 with rfl | hn
    · rw [Int.natAbs_zero, digitSum_zero]
      rfl
    · exact sign_withSign hn (digitSum_pos two (Int.natAbs_ne_zero.2 hn)).ne'
  · obtain ⟨k, hk⟩ := exists_eq_digitSum_add two n.natAbs
    have cast : (n.natAbs : Int) = digitSum b n.natAbs + (b - 1 : ℕ) * k := by exact_mod_cast hk
    rw [abs_withSign, Int.toNat_natCast, Int.abs_eq_natAbs]
    refine Int.modEq_iff_dvd.2 ⟨k, ?_⟩
    rw [← less, cast, add_sub_cancel_left]
  · rw [abs_withSign, Int.abs_eq_natAbs]
    exact_mod_cast digitSum_le _ _
  · obtain ⟨m, rfl⟩ := Int.eq_ofNat_of_zero_le hm
    obtain ⟨r, rfl⟩ := Int.eq_ofNat_of_zero_le hr
    refine ⟨_, apply_dgs_natCast two m, ?_⟩
    have sum := apply_dgs_natCast two (b * m + r)
    rw [digitSum_append two m (by omega)] at sum
    exact_mod_cast sum
  · rw [apply_dgr hb]
    split
    · rename_i hn
      rw [hn, Int.natAbs_zero, digitalRoot_zero]
      rfl
    · rename_i hn
      have magnitude : ((n.natAbs - 1 : ℕ) : Int) = |n| - 1 := by
        rw [Int.abs_eq_natAbs]
        omega
      rw [withSign_eq_sign_mul hn, Int.toNat_natCast,
        digitalRoot_eq two (Int.natAbs_ne_zero.2 hn), Int.natCast_add, Int.natCast_mod, less,
        magnitude]
      rfl

/-- Base two: there is one digit to be left, and three binary digits of six. -/
theorem digit_sum_and_root_binary : (2 : Int) ≤ 2 ∧ (∃ s, apply .dgs (-6) 2 = .ok s ∧
    s.sign = (-6 : Int).sign ∧ |s| ≡ |-6| [ZMOD 2 - 1] ∧ |s| ≤ |-6|) ∧
    (∃ s, apply .dgs 3 2 = .ok s ∧ apply .dgs 7 2 = .ok (s + 1)) ∧
    apply .dgr (-6) 2 = .ok (-1) := by
  have base : (2 : Int) ≤ 2 := le_rfl
  obtain ⟨sum, more, root⟩ := digit_sum_and_root base
  exact ⟨base, sum (-6), more 3 1 (by decide) (by decide) (by decide), root (-6)⟩

end

end Arith

end SeqAsm
