/-!
Digit sums and digital roots of natural numbers. The digital root is the digit sum taken again
and again until one digit is left; each sum but the last is smaller than the number before.
-/

namespace SeqAsm.Arith

/-- Adds the digits of `n` in base `b` to `total`. A base below two has no digits. -/
def addDigits (b n total : Nat) : Nat :=
  if _h : n = 0 ∨ b < 2 then total else addDigits b (n / b) (total + n % b)
termination_by n
decreasing_by exact Nat.div_lt_self (by omega) (by omega)

def digitSum (b n : Nat) : Nat := addDigits b n 0

theorem addDigits_eq (b n total : Nat) : addDigits b n total = total + digitSum b n := by
  have key : ∀ t, addDigits b n t = t + addDigits b n 0 := by
    induction n using Nat.strongRecOn with
    | ind n ih =>
      intro t
      rw [addDigits, addDigits.eq_def b n 0]
      split
      · simp
      · rename_i h
        have hlt : n / b < n := Nat.div_lt_self (by omega) (by omega)
        rw [ih _ hlt (t + n % b), ih _ hlt (0 + n % b)]
        omega
  exact key total

theorem digitSum_zero (b : Nat) : digitSum b 0 = 0 := by
  simp [digitSum, addDigits]

theorem digitSum_eq (b n : Nat) (hb : 2 ≤ b) :
    digitSum b n = n % b + digitSum b (n / b) := by
  by_cases hn : n = 0
  · subst hn
    simp [digitSum_zero]
  · rw [digitSum, addDigits, dif_neg (by omega), addDigits_eq]
    omega

theorem digitSum_le (b n : Nat) : digitSum b n ≤ n := by
  induction n using Nat.strongRecOn with
  | ind n ih =>
    by_cases h : n = 0 ∨ b < 2
    · rw [digitSum, addDigits, dif_pos h]
      omega
    · have hlt : n / b < n := Nat.div_lt_self (by omega) (by omega)
      have hdm := Nat.div_add_mod n b
      have hmul : n / b ≤ b * (n / b) := Nat.le_mul_of_pos_left _ (by omega)
      rw [digitSum_eq b n (by omega)]
      have := ih _ hlt
      omega

/-- A number of two digits or more is larger than its digit sum. -/
theorem digitSum_lt (b n : Nat) (hb : 2 ≤ b) (hn : b ≤ n) : digitSum b n < n := by
  have hpos : 0 < n / b := Nat.div_pos hn (by omega)
  have hdm := Nat.div_add_mod n b
  have hmul : 2 * (n / b) ≤ b * (n / b) := Nat.mul_le_mul_right _ hb
  have hle := digitSum_le b (n / b)
  rw [digitSum_eq b n hb]
  omega

/-- The digit sum taken until it is below the base. A base below two leaves the first sum. -/
def digitalRoot (b n : Nat) : Nat :=
  if _h : digitSum b n < b ∨ b < 2 then digitSum b n else digitalRoot b (digitSum b n)
termination_by n
decreasing_by
  have := digitSum_le b n
  exact digitSum_lt b n (by omega) (by omega)

end SeqAsm.Arith
