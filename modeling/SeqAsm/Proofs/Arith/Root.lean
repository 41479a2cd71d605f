import Mathlib
import SeqAsm.Arith.Basic

/-!
Whole-number roots and logarithms are exact.

Three ways lead to a root: a number that is its own root, the square root decided bit by bit, and
bisection for the higher degrees. All of them end at the one number whose power is not above `n`
while that of its successor is. A bisection moves either bound past the middle and keeps its answer
apart from them; what it never loses is that the power of the answer is not above `n`, that the
power of the upper bound is, and that no number between the answer and the lower bound has been
left out.
-/

namespace SeqAsm

namespace Arith

variable {b d n low stop best mid : ℕ}

/-- The largest number whose power is not above `n`. -/
def IsFloorRoot (d n r : ℕ) : Prop := r ^ d ≤ n ∧ n < (r + 1) ^ d

/-! ### Square roots -/

lemma isFloorRoot_squareRoot (n : ℕ) : IsFloorRoot 2 n (squareRoot n) := by
  have bits : n.log2 + 1 ≤ (n.log2 / 2 + 1) * 2 := by omega
  refine rootBits_spec 2 n (n.log2 / 2 + 1) 0 (Nat.zero_le n) ?_
  calc
    n < 2 ^ (n.log2 + 1) := Nat.lt_log2_self
    _ ≤ 2 ^ ((n.log2 / 2 + 1) * 2) := Nat.pow_le_pow_right two_pos bits
    _ = (2 ^ (n.log2 / 2 + 1)) ^ 2 := Nat.pow_mul 2 _ 2
    _ = (0 + 1 <<< (n.log2 / 2 + 1)) ^ 2 := by rw [Nat.one_shiftLeft, Nat.zero_add]

/-! ### Bisection -/

lemma isFloorRoot_of_eq (hd : d ≠ 0) (h : mid ^ d = n) : IsFloorRoot d n mid :=
  ⟨h.le, h ▸ Nat.pow_lt_pow_left (Nat.lt_succ_self mid) hd⟩

/-- What a bisection knows of the root. -/
structure Encloses (d n low stop best : ℕ) : Prop where
  reached : best ^ d ≤ n
  exceeded : n < stop ^ d
  joined : low ≤ best + 1

namespace Encloses

lemma start (hd : d ≠ 0) (n : ℕ) : Encloses d n 0 (n + 1) 0 where
  reached := by
    rw [Nat.zero_pow (Nat.pos_of_ne_zero hd)]
    exact Nat.zero_le n
  exceeded := (Nat.lt_succ_self n).trans_le (Nat.le_self_pow hd (n + 1))
  joined := Nat.zero_le 1

lemma above (h : Encloses d n low stop best) (small : mid ^ d < n) :
    Encloses d n (mid + 1) stop mid where
  reached := small.le
  exceeded := h.exceeded
  joined := le_rfl

lemma below (h : Encloses d n low stop best) (large : n < mid ^ d) :
    Encloses d n low mid best where
  reached := h.reached
  exceeded := large
  joined := h.joined

lemma isFloorRoot (h : Encloses d n low stop best) (closed : stop ≤ low) :
    IsFloorRoot d n best :=
  ⟨h.reached, h.exceeded.trans_le (Nat.pow_le_pow_left (closed.trans h.joined) d)⟩

end Encloses

lemma isFloorRoot_bisect (hd : d ≠ 0) (h : Encloses d n low stop best) :
    IsFloorRoot d n (bisect d n low stop best) := by
  fun_induction bisect d n low stop best with
  | case1 low stop best _ mid value exact => exact isFloorRoot_of_eq hd exact
  | case2 low stop best _ mid value _ small ih => exact ih (h.above small)
  | case3 low stop best _ mid value different small ih =>
    exact ih (h.below (Nat.lt_of_le_of_ne (Nat.le_of_not_lt small) (Ne.symm different)))
  | case4 low stop best closed => exact h.isFloorRoot (Nat.le_of_not_lt closed)

/-! ### Any degree -/

/-- Zero and one are their own roots, and any number is its own first root. -/
lemma isFloorRoot_self (hd : d ≠ 0) (h : d = 1 ∨ n < 2) : IsFloorRoot d n n := by
  rcases h with rfl | h
  · exact isFloorRoot_of_eq hd (Nat.pow_one n)
  · obtain rfl | rfl : n = 0 ∨ n = 1 := by omega
    · exact isFloorRoot_of_eq hd (Nat.zero_pow (Nat.pos_of_ne_zero hd))
    · exact isFloorRoot_of_eq hd (Nat.one_pow d)

lemma isFloorRoot_floorRoot (hd : d ≠ 0) (n : ℕ) : IsFloorRoot d n (floorRoot d n) := by
  unfold floorRoot
  split
  · rename_i short
    exact isFloorRoot_self hd short
  · split
    · rename_i square
      exact square ▸ isFloorRoot_squareRoot n
    · exact isFloorRoot_bisect hd (.start hd n)

/-! ### Logarithms -/

/-- Each division counts one. -/
lemma floorLogFrom_eq (hb : 2 ≤ b) (n c : ℕ) : floorLogFrom b n c = c + Nat.log b n := by
  fun_induction floorLogFrom b n c with
  | case1 n c last =>
    rw [Nat.log_of_lt (by omega), Nat.add_zero]
  | case2 n c more ih =>
    rw [ih, Nat.log_of_one_lt_of_le (n := n) (by omega) (by omega)]
    omega

lemma floorLog_eq (hb : 2 ≤ b) (n : ℕ) : floorLog b n = Nat.log b n := by
  rw [floorLog, floorLogFrom_eq hb, Nat.zero_add]

/-- **Roots and logarithms are exact floors.** The root of any number that is not negative, of any
degree that is positive and fits in 32 bits, is the largest number whose power is not above it; and
the logarithm of any positive number, to any base of at least two, is the largest exponent with
which the power of the base is not above it. -/
theorem root_and_logarithm_exact :
    (∀ n d : Int, 0 ≤ n → 1 ≤ d → d ≤ 2 ^ 32 - 1 → ∃ r : Int, root n d = .ok r ∧ 0 ≤ r ∧
      r ^ d.toNat ≤ n ∧ n < (r + 1) ^ d.toNat) ∧
    ∀ n b : Int, 1 ≤ n → 2 ≤ b → ∃ c : ℕ, logarithm n b = .ok c ∧ b ^ c ≤ n ∧
      n < b ^ (c + 1) := by
  constructor
  · intro n d hn hd hd'
    obtain ⟨n, rfl⟩ := Int.eq_ofNat_of_zero_le hn
    have floor := isFloorRoot_floorRoot (d := d.toNat) (by omega) n
    refine ⟨floorRoot d.toNat n, ?_, Int.natCast_nonneg _, by exact_mod_cast floor.1,
      by exact_mod_cast floor.2⟩
    rw [root, if_neg (by omega), if_neg (by omega), if_neg (by rw [maxExponent]; omega)]
    rfl
  · intro n b hn hb
    obtain ⟨n, rfl⟩ := Int.eq_ofNat_of_zero_le (show 0 ≤ n by omega)
    obtain ⟨b, rfl⟩ := Int.eq_ofNat_of_zero_le (show 0 ≤ b by omega)
    have base : 2 ≤ b := by omega
    have below := Nat.pow_log_le_self b (x := n) (by omega)
    have above := Nat.lt_pow_succ_log_self (b := b) (by omega) n
    refine ⟨Nat.log b n, ?_, by exact_mod_cast below, by exact_mod_cast above⟩
    rw [logarithm, if_neg (by omega), if_neg (by omega), Int.toNat_natCast, Int.toNat_natCast,
      floorLog_eq base]

/-- One below a cube, and one below a power of ten. -/
theorem root_and_logarithm_exact_below :
    ((0 : Int) ≤ 26 ∧ (1 : Int) ≤ 3 ∧ (3 : Int) ≤ 2 ^ 32 - 1) ∧ root 26 3 = .ok 2 ∧
      ((1 : Int) ≤ 999 ∧ (2 : Int) ≤ 10) ∧ logarithm 999 10 = .ok 2 := by
  have degree : (0 : Int) ≤ 26 ∧ (1 : Int) ≤ 3 ∧ (3 : Int) ≤ 2 ^ 32 - 1 := by decide
  have base : (1 : Int) ≤ 999 ∧ (2 : Int) ≤ 10 := by decide
  obtain ⟨r, hr, positive, low, high⟩ :=
    root_and_logarithm_exact.1 26 3 degree.1 degree.2.1 degree.2.2
  obtain ⟨c, hc, below, above⟩ := root_and_logarithm_exact.2 999 10 base.1 base.2
  have r_lt : r < 3 := lt_of_pow_lt_pow_left₀ 3 (by decide) (low.trans_lt (by decide))
  have lt_r : 2 < r + 1 := lt_of_pow_lt_pow_left₀ 3 (by omega) (lt_trans (by decide) high)
  have c_lt : c < 3 := (pow_lt_pow_iff_right₀ (by decide)).1 (below.trans_lt (by decide))
  have lt_c : 2 < c + 1 := (pow_lt_pow_iff_right₀ (by decide)).1 (lt_trans (by decide) above)
  obtain rfl : r = 2 := by omega
  obtain rfl : c = 2 := by omega
  exact ⟨degree, hr, base, hc⟩

end Arith

end SeqAsm
