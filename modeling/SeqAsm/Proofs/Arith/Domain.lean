import Mathlib
import SeqAsm.Proofs.Arith.Binomial

/-!
Where the operations have a value.

Most operations have a value for all operands. The others refuse some, and what is reported then is
one of three kinds of cause; the table of these cases says nothing about how an operation is
computed. An operation is refused in every case of the table, no answer is a refusal of two kinds,
and whatever fails is in the table, binomial coefficients aside that are too wide to be counted. A
limit on sizes only takes values away. The value of a power is that of the rational power with what
is behind the point cut off.
-/

namespace SeqAsm

namespace Arith

/-! ### The table of refusals -/

/-- The kinds of report that an operation is refused with. -/
inductive Refusal where
  | division
  | domain
  | magnitude

namespace Refusal

/-- The kind of a cause. Others than these three are no matter of arithmetic. -/
def ofCause? : Cause → Option Refusal
  | .divisionByZero _ => some division
  | .domain _ => some domain
  | .magnitudeLimit .. => some magnitude
  | _ => none

/-- The operands that an operation refuses, by the kind of report. -/
def Due : Refusal → Operation → Int → Int → Prop
  | division, o, x, y => (o = .div ∨ o = .mod) ∧ y = 0 ∨ o = .pow ∧ x = 0 ∧ y < 0
  | domain, o, x, y =>
    o = .log ∧ (x ≤ 0 ∨ y ≤ 1) ∨ o = .nrt ∧ (x < 0 ∨ y ≤ 0 ∨ 2 ^ 32 - 1 < y) ∨
      (o = .dgs ∨ o = .dgr) ∧ y < 2
  | magnitude, o, x, y => o = .pow ∧ 2 ≤ |x| ∧ 2 ^ 32 - 1 < y

end Refusal

/-- An answer is a refusal that is reported with a cause of a kind. -/
def Refused (r : Refusal) (answer : Except Fault Int) : Prop :=
  ∃ f c, answer = .error f ∧ f.failure = .of c [] ∧ Refusal.ofCause? c = some r

variable {o : Operation} {x y v : Int} {r s : Refusal} {answer : Except Fault Int}

lemma Refused.unique (hr : Refused r answer) (hs : Refused s answer) : r = s := by
  obtain ⟨f, c, hf, hc, kind⟩ := hr
  obtain ⟨g, d, hg, hd, kind'⟩ := hs
  obtain rfl := Except.error.inj (hf.symm.trans hg)
  cases hc.symm.trans hd
  exact Option.some.inj (kind.symm.trans kind')

lemma Refused.ne_ok (h : Refused r answer) : answer ≠ .ok v := by
  obtain ⟨f, _, rfl, -⟩ := h
  exact nofun

/-- The one fault without a report is no refusal. -/
lemma Refused.ne_tooWide (h : Refused r answer) : answer ≠ .error .binomialTooWide := by
  rintro rfl
  obtain ⟨f, c, hf, hc, -⟩ := h
  obtain rfl := Except.error.inj hf
  cases hc

/-! ### Single operations -/

lemma refused_division (o : Operation) (h : o = .div ∨ o = .mod) (x : Int) :
    Refused .division (apply o x 0) := by
  rcases h with rfl | rfl
  · exact ⟨.divisionByZero, _, rfl, rfl, rfl⟩
  · exact ⟨.divisionByZero, _, rfl, rfl, rfl⟩

lemma refused_logarithm (h : x ≤ 0 ∨ y ≤ 1) : Refused .domain (logarithm x y) := by
  unfold logarithm
  split_ifs with hx hy
  · exact ⟨.logOfNonPositive x, _, rfl, rfl, rfl⟩
  · exact ⟨.logBase y, _, rfl, rfl, rfl⟩
  · omega

lemma refused_root (h : x < 0 ∨ y ≤ 0 ∨ 2 ^ 32 - 1 < y) : Refused .domain (root x y) := by
  unfold root maxExponent
  split_ifs with hx hy hy'
  · exact ⟨.rootOfNegative x, _, rfl, rfl, rfl⟩
  · exact ⟨.rootDegree y, _, rfl, rfl, rfl⟩
  · exact ⟨.rootDegreeTooLarge y, _, rfl, rfl, rfl⟩
  · omega

lemma refused_digits (o : Operation) (h : o = .dgs ∨ o = .dgr) (x : Int) (hy : y < 2) :
    Refused .domain (apply o x y) := by
  rcases h with rfl | rfl
  · exact ⟨.digitSumBase y, _, if_pos hy, rfl, rfl⟩
  · exact ⟨.digitalRootBase y, _, if_pos hy, rfl, rfl⟩

/-! ### Powers -/

/-- A rational number rounded toward zero. -/
def truncate (q : ℚ) : Int := if 0 ≤ q then ⌊q⌋ else ⌈q⌉

@[simp] lemma truncate_intCast (n : Int) : truncate n = n := by
  unfold truncate
  split
  · exact Int.floor_intCast n
  · exact Int.ceil_intCast n

/-- Nothing is left of a fraction. -/
lemma truncate_eq_zero {q : ℚ} (h : |q| < 1) : truncate q = 0 := by
  obtain ⟨low, high⟩ := abs_lt.1 h
  unfold truncate
  split
  · rename_i positive
    exact Int.floor_eq_zero_iff.2 ⟨positive, high⟩
  · rename_i negative
    exact Int.ceil_eq_zero_iff.2 ⟨low, (lt_of_not_ge negative).le⟩

lemma abs_zpow_lt_one (hx : 2 ≤ |x|) (hy : y < 0) : |(x : ℚ) ^ y| < 1 := by
  have base : (1 : ℚ) < |(x : ℚ)| := by
    exact_mod_cast (show 1 < |x| by omega)
  rw [abs_zpow]
  exact zpow_lt_one_of_neg₀ base hy

lemma zpow_of_nonneg (hy : 0 ≤ y) : (x : ℚ) ^ y = ((x ^ y.toNat : Int) : ℚ) := by
  obtain ⟨n, rfl⟩ := Int.eq_ofNat_of_zero_le hy
  rw [Int.toNat_natCast, Int.cast_pow]
  exact zpow_natCast (x : ℚ) n

lemma neg_one_zpow (y : Int) : (-1 : ℚ) ^ y = ((if y % 2 = 0 then 1 else -1 : Int) : ℚ) := by
  split
  · rename_i even
    rw [(Int.even_iff.2 even).neg_one_zpow, Int.cast_one]
  · rename_i odd
    rw [(Int.not_even_iff_odd.1 (mt Int.even_iff.1 odd)).neg_one_zpow, Int.cast_neg, Int.cast_one]

lemma two_le_abs_iff : 2 ≤ |x| ↔ x ≠ 0 ∧ x ≠ 1 ∧ x ≠ -1 := by
  rw [Int.abs_eq_natAbs]
  omega

lemma refused_power_zero (hy : y < 0) : Refused .division (power 0 y) := by
  refine ⟨.zeroToNegativePower, _, ?_, rfl, rfl⟩
  rw [power, if_pos rfl, if_neg (by omega), if_neg (by omega)]

lemma refused_power_large (hx : 2 ≤ |x|) (hy : 2 ^ 32 - 1 < y) :
    Refused .magnitude (power x y) := by
  obtain ⟨zero, one, negative⟩ := two_le_abs_iff.1 hx
  refine ⟨.tooLarge (bitLength x * y.toNat), _, ?_, rfl, rfl⟩
  rw [power, if_neg zero, if_neg one, if_neg negative, if_neg (by omega),
    if_pos (by unfold maxExponent; omega)]

/-- **A power is the rational power rounded toward zero.** -/
lemma power_eq_ok (zero : ¬ (x = 0 ∧ y < 0)) (large : ¬ (2 ≤ |x| ∧ 2 ^ 32 - 1 < y)) :
    power x y = .ok (truncate ((x : ℚ) ^ y)) := by
  rw [two_le_abs_iff] at large
  unfold power maxExponent
  split_ifs with none positive nought one minus even negative high
  · rw [none, Int.cast_zero, zero_zpow y positive.ne']
    exact congrArg _ (truncate_intCast 0).symm
  · rw [nought, zpow_zero]
    exact congrArg _ (truncate_intCast 1).symm
  · omega
  · rw [one, Int.cast_one, one_zpow]
    exact congrArg _ (truncate_intCast 1).symm
  · rw [minus, Int.cast_neg, Int.cast_one, neg_one_zpow, if_pos even, truncate_intCast]
  · rw [minus, Int.cast_neg, Int.cast_one, neg_one_zpow, if_neg even, truncate_intCast]
  · rw [truncate_eq_zero (abs_zpow_lt_one (two_le_abs_iff.2 ⟨none, one, minus⟩) negative)]
  · exact absurd ⟨⟨none, one, minus⟩, high⟩ large
  · rw [zpow_of_nonneg (Int.not_lt.1 negative), truncate_intCast]
    rfl

/-! ### All operations -/

/-- What the table lists is refused. -/
lemma refused_of_due (h : r.Due o x y) : Refused r (apply o x y) := by
  cases r with
  | division =>
    rcases h with ⟨ho, rfl⟩ | ⟨rfl, rfl, hy⟩
    · exact refused_division o ho x
    · exact refused_power_zero hy
  | domain =>
    rcases h with ⟨rfl, h⟩ | ⟨rfl, h⟩ | ⟨ho, hy⟩
    · exact refused_logarithm h
    · exact refused_root h
    · exact refused_digits o ho x hy
  | magnitude =>
    obtain ⟨rfl, hx, hy⟩ := h
    exact refused_power_large hx hy

/-- What the table does not list has a value. -/
lemma exists_apply_eq_ok (free : ∀ r : Refusal, ¬ r.Due o x y) (narrow : o = .bin → ¬ TooWide x y) :
    ∃ v, apply o x y = .ok v := by
  have division := free .division
  have domain := free .domain
  have magnitude := free .magnitude
  unfold Refusal.Due at division domain magnitude
  cases o with
  | div => exact ⟨quotient x y, if_neg fun hy => division (.inl ⟨.inl rfl, hy⟩)⟩
  | mod => exact ⟨remainder x y, if_neg fun hy => division (.inl ⟨.inr rfl, hy⟩)⟩
  | pow =>
    exact ⟨_, power_eq_ok (fun h => division (.inr ⟨rfl, h⟩)) fun h => magnitude ⟨rfl, h⟩⟩
  | bin => exact ⟨_, binomial_eq_ok (narrow rfl)⟩
  | log =>
    have allowed : ¬ (x ≤ 0 ∨ y ≤ 1) := fun h => domain (.inl ⟨rfl, h⟩)
    refine ⟨floorLog y.toNat x.toNat, ?_⟩
    rw [apply, logarithm, if_neg (by omega), if_neg (by omega)]
  | nrt =>
    have allowed : ¬ (x < 0 ∨ y ≤ 0 ∨ 2 ^ 32 - 1 < y) := fun h => domain (.inr (.inl ⟨rfl, h⟩))
    refine ⟨floorRoot y.toNat x.toNat, ?_⟩
    rw [apply, root, maxExponent, if_neg (by omega), if_neg (by omega), if_neg (by omega)]
  | dgs => exact ⟨_, if_neg fun hy => domain (.inr (.inr ⟨.inl rfl, hy⟩))⟩
  | dgr => exact ⟨_, if_neg fun hy => domain (.inr (.inr ⟨.inr rfl, hy⟩))⟩
  | _ => exact ⟨_, rfl⟩

/-- Nothing else is refused. -/
lemma refused_iff : Refused r (apply o x y) ↔ r.Due o x y := by
  refine ⟨fun refused => ?_, refused_of_due⟩
  have narrow (bin : o = .bin) : ¬ TooWide x y := fun wide =>
    refused.ne_tooWide (apply_eq_tooWide.2 ⟨bin, wide⟩)
  by_contra other
  obtain ⟨s, due⟩ : ∃ s : Refusal, s.Due o x y := by
    by_contra! free
    obtain ⟨v, hv⟩ := exists_apply_eq_ok free narrow
    exact refused.ne_ok hv
  exact other (refused.unique (refused_of_due due) ▸ due)

lemma not_due_of_apply (h : apply o x y = .ok v) (r : Refusal) : ¬ r.Due o x y := fun due =>
  (refused_of_due due).ne_ok h

lemma eq_truncate_of_compute {limit : Option Int} (h : compute limit .pow x y = .ok v) :
    v = truncate ((x : ℚ) ^ y) := by
  have value : power x y = .ok v := by
    cases limit with
    | none => exact h
    | some limit => exact (compute_some_value (by decide) h).1
  have free : ∀ r : Refusal, ¬ r.Due .pow x y := not_due_of_apply value
  have exact := power_eq_ok (fun h => free .division (.inr ⟨rfl, h⟩)) fun h =>
    free .magnitude ⟨rfl, h⟩
  exact Except.ok.inj (value.symm.trans exact)

/-- **Operations fail exactly where they have no value.** Without a limit on sizes an operation is
refused with a report of a kind just for the operands that the table of refusals gives for that
kind, and has a value for all others, unless it is a binomial coefficient that is too wide. What a
limit lets through of an operation that is no plain move is the same value, and it and both operands
have fewer bits than the limit. A power is the rational power rounded toward zero. -/
theorem compute_refused_iff (o : Operation) (x y : Int) :
    (∀ r, Refused r (compute none o x y) ↔ r.Due o x y) ∧
    ((o = .bin → ¬ TooWide x y) →
      ((∃ v, compute none o x y = .ok v) ↔ ∀ r : Refusal, ¬ r.Due o x y)) ∧
    (∀ limit v, o ≠ .mov → compute (some limit) o x y = .ok v →
      compute none o x y = .ok v ∧ bitLength x < limit ∧ bitLength y < limit ∧
        bitLength v < limit) ∧
    ∀ limit v, o = .pow → compute limit o x y = .ok v → v = truncate ((x : ℚ) ^ y) := by
  refine ⟨fun r => refused_iff, fun narrow => ⟨?_, fun free => ?_⟩, fun _ _ => compute_some_value,
    ?_⟩
  · rintro ⟨v, hv⟩
    exact not_due_of_apply hv
  · exact exists_apply_eq_ok free narrow
  · rintro limit v rfl h
    exact eq_truncate_of_compute h

/-- A coefficient of a number of 65 bits that is narrow, a power that just passes a limit of ten
bits, and the least exponent that is too large. -/
theorem compute_refused_iff_narrow :
    ¬ TooWide (-2 ^ 64) 2 ∧ (∃ v, compute none .bin (-2 ^ 64) 2 = .ok v) ∧
      (compute (some 10) .pow (-2) 5 = .ok (-32) ∧ compute none .pow (-2) 5 = .ok (-32) ∧
        -32 = truncate (((-2 : Int) : ℚ) ^ (5 : Int))) ∧
      Refused .magnitude (compute none .pow 2 (2 ^ 32)) := by
  have narrow : ¬ TooWide (-2 ^ 64) 2 := by
    unfold TooWide
    decide
  have limited : compute (some 10) .pow (-2) 5 = .ok (-32) := by decide
  have free : ∀ r : Refusal, ¬ r.Due .bin (-2 ^ 64) 2 := by
    intro r
    cases r <;> simp [Refusal.Due]
  obtain ⟨-, value, -, -⟩ := compute_refused_iff .bin (-2 ^ 64) 2
  obtain ⟨-, -, kept, exact⟩ := compute_refused_iff .pow (-2) 5
  obtain ⟨refused, -, -, -⟩ := compute_refused_iff .pow 2 (2 ^ 32)
  exact ⟨narrow, (value fun _ => narrow).2 free,
    ⟨limited, (kept _ _ (by decide) limited).1, exact _ _ rfl limited⟩,
    (refused .magnitude).2 ⟨rfl, by decide, by decide⟩⟩

end Arith

end SeqAsm
