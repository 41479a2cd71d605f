import Mathlib.Data.Nat.Notation
import Mathlib.Tactic.Lemma
import SeqAsm.Text.Numeral

/-!
Printed numbers read back. The text of an integer is a minus sign, if there has to be one, and
the decimal digits of its magnitude; so it denotes that integer. Zeros before the digits change
nothing.
-/

namespace SeqAsm

namespace Text

variable {c : Char} {cs : List Char}

lemma toNat_of_isDigit (h : c.isDigit = true) : 48 ≤ c.toNat ∧ c.toNat ≤ 57 := by
  simp only [Char.isDigit, Bool.and_eq_true, decide_eq_true_eq] at h
  exact ⟨h.1, h.2⟩

/-- Decimal digits are digits of some script. -/
lemma digit?_of_isDigit (h : c.isDigit = true) : digit? c = some (c.toNat - 48) := by
  have := toNat_of_isDigit h
  unfold digit?
  dsimp only
  rw [if_pos (by omega), if_pos (by omega)]

lemma isDigit_of_isDigit (h : c.isDigit = true) : isDigit c = true := by
  rw [isDigit, digit?_of_isDigit h]
  rfl

lemma natValue_eq (h : ∀ c ∈ cs, c.isDigit = true) : natValue cs = Nat.ofDigitChars 10 cs 0 := by
  suffices ∀ n, (cs.map fun c => (digit? c).getD 0).foldl (fun n d => 10 * n + d) n =
      Nat.ofDigitChars 10 cs n from this 0
  induction cs with
  | nil => exact fun n => rfl
  | cons c cs ih =>
    obtain ⟨hc, hcs⟩ := List.forall_mem_cons.1 h
    intro n
    rw [List.map_cons, List.foldl_cons, ih hcs, digit?_of_isDigit hc]
    rfl

def digits (n : ℕ) : List Char := Nat.toDigits 10 n

lemma isDigit_of_mem_digits {n : ℕ} (h : c ∈ digits n) : c.isDigit = true :=
  Nat.isDigit_of_mem_toDigits (by decide) (by decide) h

lemma digits_ne_nil (n : ℕ) : digits n ≠ [] := Nat.toDigits_ne_nil

lemma toList_toString_natCast (n : ℕ) : (toString n).toList = digits n := by
  rw [Nat.toString_eq_repr, Nat.toList_repr, digits]

lemma all_isDigit_digits (n : ℕ) : (digits n).all isDigit = true :=
  List.all_eq_true.2 fun _ h => isDigit_of_isDigit (isDigit_of_mem_digits h)

lemma natValue_digits (n : ℕ) : natValue (digits n) = n := by
  rw [natValue_eq fun _ => isDigit_of_mem_digits]
  exact Nat.ofDigitChars_ten_toDigits

/-! ### Integers -/

lemma toList_toString (n : Int) :
    (toString n).toList = (if n < 0 then ['-'] else []) ++ digits n.natAbs := by
  rw [Int.toString_eq_repr, Int.repr_eq_if]
  by_cases h : n < 0
  · rw [if_neg (by omega), if_pos h, String.toList_append, Nat.toList_repr]
    have : (-n).toNat = n.natAbs := by omega
    rw [this]
    rfl
  · rw [if_pos (by omega), if_neg h, Nat.toList_repr]
    have : n.toNat = n.natAbs := by omega
    rw [this]
    rfl

lemma takeSign_of_isDigit (h : c.isDigit = true) : takeSign (c :: cs) = (false, c :: cs) := by
  unfold takeSign
  split
  · rename_i hc
    cases hc
    exact absurd h (by decide)
  · rename_i hc
    cases hc
    exact absurd h (by decide)
  · rfl

lemma takeSign_toString (n : Int) (rest : List Char) :
    takeSign ((toString n).toList ++ rest) = (decide (n < 0), digits n.natAbs ++ rest) := by
  rw [toList_toString]
  by_cases h : n < 0
  · rw [if_pos h, decide_eq_true h]
    rfl
  · rw [if_neg h, decide_eq_false h, List.nil_append]
    obtain ⟨c, cs, hc⟩ := List.exists_cons_of_ne_nil (digits_ne_nil n.natAbs)
    have first : c.isDigit = true := by
      refine isDigit_of_mem_digits (n := n.natAbs) ?_
      rw [hc]
      exact List.mem_cons_self
    rw [hc]
    exact takeSign_of_isDigit first

lemma signed_natAbs (n : Int) : (if decide (n < 0) then -(n.natAbs : Int) else n.natAbs) = n := by
  by_cases h : n < 0
  · rw [if_pos (by simpa using h)]
    omega
  · rw [if_neg (by simpa using h)]
    omega

/-- **A printed integer denotes itself.** -/
lemma intValue_toString (n : Int) : intValue (toString n).toList = n := by
  have sign := takeSign_toString n []
  rw [List.append_nil, List.append_nil] at sign
  have value := signed_natAbs n
  unfold intValue
  rw [sign]
  rcases hs : decide (n < 0) with _ | _ <;> rw [hs] at value
  · dsimp only
    rw [natValue_digits]
    exact value
  · dsimp only
    rw [natValue_digits]
    exact value

variable {k n width : ℕ}

/-- The zeros and digits of a numeral. -/
def places (k n : ℕ) : List Char := List.replicate k '0' ++ Nat.toDigits 10 n

lemma isDigit_of_mem_places (h : c ∈ places k n) : c.isDigit = true := by
  rcases List.mem_append.1 h with h | h
  · obtain ⟨-, rfl⟩ := List.mem_replicate.1 h
    rfl
  · exact isDigit_of_mem_digits h

lemma not_mem_places (k n : ℕ) : '-' ∉ places k n := fun h =>
  absurd (isDigit_of_mem_places h) (by decide)

lemma places_ne_nil (k n : ℕ) : places k n ≠ [] := by
  intro h
  exact digits_ne_nil n (List.append_eq_nil_iff.1 h).2

lemma ofDigitChars_places (k n : ℕ) : Nat.ofDigitChars 10 (places k n) 0 = n := by
  rw [places, Nat.ofDigitChars_append, Nat.ofDigitChars_replicate_zero, Nat.mul_zero,
    Nat.ofDigitChars_ten_toDigits]

lemma toList_padded (width : ℕ) (n : Int) : ∃ k, (padded width n).toList =
    if n < 0 then '-' :: places k n.natAbs else places k n.natAbs := by
  refine ⟨width - (if n < 0 then "-" else "").length - (toString n.natAbs).length, ?_⟩
  unfold padded places
  dsimp only
  rw [String.toList_append, String.toList_append, String.toList_ofList, Nat.toString_eq_repr,
    Nat.toList_repr]
  split
  · rfl
  · rfl

lemma mem_padded_of_neg {m : Int} (h : m < 0) : '-' ∈ (padded width m).toList := by
  obtain ⟨k, hk⟩ := toList_padded width m
  rw [hk, if_pos h]
  exact List.mem_cons_self

/-- A numeral denotes one number, however many zeros are in front. -/
lemma padded_injective (width : ℕ) : Function.Injective (padded width) := by
  intro n m h
  obtain ⟨k, hk⟩ := toList_padded width n
  obtain ⟨l, hl⟩ := toList_padded width m
  have same := hk.symm.trans ((congrArg String.toList h).trans hl)
  have value (h : places k n.natAbs = places l m.natAbs) : n.natAbs = m.natAbs := by
    rw [← ofDigitChars_places k n.natAbs, h, ofDigitChars_places]
  split at same <;> split at same
  · have := value (List.cons.inj same).2
    omega
  · exact absurd (same ▸ List.mem_cons_self) (not_mem_places l m.natAbs)
  · exact absurd (same ▸ List.mem_cons_self) (not_mem_places k n.natAbs)
  · have := value same
    omega

lemma toList_padded_natCast (width n : ℕ) :
    (padded width n).toList = places (width - (digits n).length) n := by
  have sign : ¬ (n : Int) < 0 := by omega
  have length : (toString n).length = (digits n).length := by
    rw [← String.length_toList, toList_toString_natCast]
  unfold padded places
  dsimp only
  rw [if_neg sign, String.toList_append, String.toList_append, String.toList_ofList,
    String.toList_ofList, Int.natAbs_natCast, length, Nat.toString_eq_repr, Nat.toList_repr]
  rfl

lemma length_padded_natCast (width n : ℕ) :
    (padded width n).toList.length = max width (digits n).length := by
  rw [toList_padded_natCast, places, List.length_append, List.length_replicate]
  have : (Nat.toDigits 10 n).length = (digits n).length := rfl
  omega

/-- A number has at most three places exactly when it is below a thousand. -/
lemma length_digits_le_three : (digits n).length ≤ 3 ↔ n < 1000 :=
  Nat.length_toDigits_le_iff (by decide) (by decide)

end Text

end SeqAsm
