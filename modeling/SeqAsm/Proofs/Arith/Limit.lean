import Mathlib.Tactic.Lemma
import SeqAsm.Arith.Report
import SeqAsm.Proofs.Running

/-!
Operations under a limit on sizes. A limit only takes values away: operands and value have to be
small, and then the value is the one without a limit.
-/

namespace SeqAsm

namespace Arith

variable {o : Operation} {x y v : Int}

lemma checkSize_eq_ok {limit n : Int} : checkSize limit n = .ok () ↔ bitLength n < limit := by
  unfold checkSize
  split <;> simp <;> omega

lemma checkPower_of_le {a b : Int} (h : a ≤ b) (hp : checkPower a o x y = .ok ()) :
    checkPower b o x y = .ok () := by
  unfold checkPower at hp ⊢
  split at hp
  · cases hp
  · rename_i hn
    rw [if_neg fun hb => hn ⟨hb.1, hb.2.1, hb.2.2.1, by have := hb.2.2.2; omega⟩]

lemma compute_some {limit : Int} (ho : o ≠ .mov) :
    compute (some limit) o x y = .ok v ↔ checkSize limit x = .ok () ∧ checkSize limit y = .ok () ∧
      checkPower limit o x y = .ok () ∧ apply o x y = .ok v ∧ checkSize limit v = .ok () := by
  simp only [compute, if_neg ho]
  rcases checkSize limit x with _ | _
  · simp [bind, Except.bind]
  rcases checkSize limit y with _ | _
  · simp [bind, Except.bind]
  rcases checkPower limit o x y with _ | _
  · simp [bind, Except.bind]
  rcases apply o x y with _ | w
  · simp [bind, Except.bind]
  rcases h : checkSize limit w with _ | _
  · simp only [bind, Except.bind, h]
    refine ⟨nofun, fun ⟨_, _, _, hw, hv⟩ => ?_⟩
    cases hw
    rw [h] at hv
    cases hv
  · simp only [bind, Except.bind, h, pure, Except.pure, Except.ok.injEq, true_and]
    exact ⟨fun hw => ⟨hw, hw ▸ h⟩, fun hw => hw.1⟩

/-- What a limit lets through is the value without a limit. -/
lemma compute_some_value {limit : Int} (ho : o ≠ .mov) (h : compute (some limit) o x y = .ok v) :
    compute none o x y = .ok v ∧ bitLength x < limit ∧ bitLength y < limit ∧
      bitLength v < limit := by
  obtain ⟨hx, hy, -, value, hv⟩ := (compute_some ho).1 h
  exact ⟨value, checkSize_eq_ok.1 hx, checkSize_eq_ok.1 hy, checkSize_eq_ok.1 hv⟩

lemma bitLength_of_compute {limit : Int} (h : compute (some limit) o x y = .ok v) :
    o = .mov ∧ v = y ∨ bitLength v < limit := by
  by_cases ho : o = .mov
  · subst ho
    exact .inl ⟨rfl, (Except.ok.inj h).symm⟩
  · exact .inr (compute_some_value ho h).2.2.2

end Arith

end SeqAsm
