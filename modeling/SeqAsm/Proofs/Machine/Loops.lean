import Mathlib.Data.Finset.Lattice.Fold
import Mathlib.Order.Lattice.Nat
import SeqAsm.Proofs.Machine.Termination

/-!
What a loop does, by what its body does.

The body leads from a state to the next. As long as the range that the loop names falls from one
state to the next, the loop goes on; when it does not fall, the loop gives back the registers from
before that iteration. So a loop that ends has run through the longest sequence of states in which
the range falls each time, and has kept the registers of the last of them.
-/

namespace SeqAsm

/-! ### Ranges -/

namespace Registers

variable {r old : Registers} {start : Int} {n : ℕ}

/-- A range falls: the first register in which it differs gets smaller, and up to that one no
register is negative. -/
def Falls (r old : Registers) (start : Int) (length : ℕ) : Prop :=
  ∃ i < length, (∀ j < i, r.peek (start + j) = old.peek (start + j)) ∧
    r.peek (start + i) < old.peek (start + i) ∧ ∀ j ≤ i, 0 ≤ r.peek (start + j)

/-- A range that held something positive holds nothing negative, so that it should have fallen. -/
def Stalls (r old : Registers) (start : Int) (length : ℕ) : Prop :=
  (∃ i < length, 0 < old.peek (start + i)) ∧ ∀ i < length, 0 ≤ r.peek (start + i)

lemma falls_succ_iff : r.Falls old start (n + 1) ↔ 0 ≤ r.peek start ∧
    (r.peek start < old.peek start ∨
      r.peek start = old.peek start ∧ r.Falls old (start + 1) n) := by
  have shift (j : ℕ) : start + ((j + 1 : ℕ) : Int) = start + 1 + j := by omega
  constructor
  · rintro ⟨i, hi, same, less, positive⟩
    have first : 0 ≤ r.peek start := by simpa using positive 0 (Nat.zero_le i)
    refine ⟨first, ?_⟩
    cases i with
    | zero => exact .inl (by simpa using less)
    | succ i =>
      refine .inr ⟨by simpa using same 0 (Nat.succ_pos i), i, by omega, ?_, ?_, ?_⟩
      · intro j hj
        rw [← shift]
        exact same (j + 1) (by omega)
      · rw [← shift]
        exact less
      · intro j hj
        rw [← shift]
        exact positive (j + 1) (by omega)
  · rintro ⟨first, less | ⟨eq, i, hi, same, less, positive⟩⟩
    · refine ⟨0, by omega, fun j hj => by omega, by simpa using less, fun j hj => ?_⟩
      obtain rfl : j = 0 := by omega
      simpa using first
    · refine ⟨i + 1, by omega, fun j hj => ?_, by rwa [shift], fun j hj => ?_⟩
      · cases j with
        | zero => simpa using eq
        | succ j =>
          rw [shift]
          exact same j (by omega)
      · cases j with
        | zero => simpa using first
        | succ j =>
          rw [shift]
          exact positive j (by omega)

/-- The comparison of ranges is whether one falls. -/
lemma isLess_iff_falls : r.isLess old start n = true ↔ r.Falls old start n := by
  induction n generalizing start with
  | zero => exact ⟨(fun h => nomatch h), fun ⟨i, hi, _⟩ => by omega⟩
  | succ n ih => rw [isLess_succ_iff, falls_succ_iff, ih]

lemma anyFrom_iff {test : Int → Bool} :
    r.anyFrom test start n = true ↔ ∃ i < n, test (r.peek (start + i)) = true := by
  induction n generalizing start with
  | zero => exact ⟨(fun h => nomatch h), fun ⟨i, hi, _⟩ => by omega⟩
  | succ n ih =>
    have shift (j : ℕ) : start + ((j + 1 : ℕ) : Int) = start + 1 + j := by omega
    rw [anyFrom, Bool.or_eq_true, ih]
    constructor
    · rintro (h | ⟨i, hi, h⟩)
      · exact ⟨0, by omega, by simpa using h⟩
      · exact ⟨i + 1, by omega, by rwa [shift]⟩
    · rintro ⟨i, hi, h⟩
      cases i with
      | zero => exact .inl (by simpa using h)
      | succ i => exact .inr ⟨i, by omega, by rwa [shift] at h⟩

lemma stalls_iff :
    (old.hasPositive start n = true ∧ ¬ r.hasNegative start n = true) ↔ r.Stalls old start n := by
  simp [hasPositive, hasNegative, anyFrom_iff, Stalls]

end Registers

namespace Machine

variable {σ : Type} {env : Env σ} {h : LoopHeader} {line : ℕ} {body : Exec σ Unit}

/-! ### Blocks take steps -/

lemma rising_follow (env : Env σ) (target : Int) (callee : Except Crash (Option Int)) :
    Rising (follow env target callee) := by
  rcases callee with c | _ | id
  · exact rising_throw _
  · exact rising_throw _
  · change Rising (call env target id)
    rw [call_eq]
    refine (rising_ask _).bind fun argument => ?_
    split
    · exact rising_throw _
    · exact rising_serve env target id argument

lemma rising_execute (env : Env σ) (i : Instruction) : Rising (execute env i) := by
  obtain ⟨code, operands⟩ := i
  refine (rising_charge env 1).bind fun _ => ?_
  rcases operands with _ | ⟨t, sources⟩
  · exact rising_throw _
  refine (rising_address t).bind fun target => ?_
  cases code with
  | seq => exact rising_follow env target (Instruction.callee ⟨.seq, t :: sources⟩)
  | cal => exact rising_follow env target (Instruction.callee ⟨.cal, t :: sources⟩)
  | clr =>
    rcases sources with _ | ⟨s, _⟩
    · exact rising_throw _
    · exact (rising_read s).bind fun _ => rising_change _
  | op o =>
    rcases sources with _ | ⟨s, _⟩
    · exact rising_throw _
    · refine (rising_read s).bind fun source => (rising_ask _).bind fun old => ?_
      split
      · exact rising_throw _
      · exact rising_change _

lemma rising_runBlock (env : Env σ) : ∀ b : Block, Rising (runBlock env b)
  | .nil => rising_pure ()
  | .instr i line rest =>
    ((rising_execute env i).visit env (.instr i line)).bind fun _ => rising_runBlock env rest
  | .loop h line body rest => by
    have loop : Rising (repeatBody env h line (runBlock env body)) :=
      (rising_rangeLength env h).bind fun shortest => rising_get.bind fun _ =>
        rising_iterate env h line (rising_runBlock env body) _ shortest 0
    exact (loop.visit env (.loop h line)).bind fun _ => rising_runBlock env rest

/-! ### One iteration -/

/-- An iteration of a loop whose parts do not fail: it costs a step, the body leads to another
state, and there the loop names a range by its first register and its length. -/
structure Pass (env : Env σ) (h : LoopHeader) (body : Exec σ Unit) (s s' : State σ)
    (start : Int) (length : ℕ) : Prop where
  budget : ((s.steps + 1 : ℕ) : Int) ≤ env.limits.stepBudget
  body : body.run { s with steps := s.steps + 1 } = (.ok (), s')
  target : (address h.target).run s' = (.ok start, s')
  length : (rangeLength env h).run s' = (.ok length, s')

section

variable {s s' t : State σ} {start : Int} {length m done : ℕ} {before : Registers}

lemma Pass.steps_lt (p : Pass env h body s s' start length) (hb : Rising body) :
    s.steps < s'.steps := hb.le p.body

/-- The loop goes on when the range falls and the limit on iterations allows it. -/
lemma verdict_eq_none_iff : verdict env line before start length done s = none ↔
    s.registers.Falls before start length ∧
      ∀ limit, env.limits.maxLoopIterations = some limit → ((done + 1 : ℕ) : Int) ≤ limit := by
  unfold verdict
  rw [← Registers.isLess_iff_falls]
  split
  · rename_i less
    rcases env.limits.maxLoopIterations with _ | limit
    · simp [less]
    · simp [less]
  · rename_i less
    split <;> simp [less]

/-- The loop ends when the range neither falls nor stalls, or stalls where it may. -/
lemma verdict_eq_ok_iff : verdict env line before start length done s = some (.ok (), t) ↔
    ¬ s.registers.Falls before start length ∧
      (env.limits.loopPolicy = .guarded → ¬ s.registers.Stalls before start length) ∧
        t = { s with registers := before } := by
  unfold verdict
  rw [← Registers.isLess_iff_falls, ← Registers.stalls_iff]
  split
  · rename_i less
    rcases env.limits.maxLoopIterations with _ | limit
    · simp [less]
    · dsimp only
      split <;> simp [less]
  · rename_i less
    split
    · rename_i stalls
      simp [less, stalls]
    · rename_i stalls
      have moves : env.limits.loopPolicy = .guarded →
          ¬ (before.hasPositive start length = true ∧
            ¬ s.registers.hasNegative start length = true) := fun guarded h => stalls ⟨guarded, h⟩
      simp only [less, Option.some.injEq, Prod.mk.injEq, true_and]
      exact ⟨fun h => ⟨Bool.false_ne_true, moves, h.symm⟩, fun h => h.2.2.symm⟩

/-- An iteration is followed by the verdict on the range. -/
lemma run_turn (p : Pass env h body s s' start length) (again : ℕ → Exec σ Unit) :
    (turn env h line body m done again s.registers).run s =
      (verdict env line s.registers start (min length m) done s').getD
        ((again (min length m)).run s') := by
  have paid : (charge env 1).run s = (.ok (), { s with steps := s.steps + 1 }) := by
    rw [run_charge, if_neg (not_lt.2 p.budget)]
  rw [turn, run_bind, paid]
  dsimp only
  rw [run_bind, p.body]
  dsimp only
  rw [run_bind, p.target]
  dsimp only
  rw [run_bind, p.length]
  exact run_judge _

lemma pass_of_turn {again : ℕ → Exec σ Unit}
    (ok : (turn env h line body m done again s.registers).run s = (.ok (), t)) :
    ∃ s' start length, Pass env h body s s' start length := by
  rw [turn, run_bind, run_charge] at ok
  by_cases paid : env.limits.stepBudget < (s.steps + 1 : ℕ)
  · rw [if_pos paid] at ok
    cases ok
  rw [if_neg paid] at ok
  dsimp only at ok
  rw [run_bind] at ok
  rcases hb : body.run { s with steps := s.steps + 1 } with ⟨e | _, s'⟩ <;> rw [hb] at ok
  · cases ok
  dsimp only at ok
  rw [run_bind] at ok
  rcases ha : (address h.target).run s' with ⟨e | start, s''⟩ <;> rw [ha] at ok
  · cases ok
  obtain rfl := (looks_address h.target).eq ha
  dsimp only at ok
  rw [run_bind] at ok
  rcases hl : (rangeLength env h).run s'' with ⟨e | length, s'⟩ <;> rw [hl] at ok
  · cases ok
  obtain rfl := (looks_rangeLength env h).eq hl
  exact ⟨s', start, length, not_lt.1 paid, hb, ha, hl⟩

end

/-! ### All iterations -/

/-- The least of the first `n + 1` lengths. -/
def shortest (l : ℕ → ℕ) (n : ℕ) : ℕ :=
  (Finset.range (n + 1)).inf' Finset.nonempty_range_add_one l

lemma shortest_zero (l : ℕ → ℕ) : shortest l 0 = l 0 := by simp [shortest]

lemma shortest_succ (l : ℕ → ℕ) (n : ℕ) :
    shortest l (n + 1) = min (l (n + 1)) (shortest l n) := by
  have more : Finset.range (n + 1 + 1) = insert (n + 1) (Finset.range (n + 1)) :=
    Finset.range_add_one
  unfold shortest
  simp only [more, Finset.inf'_insert (Finset.nonempty_range_add_one (n := n))]

/-- The states that a loop runs through: `s j` is the state after `j` iterations, where the range
starts at `a j` and has the length `l j`; what is compared has the shortest length so far. From
each state to the next the range falls, except in the last iteration, which starts from `s k`. -/
structure Descent (env : Env σ) (h : LoopHeader) (body : Exec σ Unit) (k : ℕ) (s : ℕ → State σ)
    (a : ℕ → Int) (l : ℕ → ℕ) : Prop where
  entry : (rangeLength env h).run (s 0) = (.ok (l 0), s 0)
  pass : ∀ j ≤ k, Pass env h body (s j) (s (j + 1)) (a (j + 1)) (l (j + 1))
  falls : ∀ j < k, (s (j + 1)).registers.Falls (s j).registers (a (j + 1)) (shortest l (j + 1))
  stops : ¬ (s (k + 1)).registers.Falls (s k).registers (a (k + 1)) (shortest l (k + 1))
  within : k = 0 ∨ ∀ limit, env.limits.maxLoopIterations = some limit → (k : Int) ≤ limit
  moves : env.limits.loopPolicy = .guarded →
    ¬ (s (k + 1)).registers.Stalls (s k).registers (a (k + 1)) (shortest l (k + 1))

section

variable {s : ℕ → State σ} {a : ℕ → Int} {l : ℕ → ℕ} {n : ℕ}

lemma steps_le_of_passes (hb : Rising body)
    (pass : ∀ j < n, Pass env h body (s j) (s (j + 1)) (a (j + 1)) (l (j + 1))) :
    (s 0).steps + n ≤ (s n).steps := by
  induction n with
  | zero => exact le_rfl
  | succ n ih =>
    have before := ih fun j hj => pass j (by omega)
    have := (pass n (by omega)).steps_lt hb
    omega

/-- With enough fuel, a loop starts with an iteration and uses no fuel up. -/
lemma run_iterate_turn (hb : Rising body) {fuel m done : ℕ} {s : State σ}
    (hf : Fuelled env fuel s) : (iterate env h line body fuel m done).run s =
      (turn env h line body m done
        (fun length => iterate env h line body fuel length (done + 1)) s.registers).run s :=
  run_iterate (fun _ => hb) hf

/-- Nothing fails in the iteration that starts from `s j`, and the loop goes on after it. -/
structure Onward (env : Env σ) (h : LoopHeader) (line : ℕ) (body : Exec σ Unit)
    (s : ℕ → State σ) (a : ℕ → Int) (l : ℕ → ℕ) (j : ℕ) : Prop where
  pass : Pass env h body (s j) (s (j + 1)) (a (j + 1)) (l (j + 1))
  next : verdict env line (s j).registers (a (j + 1)) (shortest l (j + 1)) j (s (j + 1)) = none

/-- **A loop runs through its iterations.** While it goes on, what it does from the first state is
what it does from the current one. -/
lemma run_iterate_onward (hb : Rising body) {fuel : ℕ} (hf : Fuelled env fuel (s 0))
    (on : ∀ j < n, Onward env h line body s a l j) :
    (iterate env h line body fuel (l 0) 0).run (s 0) =
      (iterate env h line body fuel (shortest l n) n).run (s n) := by
  induction n with
  | zero => rw [shortest_zero]
  | succ n ih =>
    have risen := steps_le_of_passes hb fun j hj => (on j (Nat.lt_succ_of_lt hj)).pass
    have fuelled : Fuelled env fuel (s n) := hf.mono le_rfl (by omega)
    obtain ⟨p, next⟩ := on n (Nat.lt_succ_self n)
    rw [shortest_succ] at next
    calc (iterate env h line body fuel (l 0) 0).run (s 0)
      _ = (iterate env h line body fuel (shortest l n) n).run (s n) :=
        ih fun j hj => on j (Nat.lt_succ_of_lt hj)
      _ = (turn env h line body (shortest l n) n
            (fun length => iterate env h line body fuel length (n + 1))
            (s n).registers).run (s n) :=
        run_iterate_turn hb fuelled
      _ = (iterate env h line body fuel (shortest l (n + 1)) (n + 1)).run (s (n + 1)) := by
        rw [run_turn p, next, shortest_succ]
        rfl

/-- The steps run out, so a loop does not go on forever. -/
lemma exists_not_onward (hb : Rising body) (line : ℕ) (s : ℕ → State σ) (a : ℕ → Int)
    (l : ℕ → ℕ) : ∃ k, ¬ Onward env h line body s a l k := by
  by_contra all
  simp only [not_exists, not_not] at all
  have risen := steps_le_of_passes hb (n := env.limits.stepBudget.toNat) fun j _ => (all j).pass
  have paid := (all env.limits.stepBudget.toNat).pass.budget
  omega

end

lemma exists_passes (env : Env σ) (h : LoopHeader) (body : Exec σ Unit) (s₀ : State σ) (l₀ : ℕ) :
    ∃ (s : ℕ → State σ) (a : ℕ → Int) (l : ℕ → ℕ), s 0 = s₀ ∧ l 0 = l₀ ∧ ∀ j s' start length,
      Pass env h body (s j) s' start length →
        Pass env h body (s j) (s (j + 1)) (a (j + 1)) (l (j + 1)) := by
  have step (s : State σ) : ∃ (s' : State σ) (start : Int) (length : ℕ),
      ∀ s'' start' length', Pass env h body s s'' start' length' →
        Pass env h body s s' start length := by
    by_cases p : ∃ s' start length, Pass env h body s s' start length
    · obtain ⟨s', start, length, p⟩ := p
      exact ⟨s', start, length, fun _ _ _ _ => p⟩
    · exact ⟨s, 0, 0, fun s' start length hp => absurd ⟨s', start, length, hp⟩ p⟩
  choose next start length kept using step
  refine ⟨fun j => next^[j] s₀, fun j => start (next^[j - 1] s₀),
    fun j => if j = 0 then l₀ else length (next^[j - 1] s₀), rfl, rfl, fun j s' a n p => ?_⟩
  have onward : next^[j + 1] s₀ = next (next^[j] s₀) := Function.iterate_succ_apply' next j s₀
  dsimp only [Nat.add_sub_cancel]
  rw [onward, if_neg (Nat.succ_ne_zero j)]
  exact kept _ s' a n p

/-- A loop that ends has run through a descent. -/
lemma exists_descent (hb : Rising body) {fuel l₀ : ℕ} {s₀ t : State σ}
    (entry : (rangeLength env h).run s₀ = (.ok l₀, s₀)) (hf : Fuelled env fuel s₀)
    (ok : (iterate env h line body fuel l₀ 0).run s₀ = (.ok (), t)) :
    ∃ (k : ℕ) (s : ℕ → State σ) (a : ℕ → Int) (l : ℕ → ℕ), s 0 = s₀ ∧
      Descent env h body k s a l ∧ t = { s (k + 1) with registers := (s k).registers } := by
  classical
  obtain ⟨s, a, l, rfl, rfl, passes⟩ := exists_passes env h body s₀ l₀
  have ends : ∃ k, ¬ Onward env h line body s a l k := exists_not_onward hb line s a l
  obtain ⟨k, last, on⟩ : ∃ k, ¬ Onward env h line body s a l k ∧
      ∀ j < k, Onward env h line body s a l j :=
    ⟨Nat.find ends, Nat.find_spec ends, fun j hj => not_not.1 (Nat.find_min ends hj)⟩
  have risen := steps_le_of_passes hb fun j hj => (on j hj).pass
  rw [run_iterate_onward hb hf on, run_iterate_turn hb (hf.mono le_rfl (by omega))] at ok
  obtain ⟨s', start, length, p⟩ := pass_of_turn ok
  have final := passes k s' start length p
  rw [run_turn final, ← shortest_succ] at ok
  rcases hv : verdict env line (s k).registers (a (k + 1)) (shortest l (k + 1)) k (s (k + 1))
    with _ | out
  · exact absurd ⟨final, hv⟩ last
  rw [hv, Option.getD_some] at ok
  obtain ⟨stops, moves, rfl⟩ := verdict_eq_ok_iff.1 (hv.trans (congrArg some ok))
  have falls (j : ℕ) (hj : j < k) := verdict_eq_none_iff.1 (on j hj).next
  refine ⟨k, s, a, l, rfl, ?_, rfl⟩
  refine ⟨entry, fun j hj => ?_, fun j hj => (falls j hj).1, stops, ?_, moves⟩
  · rcases Nat.lt_or_eq_of_le hj with hj | rfl
    · exact (on j hj).pass
    · exact final
  · cases k with
    | zero => exact .inl rfl
    | succ k => exact .inr (falls k (Nat.lt_succ_self k)).2

lemma Descent.run_iterate {k fuel : ℕ} {s : ℕ → State σ} {a : ℕ → Int} {l : ℕ → ℕ}
    (d : Descent env h body k s a l) (hb : Rising body) (hf : Fuelled env fuel (s 0)) :
    (iterate env h line body fuel (l 0) 0).run (s 0) =
      (.ok (), { s (k + 1) with registers := (s k).registers }) := by
  have on (j : ℕ) (hj : j < k) : Onward env h line body s a l j := by
    refine ⟨d.pass j (Nat.le_of_lt hj), verdict_eq_none_iff.2 ⟨d.falls j hj, fun limit hl => ?_⟩⟩
    rcases d.within with rfl | within
    · omega
    · have := within limit hl
      omega
  have risen := steps_le_of_passes hb fun j hj => (on j hj).pass
  have stop : verdict env line (s k).registers (a (k + 1)) (shortest l (k + 1)) k (s (k + 1)) =
      some (.ok (), { s (k + 1) with registers := (s k).registers }) :=
    verdict_eq_ok_iff.2 ⟨d.stops, d.moves, rfl⟩
  rw [run_iterate_onward hb hf on, run_iterate_turn hb (hf.mono le_rfl (by omega)),
    run_turn (d.pass k le_rfl), ← shortest_succ, stop]
  rfl

/-- **A loop is the longest fall of its range.** It ends normally exactly when, after a number of
iterations in each of which the range falls, there is one in which it does not, and nothing fails
until then; and then it leaves the registers as they were before that last iteration, whatever the
body has done to them since. What the last iteration has cost, and what calls have done to the
state of the host, remains. -/
theorem repeatBody_eq_ok_iff (env : Env σ) (h : LoopHeader) (line : ℕ) (b : Block)
    (s₀ t : State σ) : (repeatBody env h line (runBlock env b)).run s₀ = (.ok (), t) ↔
      ∃ (k : ℕ) (s : ℕ → State σ) (a : ℕ → Int) (l : ℕ → ℕ), s 0 = s₀ ∧
        Descent env h (runBlock env b) k s a l ∧
          t = { s (k + 1) with registers := (s k).registers } := by
  have hb := rising_runBlock env b
  have fuelled (s : State σ) : Fuelled env (env.limits.stepBudget + 1 - s.steps).toNat s := by
    unfold Fuelled
    omega
  -- once the length at the entry is known, the loop is a matter of iterations
  have entered {s : State σ} {l : ℕ} (hl : (rangeLength env h).run s = (.ok l, s)) :
      (repeatBody env h line (runBlock env b)).run s = (iterate env h line (runBlock env b)
        (env.limits.stepBudget + 1 - s.steps).toNat l 0).run s := by
    rw [repeatBody, run_bind, hl]
    rfl
  constructor
  · intro ok
    rcases hl : (rangeLength env h).run s₀ with ⟨e | l₀, s'⟩
    · rw [repeatBody, run_bind, hl] at ok
      cases ok
    obtain rfl := (looks_rangeLength env h).eq hl
    rw [entered hl] at ok
    exact exists_descent hb hl (fuelled s') ok
  · rintro ⟨k, s, a, l, rfl, d, rfl⟩
    rw [entered d.entry]
    exact d.run_iterate hb (fuelled (s 0))

end Machine

end SeqAsm
