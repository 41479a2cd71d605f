import Mathlib
import SeqAsm.Proofs.Machine.Loops

/-!
Loops that are run again.

If a host answers every call always in the same way, then what a block does to the registers, and
what that costs, depends on the registers alone: the steps that have been taken and the state of
the host have no part in it, as long as the budget allows the steps.

A loop that ends has given back the registers from before an iteration in which its range did not
fall. Where the length of the range is a constant, that iteration is also what the loop does first
when it is run again: the range does not fall this time either, and the loop is over.
-/

namespace SeqAsm

/-- A host whose answer to a call depends on the program and its input only. -/
def Host.Steady {σ : Type} (host : Host σ) : Prop :=
  ∀ id argument w w', (host.call id argument w).1 = (host.call id argument w').1

namespace Machine

variable {σ α β : Type}

/-! ### What asks something of the registers -/

/-- Asks something of the registers and does nothing else. -/
def Inspects (x : Exec σ α) : Prop :=
  ∃ f : Registers → Except Failure α, ∀ s, x.run s = (f s.registers, s)

lemma inspects_pure (a : α) : Inspects (pure a : Exec σ α) := ⟨fun _ => .ok a, fun _ => rfl⟩

lemma inspects_throw (e : Failure) : Inspects (throw e : Exec σ α) :=
  ⟨fun _ => .error e, fun _ => rfl⟩

lemma inspects_ask (f : Registers → Except Failure α) : Inspects (ask f : Exec σ α) :=
  ⟨f, run_ask f⟩

lemma Inspects.bind {x : Exec σ α} {g : α → Exec σ β} (hx : Inspects x) (hg : ∀ a, Inspects (g a)) :
    Inspects (x >>= g) := by
  obtain ⟨f, hf⟩ := hx
  choose next hnext using hg
  refine ⟨fun r => (f r).bind fun a => next a r, fun s => ?_⟩
  rw [run_bind, hf]
  dsimp only
  rcases f s.registers with e | a
  · rfl
  · exact hnext a s

lemma inspects_address : ∀ o, Inspects (address o : Exec σ Int)
  | .reg i => (inspects_ask _).bind fun _ => inspects_pure i
  | .ind _ => (inspects_ask _).bind fun a => (inspects_ask _).bind fun _ => inspects_pure a
  | .const _ => inspects_throw _

lemma inspects_read : ∀ o, Inspects (read o : Exec σ Int)
  | .const v => inspects_pure v
  | .reg i => (inspects_address (.reg i)).bind fun _ => inspects_ask _
  | .ind i => (inspects_address (.ind i)).bind fun _ => inspects_ask _

lemma inspects_rangeLength (env : Env σ) (h : LoopHeader) : Inspects (rangeLength env h) := by
  refine (inspects_read h.length).bind fun n => ?_
  split
  · exact (inspects_throw _).bind fun _ => inspects_pure _
  · exact inspects_pure _

lemma Inspects.again {x : Exec σ α} (hx : Inspects x) {s t : State σ} {a : α}
    (ok : x.run s = (.ok a, s)) (same : t.registers = s.registers) : x.run t = (.ok a, t) := by
  obtain ⟨f, hf⟩ := hx
  have answer : f s.registers = .ok a := congrArg Prod.fst ((hf s).symm.trans ok)
  rw [hf, same, answer]

/-! ### What can be repeated -/

/-- From given registers a computation always returns `a` and leaves given registers, at a given
cost in steps, if the budget allows it. -/
def Yields (x : Int → Exec σ α) (r : Registers) (a : α) (r' : Registers) (cost : ℕ) : Prop :=
  ∀ (budget : Int) (n : ℕ) (w : σ), ((n + cost : ℕ) : Int) ≤ budget →
    ∃ w', (x budget).run ⟨r, n, w⟩ = (.ok a, ⟨r', n + cost, w'⟩)

/-- What a computation does when it returns, it does again whenever the registers are the same. -/
def Repeatable (x : Int → Exec σ α) : Prop :=
  ∀ budget s a s', (x budget).run s = (.ok a, s') →
    ∃ cost, s'.steps = s.steps + cost ∧ Yields x s.registers a s'.registers cost

lemma Yields.bind {x : Int → Exec σ α} {f : α → Int → Exec σ β} {r r' r'' : Registers} {a : α}
    {b : β} {c d : ℕ} (hx : Yields x r a r' c) (hf : Yields (f a) r' b r'' d) :
    Yields (fun budget => x budget >>= fun a => f a budget) r b r'' (c + d) := by
  intro budget n w enough
  obtain ⟨w₁, h₁⟩ := hx budget n w (by omega)
  obtain ⟨w₂, h₂⟩ := hf budget (n + c) w₁ (by omega)
  refine ⟨w₂, ?_⟩
  rw [run_bind, h₁, ← Nat.add_assoc]
  exact h₂

lemma Repeatable.bind {x : Int → Exec σ α} {f : α → Int → Exec σ β} (hx : Repeatable x)
    (hf : ∀ a, Repeatable (f a)) : Repeatable fun budget => x budget >>= fun a => f a budget := by
  intro budget s b s' ok
  rw [run_bind] at ok
  rcases h : (x budget).run s with ⟨e | a, s₁⟩ <;> rw [h] at ok
  · cases ok
  obtain ⟨c, first, yields⟩ := hx budget s a s₁ h
  obtain ⟨d, second, more'⟩ := hf a budget s₁ b s' ok
  exact ⟨c + d, by omega, yields.bind more'⟩

lemma Inspects.repeatable {x : Exec σ α} (hx : Inspects x) : Repeatable fun _ => x := by
  obtain ⟨f, hf⟩ := hx
  intro _ s a s' ok
  obtain ⟨answer, rfl⟩ := Prod.mk.inj ((hf s).symm.trans ok)
  exact ⟨0, rfl, fun _ n w _ => ⟨w, by rw [hf, answer, Nat.add_zero]⟩⟩

lemma repeatable_throw (e : Failure) : Repeatable fun _ => (throw e : Exec σ α) :=
  (inspects_throw e).repeatable

lemma repeatable_change (f : Registers → Except Failure Registers) :
    Repeatable fun _ => (change f : Exec σ Unit) := by
  intro _ s _ s' ok
  rw [run_change] at ok
  rcases hf : f s.registers with e | r <;> rw [hf] at ok
  · cases ok
  cases ok
  exact ⟨0, rfl, fun _ n w _ => ⟨w, by rw [run_change, hf, Nat.add_zero]⟩⟩

variable {env : Env σ}

lemma repeatable_charge (env : Env σ) (c : ℕ) :
    Repeatable fun budget => charge (env.withBudget budget) c := by
  intro budget s _ s' ok
  rw [run_charge] at ok
  split at ok
  · cases ok
  cases ok
  refine ⟨c, rfl, fun more n w enough => ⟨w, ?_⟩⟩
  have paid : ¬ (env.withBudget more).limits.stepBudget < ((n + c : ℕ) : Int) := not_lt.2 enough
  rw [run_charge, if_neg paid]

lemma repeatable_serve (steady : ∀ host, env.host = some host → host.Steady)
    (target id argument : Int) :
    Repeatable fun budget => serve (env.withBudget budget) target id argument := by
  rcases hh : env.host with _ | host
  · have unanswered (budget : Int) : serve (env.withBudget budget) target id argument =
        throw (.of (.unresolvedDependency id env.program) []) :=
      serve_of_none (env.withBudget budget) hh target id argument
    simp only [unanswered]
    exact repeatable_throw _
  intro budget s u s' ok
  rw [run_serve (env.withBudget budget) hh] at ok
  rcases ha : (host.call id argument s.world).1 with e | result <;> rw [ha] at ok
  · cases ok
  have taken : Repeatable fun budget => take (env.withBudget budget) target (.ok result) :=
    (repeatable_change _).bind fun _ => repeatable_charge env result.steps
  obtain ⟨cost, counted, yields⟩ := taken budget _ u s' ok
  refine ⟨cost, counted, fun more n w enough => ?_⟩
  rw [run_serve (env.withBudget more) hh, steady host hh id argument _ s.world, ha]
  exact yields more n _ enough

lemma Repeatable.visit {x : Int → Exec σ Unit} (hx : Repeatable x) (env : Env σ) (n : Node) :
    Repeatable fun budget => visit (env.withBudget budget) n (x budget) := by
  intro budget s u s' ok
  rw [run_visit] at ok
  rcases h : (x budget).run s with ⟨e | _, s₁⟩ <;> rw [h] at ok
  · cases ok
  cases ok
  obtain ⟨cost, counted, yields⟩ := hx budget s () s' h
  refine ⟨cost, counted, fun more m w enough => ?_⟩
  obtain ⟨w', hw⟩ := yields more m w enough
  exact ⟨w', by rw [run_visit, hw]⟩

lemma repeatable_follow (steady : ∀ host, env.host = some host → host.Steady) (target : Int)
    (callee : Except Crash (Option Int)) :
    Repeatable fun budget => follow (env.withBudget budget) target callee := by
  rcases callee with c | _ | id
  · exact repeatable_throw _
  · exact repeatable_throw _
  · change Repeatable fun budget => call (env.withBudget budget) target id
    have named (budget : Int) : runner (env.withBudget budget) = runner env := rfl
    simp only [call_eq, named]
    refine (inspects_ask _).repeatable.bind fun argument => ?_
    split
    · exact repeatable_throw _
    · exact repeatable_serve steady target id argument

lemma repeatable_execute (steady : ∀ host, env.host = some host → host.Steady)
    (i : Instruction) : Repeatable fun budget => execute (env.withBudget budget) i := by
  obtain ⟨code, operands⟩ := i
  refine (repeatable_charge env 1).bind fun _ => ?_
  rcases operands with _ | ⟨t, sources⟩
  · exact repeatable_throw _
  refine (inspects_address t).repeatable.bind fun target => ?_
  cases code with
  | seq => exact repeatable_follow steady target (Instruction.callee ⟨.seq, t :: sources⟩)
  | cal => exact repeatable_follow steady target (Instruction.callee ⟨.cal, t :: sources⟩)
  | clr =>
    rcases sources with _ | ⟨s, _⟩
    · exact repeatable_throw _
    · exact (inspects_read s).repeatable.bind fun _ => repeatable_change _
  | op o =>
    rcases sources with _ | ⟨s, _⟩
    · exact repeatable_throw _
    · refine (inspects_read s).repeatable.bind fun source =>
        (inspects_ask _).repeatable.bind fun old => ?_
      rcases hc : Arith.compute env.limits.maxValueBits o old source with f | v
      · have fails (budget : Int) : Arith.compute (env.withBudget budget).limits.maxValueBits o old
            source = .error f := hc
        simp only [fails]
        exact repeatable_throw _
      · have gives (budget : Int) : Arith.compute (env.withBudget budget).limits.maxValueBits o old
            source = .ok v := hc
        simp only [gives]
        exact repeatable_change _

/-! ### Loops -/

section

variable {h : LoopHeader} {line : ℕ} {s s' : State σ} {start : Int} {length : ℕ}

lemma fuelled_left (env : Env σ) (s : State σ) :
    Fuelled env (env.limits.stepBudget + 1 - s.steps).toNat s := by
  unfold Fuelled
  omega

/-- Once the length at the entry is known, a loop is a matter of iterations. -/
lemma run_repeatBody {body : Exec σ Unit} (entry : (rangeLength env h).run s = (.ok length, s)) :
    (repeatBody env h line body).run s = (iterate env h line body
      (env.limits.stepBudget + 1 - s.steps).toNat length 0).run s := by
  rw [repeatBody, run_bind, entry]
  rfl

lemma exists_descent_of_repeatBody {body : Exec σ Unit} (hb : Rising body) {s₀ t : State σ}
    (ok : (repeatBody env h line body).run s₀ = (.ok (), t)) :
    ∃ (k : ℕ) (s : ℕ → State σ) (a : ℕ → Int) (l : ℕ → ℕ), s 0 = s₀ ∧
      Descent env h body k s a l ∧ t = { s (k + 1) with registers := (s k).registers } := by
  rcases hl : (rangeLength env h).run s₀ with ⟨e | l₀, s'⟩
  · rw [repeatBody, run_bind, hl] at ok
    cases ok
  obtain rfl := (looks_rangeLength env h).eq hl
  rw [run_repeatBody hl] at ok
  exact exists_descent hb hl (fuelled_left env s') ok

lemma Descent.run_repeatBody {body : Exec σ Unit} {k : ℕ} {s : ℕ → State σ} {a : ℕ → Int}
    {l : ℕ → ℕ} (d : Descent env h body k s a l) (hb : Rising body) :
    (repeatBody env h line body).run (s 0) =
      (.ok (), { s (k + 1) with registers := (s k).registers }) := by
  rw [Machine.run_repeatBody d.entry]
  exact d.run_iterate hb (fuelled_left env (s 0))

variable {body : Int → Exec σ Unit}

lemma Pass.unique {body : Exec σ Unit} {s₁ s₂ : State σ} {a₁ a₂ : Int} {l₁ l₂ : ℕ}
    (p : Pass env h body s s₁ a₁ l₁) (q : Pass env h body s s₂ a₂ l₂) : s₁ = s₂ :=
  congrArg Prod.snd (p.body.symm.trans q.body)

lemma Pass.again {budget : Int} (rising : Rising (body budget)) (rep : Repeatable body)
    (p : Pass (env.withBudget budget) h (body budget) s s' start length) {t : State σ}
    (same : t.registers = s.registers) (more : Int)
    (enough : ((t.steps + s'.steps : ℕ) : Int) ≤ more + s.steps) :
    ∃ t', Pass (env.withBudget more) h (body more) t t' start length ∧
      t'.registers = s'.registers ∧ t'.steps + s.steps = t.steps + s'.steps := by
  have longer := p.steps_lt rising
  obtain ⟨cost, counted, yields⟩ := rep budget _ () s' p.body
  have counted : s'.steps = s.steps + 1 + cost := counted
  obtain ⟨w, hw⟩ := yields more (t.steps + 1) t.world (by omega)
  refine ⟨⟨s'.registers, t.steps + 1 + cost, w⟩, ⟨?_, ?_, ?_, ?_⟩, rfl, ?_⟩
  · change ((t.steps + 1 : ℕ) : Int) ≤ more
    omega
  · rw [← same] at hw
    exact hw
  · exact (inspects_address h.target).again p.target rfl
  · exact (inspects_rangeLength env h).again p.length rfl
  · dsimp only
    omega

lemma steps_mono_of_passes {body : Exec σ Unit} (hb : Rising body) {s : ℕ → State σ}
    {a : ℕ → Int} {l : ℕ → ℕ} {n : ℕ}
    (pass : ∀ j ≤ n, Pass env h body (s j) (s (j + 1)) (a (j + 1)) (l (j + 1))) {i j : ℕ}
    (hij : i ≤ j) (hj : j ≤ n + 1) : (s i).steps ≤ (s j).steps := by
  induction j, hij using Nat.le_induction with
  | base => exact le_rfl
  | succ j hij ih =>
    have before := ih (by omega)
    have := (pass j (by omega)).steps_lt hb
    omega

lemma Descent.again {k : ℕ} {s : ℕ → State σ} {a : ℕ → Int} {l : ℕ → ℕ} {budget : Int}
    (d : Descent (env.withBudget budget) h (body budget) k s a l)
    (rising : ∀ budget, Rising (body budget)) (rep : Repeatable body) {t : State σ}
    (same : t.registers = (s 0).registers) (more : Int)
    (enough : ((t.steps + (s (k + 1)).steps : ℕ) : Int) ≤ more + (s 0).steps) :
    ∃ s' : ℕ → State σ, s' 0 = t ∧ Descent (env.withBudget more) h (body more) k s' a l ∧
      (s' k).registers = (s k).registers ∧
        (s' (k + 1)).steps + (s 0).steps = t.steps + (s (k + 1)).steps := by
  obtain ⟨s', _, _, rfl, -, passes⟩ := exists_passes (env.withBudget more) h (body more) t 0
  have risen {i j : ℕ} (hij : i ≤ j) (hj : j ≤ k + 1) : (s i).steps ≤ (s j).steps :=
    steps_mono_of_passes (rising budget) d.pass hij hj
  -- each iteration of the one descent is one of the other
  have step {j : ℕ} (hj : j ≤ k) (same : (s' j).registers = (s j).registers)
      (steps : (s' j).steps + (s 0).steps = (s' 0).steps + (s j).steps) :
      Pass (env.withBudget more) h (body more) (s' j) (s' (j + 1)) (a (j + 1)) (l (j + 1)) ∧
        (s' (j + 1)).registers = (s (j + 1)).registers ∧
          (s' (j + 1)).steps + (s 0).steps = (s' 0).steps + (s (j + 1)).steps := by
    have last : (s (j + 1)).steps ≤ (s (k + 1)).steps := risen (by omega) le_rfl
    obtain ⟨t', p, registers, counted⟩ :=
      (d.pass j hj).again (rising budget) rep same more (by omega)
    obtain rfl : t' = s' (j + 1) := p.unique (passes j t' _ _ p)
    exact ⟨p, registers, by omega⟩
  have along : ∀ j ≤ k + 1, (s' j).registers = (s j).registers ∧
      (s' j).steps + (s 0).steps = (s' 0).steps + (s j).steps := by
    intro j
    induction j with
    | zero => exact fun _ => ⟨same, rfl⟩
    | succ j ih =>
      intro hj
      obtain ⟨registers, steps⟩ := ih (by omega)
      exact (step (by omega) registers steps).2
  have registers (j : ℕ) (hj : j ≤ k + 1) : (s' j).registers = (s j).registers := (along j hj).1
  refine ⟨s', rfl, ?_, registers k (by omega), (along (k + 1) le_rfl).2⟩
  refine ⟨(inspects_rangeLength env h).again d.entry same, fun j hj => ?_, fun j hj => ?_, ?_,
    d.within, ?_⟩
  · obtain ⟨registers, steps⟩ := along j (by omega)
    exact (step hj registers steps).1
  · rw [registers j (by omega), registers (j + 1) (by omega)]
    exact d.falls j hj
  · rw [registers k (by omega), registers (k + 1) le_rfl]
    exact d.stops
  · rw [registers k (by omega), registers (k + 1) le_rfl]
    exact d.moves

lemma repeatable_repeatBody (rising : ∀ budget, Rising (body budget)) (rep : Repeatable body)
    (env : Env σ) (h : LoopHeader) (line : ℕ) :
    Repeatable fun budget => repeatBody (env.withBudget budget) h line (body budget) := by
  intro budget s₀ _ t ok
  obtain ⟨k, s, a, l, rfl, d, rfl⟩ := exists_descent_of_repeatBody (rising budget) ok
  have risen : (s 0).steps ≤ (s (k + 1)).steps :=
    steps_mono_of_passes (rising budget) d.pass (Nat.zero_le _) le_rfl
  obtain ⟨cost, hcost⟩ := Nat.exists_eq_add_of_le risen
  refine ⟨cost, hcost, fun more n w enough => ?_⟩
  obtain ⟨s', start, d', registers, steps⟩ :=
    d.again rising rep (t := ⟨(s 0).registers, n, w⟩) rfl more (by dsimp only; omega)
  have counted : (s' (k + 1)).steps = n + cost := by
    dsimp only at steps
    omega
  refine ⟨(s' (k + 1)).world, ?_⟩
  rw [← start, d'.run_repeatBody (rising more), registers, ← counted]

end

/-- **Blocks can be repeated.** From the same registers they do the same, at the same cost. -/
lemma repeatable_runBlock (steady : ∀ host, env.host = some host → host.Steady) :
    ∀ b : Block, Repeatable fun budget => runBlock (env.withBudget budget) b
  | .nil => (inspects_pure ()).repeatable
  | .instr i line rest =>
    ((repeatable_execute steady i).visit env (.instr i line)).bind fun _ =>
      repeatable_runBlock steady rest
  | .loop h line body rest => by
    have loop := repeatable_repeatBody (fun budget => rising_runBlock (env.withBudget budget) body)
      (repeatable_runBlock steady body) env h line
    exact (loop.visit env (.loop h line)).bind fun _ => repeatable_runBlock steady rest

/-! ### A loop that has ended -/

lemma shortest_of_eq {l : ℕ → ℕ} {m n : ℕ} (same : ∀ j ≤ n, l j = m) : shortest l n = m := by
  induction n with
  | zero => rw [shortest_zero, same 0 le_rfl]
  | succ n ih =>
    rw [shortest_succ, ih fun j hj => same j (by omega), same (n + 1) le_rfl, min_self]

lemma run_rangeLength {h : LoopHeader} {length : Int} (constant : h.length = .const length)
    {s : State σ} {m : ℕ} (hm : (rangeLength env h).run s = (.ok m, s)) (t : State σ) :
    (rangeLength env h).run t = (.ok m, t) := by
  simp only [rangeLength, constant, read, pure_bind] at hm ⊢
  split at hm
  · cases hm
  · cases hm
    rw [if_neg ‹_›]
    rfl

/-- **A loop that has ended has nothing left to do.** If the length of its range is a constant,
then from the registers that it leaves, the body can be run, at some cost, and the loop, run again
with a budget that allows it, leaves the same registers at that cost and one step for the
iteration. -/
theorem repeatBody_again (env : Env σ) (steady : ∀ host, env.host = some host → host.Steady)
    {h : LoopHeader} {length : Int} (constant : h.length = .const length) (line : ℕ) (b : Block)
    {s₀ t : State σ} (ends : (repeatBody env h line (runBlock env b)).run s₀ = (.ok (), t)) :
    ∃ (r : Registers) (cost : ℕ), ∀ (budget : Int) (n : ℕ) (w : σ),
      ((n + 1 + cost : ℕ) : Int) ≤ budget → ∃ w',
        (runBlock (env.withBudget budget) b).run ⟨t.registers, n + 1, w⟩ =
          (.ok (), ⟨r, n + 1 + cost, w'⟩) ∧
        (repeatBody (env.withBudget budget) h line (runBlock (env.withBudget budget) b)).run
            ⟨t.registers, n, w⟩ = (.ok (), ⟨t.registers, n + 1 + cost, w'⟩) := by
  obtain ⟨k, s, a, l, rfl, d, rfl⟩ := exists_descent_of_repeatBody (rising_runBlock env b) ends
  have last := d.pass k le_rfl
  have longer := last.steps_lt (rising_runBlock env b)
  obtain ⟨cost, counted⟩ := Nat.exists_eq_add_of_le longer
  refine ⟨(s (k + 1)).registers, cost, fun budget n w enough => ?_⟩
  obtain ⟨⟨_, taken, w'⟩, p, rfl, steps⟩ := last.again (rising_runBlock env b)
    (repeatable_runBlock steady b) (t := ⟨(s k).registers, n, w⟩) rfl budget (by dsimp only; omega)
  obtain rfl : taken = n + 1 + cost := by
    dsimp only at steps
    omega
  refine ⟨w', p.body, ?_⟩
  -- the length is the same in all states, so the shortest one is that at the entry
  have same (j : ℕ) (hj : j ≤ k + 1) : l j = l 0 := by
    cases j with
    | zero => rfl
    | succ j =>
      have answers := (d.pass j (by omega)).length.symm.trans (run_rangeLength constant d.entry _)
      exact Except.ok.inj (congrArg Prod.fst answers)
  have shortest_last : shortest l (k + 1) = l 0 := shortest_of_eq same
  have stops := d.stops
  have moves := d.moves
  rw [shortest_last] at stops moves
  have first : Descent (env.withBudget budget) h (runBlock (env.withBudget budget) b) 0
      (fun j => if j = 0 then ⟨(s k).registers, n, w⟩ else
        ⟨(s (k + 1)).registers, n + 1 + cost, w'⟩)
      (fun _ => a (k + 1)) fun _ => l 0 := by
    refine ⟨run_rangeLength constant d.entry _, fun j hj => ?_, nofun, ?_, .inl rfl, ?_⟩
    · obtain rfl : j = 0 := by omega
      rw [← same (k + 1) le_rfl]
      exact p
    · rwa [shortest_of_eq fun _ _ => rfl]
    · rwa [shortest_of_eq fun _ _ => rfl]
  exact first.run_repeatBody (rising_runBlock _ b)

/-- A block that makes register zero smaller, calls a program, and has a loop that calls it. -/
def falling : Block :=
  .instr ⟨.op .sub, [.reg 0, .const 1]⟩ 2 (.instr ⟨.seq, [.reg 1, .const 45]⟩ 3
    (.loop ⟨.reg 2, .ind 3⟩ 4 (.instr ⟨.cal, [.reg 2, .const 45]⟩ 5 .nil) .nil))

/-- A loop over the falling block, the range of which starts where register three says. -/
def countdown (env : Env Unit) : Exec Unit Unit :=
  repeatBody env ⟨.ind 3, .const 2⟩ 1 (runBlock env falling)

def adding : Env Unit := ⟨{ stepBudget := 100 }, none, some adder⟩

/-- A state in which register zero holds three. -/
def fromThree : State Unit :=
  { start {} () with registers := (Registers.empty 10000).put 0 3 (by decide) }

theorem repeatBody_again_countdown :
    adder.Steady ∧ ((countdown adding).run fromThree).1 = .ok () ∧
      ∃ cost : ℕ, ∀ (budget : Int) (n : ℕ), ((n + 1 + cost : ℕ) : Int) ≤ budget →
        (countdown (adding.withBudget budget)).run
            ⟨((countdown adding).run fromThree).2.registers, n, ()⟩ =
          (.ok (), ⟨((countdown adding).run fromThree).2.registers, n + 1 + cost, ()⟩) := by
  have ends : ((countdown adding).run fromThree).1 = .ok () := by cbv
  have steady : adder.Steady := fun _ _ _ _ => rfl
  refine ⟨steady, ends, ?_⟩
  generalize hr : (countdown adding).run fromThree = out at ends ⊢
  obtain ⟨_, t⟩ := out
  obtain rfl := ends
  obtain ⟨r, cost, again⟩ :=
    repeatBody_again adding (fun host hh => Option.some.inj hh ▸ steady) rfl 1 falling hr
  refine ⟨cost, fun budget n enough => ?_⟩
  obtain ⟨_, -, loop⟩ := again budget n () enough
  exact loop

end Machine

end SeqAsm
