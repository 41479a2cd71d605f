import SeqAsm.Proofs.Machine.Acts

/-!
What a run can fail with, and where it stops then.

What is expected of the failures of acts, each in the state in which it leaves the machine, can be
expected of every block. So every failure of a well-formed program is a failure of a run, and not
of a text, of the call graph or of the engine, as long as calls fail in no other way.
-/

namespace SeqAsm

namespace Machine

variable {σ α β : Type} {ok : Failure → State σ → Prop}

/-- Every failure of a computation is as expected, in the state in which it leaves the machine. -/
def FailsAs (ok : Failure → State σ → Prop) (x : Int → Exec σ α) : Prop :=
  ∀ budget s e s', (x budget).run s = (.error e, s') → ok e s'

lemma FailsAs.bind {x : Int → Exec σ α} {f : α → Int → Exec σ β} (hx : FailsAs ok x)
    (hf : ∀ a, FailsAs ok (f a)) : FailsAs ok fun budget => x budget >>= fun a => f a budget := by
  intro budget s e s' he
  rw [run_bind] at he
  rcases h : (x budget).run s with ⟨e' | a, s₁⟩ <;> rw [h] at he
  · cases he
    exact hx budget s _ _ h
  · exact hf a budget s₁ e s' he

lemma FailsAs.look {f : State σ → Int → Exec σ α} (h : ∀ s, FailsAs ok (f s)) :
    FailsAs ok fun budget => get >>= fun s => f s budget :=
  fun budget s e s' he => h s budget s e s' he

lemma failsAs_pure (a : α) : FailsAs ok fun _ => (pure a : Exec σ α) :=
  fun _ _ _ _ he => nomatch he

lemma failsAs_throw {e : Failure} (h : ∀ s, ok e s) : FailsAs ok fun _ => (throw e : Exec σ α) := by
  intro _ s _ _ he
  cases he
  exact h s

/-- What may be expected of failures: a failure of the run itself is as expected, also for want of
steps, and no place that it is given changes that. -/
structure Expected (ok : Failure → State σ → Prop) (env : Env σ) : Prop where
  own {e : Failure} (s : State σ) : e.Own → ok e s
  exhausted (budget : Int) (n : ℕ) (s : State σ) : ok (exhausted (env.withBudget budget) n) s
  locate {e : Failure} {s : State σ} (n : Node) : ok e s → ok (locate env n e) s

namespace Expected

variable {env : Env σ} {calls : Int → Prop}

lemma ask (E : Expected ok env) {f : Registers → Except Failure α}
    (h : ∀ r e, f r = .error e → e.Own) : FailsAs ok fun _ => (ask f : Exec σ α) := by
  intro _ s e s' he
  rw [run_ask] at he
  obtain ⟨hf, rfl⟩ := Prod.mk.inj he
  exact E.own _ (h _ _ hf)

lemma change (E : Expected ok env) {f : Registers → Except Failure Registers}
    (h : ∀ r e, f r = .error e → e.Own) : FailsAs ok fun _ => (change f : Exec σ Unit) := by
  intro _ s e s' he
  rw [run_change] at he
  rcases hf : f s.registers with e' | r <;> rw [hf] at he
  · cases he
    exact E.own _ (h _ _ hf)
  · cases he

lemma charge (E : Expected ok env) (n : ℕ) :
    FailsAs ok fun budget => charge (env.withBudget budget) n := by
  intro budget s e s' he
  rw [run_charge] at he
  split at he
  · cases he
    exact E.exhausted budget _ _
  · cases he

lemma visit (E : Expected ok env) {x : Int → Exec σ Unit} (n : Node) (hx : FailsAs ok x) :
    FailsAs ok fun budget => visit (env.withBudget budget) n (x budget) := by
  intro budget s e s' he
  rw [run_visit] at he
  rcases h : (x budget).run s with ⟨e' | _, s₁⟩ <;> rw [h] at he
  · cases he
    exact E.locate n (hx budget s _ _ h)
  · cases he

lemma serve (E : Expected ok env) {host : Host σ} (hh : env.host = some host)
    (target : Int) {id argument : Int}
    (answer : ∀ w e s, host.call id argument w = (.error e, s.world) → ok e s) :
    FailsAs ok fun budget => serve (env.withBudget budget) target id argument := by
  intro budget s e s' he
  rw [run_serve (env.withBudget budget) hh] at he
  rcases hc : (host.call id argument s.world).1 with e' | result <;> rw [hc] at he
  · cases he
    exact answer s.world _ _ (Prod.ext hc rfl)
  · have taken : FailsAs ok fun budget => take (env.withBudget budget) target (.ok result) :=
      (E.change fun _ _ => Registers.own_set).bind fun _ => E.charge result.steps
    exact taken budget _ e s' he

/-- **Acts fail as expected**, if calls do. -/
lemma acts (E : Expected ok env) (serve : ∀ target id argument, calls id → 0 ≤ argument →
      FailsAs ok fun budget => Machine.serve (env.withBudget budget) target id argument) :
    Acts (FailsAs ok) env calls where
  pure := failsAs_pure
  bind := FailsAs.bind
  throw own := failsAs_throw fun s => E.own s own
  ask := E.ask
  change := E.change
  steps _ := fun _ _ _ _ he => nomatch he
  charge := E.charge
  serve target id argument := serve target id argument
  visit := E.visit

lemma judge (E : Expected ok env) {again : Int → Exec σ Unit} (ha : FailsAs ok again)
    (line : ℕ) (before : Registers) (start : Int) (length done : ℕ) :
    FailsAs ok fun budget =>
      judge (env.withBudget budget) line before start length done (again budget) := by
  intro budget s e s' he
  rw [run_judge, verdict_withBudget] at he
  rcases hv : verdict env line before start length done s with _ | out <;> rw [hv] at he
  · exact ha budget s e s' he
  · obtain rfl : out = (.error e, s') := he
    exact E.own s' (own_of_verdict hv)

variable {h : LoopHeader} {body : Int → Exec σ Unit}

lemma iterate (E : Expected ok env) (A : Acts (FailsAs ok) env calls)
    (target : h.target.isRegister = true) (hb : FailsAs ok body) (line fuel shortest done : ℕ) :
    FailsAs ok fun budget =>
      iterate (env.withBudget budget) h line (body budget) fuel shortest done := by
  induction fuel generalizing shortest done with
  | zero => exact A.charge 1
  | succ fuel ih =>
    simp only [iterate_succ]
    refine .look fun s => ?_
    exact (A.charge 1).bind fun _ => hb.bind fun _ => (A.address target).bind fun start =>
      (A.rangeLength h).bind fun _ => E.judge (ih _ (done + 1)) line s.registers start _ done

lemma repeatBody (E : Expected ok env) (A : Acts (FailsAs ok) env calls)
    (target : h.target.isRegister = true) (hb : FailsAs ok body) (line : ℕ) :
    FailsAs ok fun budget => repeatBody (env.withBudget budget) h line (body budget) := by
  refine (A.rangeLength h).bind fun shortest => .look fun s => ?_
  exact fun budget => E.iterate A target hb line _ shortest 0 budget

end Expected

/-! ### Failures of runs -/

/-- A host that fails a call as a run does. -/
def HostFailsInRun (calls : Int → Prop) (host : Host σ) : Prop :=
  ∀ {id argument w e}, calls id → 0 ≤ argument → (host.call id argument w).1 = .error e → e.OfRun

variable {calls : Int → Prop} {host : Host σ}

lemma expected_ofRun (env : Env σ) : Expected (fun e _ => e.OfRun) env where
  own _ own := own.ofRun
  exhausted _ _ _ := rfl
  locate _ h := ofRun_locate.2 h

theorem lawful_ofRun (env : Env σ) (hh : env.host = some host)
    (H : HostFailsInRun calls host) :
    Lawful (FailsAs fun e _ => e.OfRun) env calls fun _ => True := by
  have E := expected_ofRun env
  have A : Acts (FailsAs fun e _ => e.OfRun) env calls :=
    E.acts fun target _ _ hid ha =>
      E.serve hh target fun _ _ _ answer => H hid ha (congrArg Prod.fst answer)
  exact
    { toActs := A
      fault := fun f => failsAs_throw fun _ => Failure.ofRun_fault f
      repeatBody := fun line wf _ hb => E.repeatBody A wf.isRegister hb line }

/-- **A run of a well-formed program fails as a run**, if its calls do. -/
theorem ofRun_of_run (limits : Limits) (H : HostFailsInRun calls host) {p : Program}
    (wf : p.WellFormed) (hc : p.body.CallsIn calls) {input : Int} {w : σ} {e : Failure}
    (he : (run limits (some host) p input w).1 = .error e) : e.OfRun :=
  (lawful_ofRun ⟨limits, p.id, some host⟩ rfl H).exec wf.body hc p.body.loopsIn_true input
    limits.stepBudget _ e _ (Prod.ext he rfl)

end Machine

end SeqAsm
