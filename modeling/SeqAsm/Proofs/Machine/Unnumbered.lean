import SeqAsm.Proofs.Machine.Limits
import SeqAsm.Query

/-!
Runs of programs that differ in line numbers and ids.

Line numbers and the id of a program appear in the places, messages and details of errors, and
nowhere else. So two runs of programs that are the same but for these do the same, act by act: they
ask the same of the host, and if one fails, the other fails in the same state with an error of the
same class.
-/

namespace SeqAsm

/-- Causes of the same class that differ at most in the program or the line that they name. -/
inductive Cause.Alike : Cause → Cause → Prop
  | refl (c : Cause) : Alike c c
  | nonTerminating (message message' : String) (steps : Int) :
      Alike (.nonTerminating message steps) (.nonTerminating message' steps)
  | unresolvedDependency (program : Int) (referrer referrer' : Option Int) :
      Alike (.unresolvedDependency program referrer) (.unresolvedDependency program referrer')

/-- Failures that differ at most in their places and in what they say about them. -/
inductive Failure.Alike : Failure → Failure → Prop
  | diagnostic {d d' : Diagnostic} : d.cause.Alike d'.cause →
      Alike (.diagnostic d) (.diagnostic d')
  | crash (c : Crash) : Alike (.crash c) (.crash c)

@[refl] lemma Failure.Alike.refl : ∀ e : Failure, e.Alike e
  | .diagnostic d => .diagnostic (.refl d.cause)
  | .crash c => .crash c

namespace Machine

variable {σ α : Type}

def Env.runAs (env : Env σ) (program : Option Int) : Env σ := { env with program }

/-- One of two runs has failed while the other goes on, which never happens. -/
def Alone (_ : Failure) (_ : State σ) : Prop := False

/-- Two runs are in the same state as long as they go on, and when they fail, they fail in the same
state and with alike failures. -/
def unplaced (σ : Type) : Coupling σ σ where
  regs := Eq
  worlds := Eq
  steps _ := True
  fail e s f t := e.Alike f ∧ s = t
  lag := Alone
  lag_mono h _ := h
  fail_of_lag h := h.elim

lemma unplaced_states {s t : State σ} : (unplaced σ).States s t ↔ s = t := by
  constructor
  · rintro ⟨regs, same, -, worlds⟩
    rcases s with ⟨r, n, w⟩
    rcases t with ⟨r', n', w'⟩
    obtain rfl : r = r' := regs
    obtain rfl : n = n' := same
    obtain rfl : w = w' := worlds
    rfl
  · rintro rfl
    exact ⟨rfl, rfl, trivial, rfl⟩

lemma unplaced_outcome {u v : Except Failure α × State σ} : (unplaced σ).Outcome u v ↔ u.2 = v.2 ∧
    ((∃ a, u.1 = .ok a ∧ v.1 = .ok a) ∨ ∃ e f, u.1 = .error e ∧ v.1 = .error f ∧ e.Alike f) := by
  rcases u with ⟨e | a, s⟩ <;> rcases v with ⟨f | b, t⟩
  · rw [Coupling.outcome_error_error]
    change e.Alike f ∧ s = t ↔ _
    simp [and_comm]
  · simp only [Coupling.outcome_error_ok]
    simp [unplaced, Alone]
  · simp
  · simp [unplaced_states, and_comm, eq_comm]

/-! ### Acts -/

/-- What does not depend on lines and ids. -/
lemma unplaced_self {x : Exec σ α} (hx : Rising x) : (unplaced σ).Couples x x := by
  refine ⟨hx, hx, fun s t hst => ?_⟩
  obtain rfl := unplaced_states.1 hst
  rcases x.run s with ⟨e | a, s'⟩
  · exact ⟨.refl e, rfl⟩
  · exact ⟨rfl, unplaced_states.2 rfl⟩

lemma unplaced_throw {e f : Failure} (h : e.Alike f) :
    (unplaced σ).Couples (throw e : Exec σ α) (throw f) :=
  ⟨rising_throw e, rising_throw f, fun _ _ hst => ⟨h, unplaced_states.1 hst⟩⟩

/-- What is raised with the fact of which program is running. -/
lemma alike_of (cause : Cause) (details details' : List (String × Datum)) :
    (Failure.of cause details).Alike (.of cause details') := .diagnostic (.refl cause)

lemma alike_giveUp (env env' : Env σ) (message message' : String) (steps : ℕ) :
    (giveUp env message steps).Alike (giveUp env' message' steps) :=
  .diagnostic (.nonTerminating message message' steps)

lemma cause_locate (env : Env σ) (n : Node) (d : Diagnostic) :
    ∃ d', locate env n (.diagnostic d) = .diagnostic d' ∧ d'.cause = d.cause := by
  refine ⟨_, rfl, ?_⟩
  split
  · exact Diagnostic.cause_locate _ _ _ _
  · rfl

lemma alike_locate {e f : Failure} (h : e.Alike f) (env env' : Env σ) (n n' : Node) :
    (locate env n e).Alike (locate env' n' f) := by
  cases h with
  | crash c => exact .crash c
  | @diagnostic d d' h =>
    obtain ⟨placed, hp, hc⟩ := cause_locate env n d
    obtain ⟨placed', hp', hc'⟩ := cause_locate env' n' d'
    rw [hp, hp']
    refine .diagnostic ?_
    rwa [hc, hc']

section

variable (env : Env σ) (program : Option Int)

lemma unplaced_charge (n : ℕ) :
    (unplaced σ).Couples (charge env n) (charge (env.runAs program) n) := by
  refine ⟨rising_charge env n, rising_charge _ n, fun s t hst => ?_⟩
  obtain rfl := unplaced_states.1 hst
  rw [run_charge, run_charge]
  change (unplaced σ).Outcome _ (if env.limits.stepBudget < (s.steps + n : ℕ) then _ else _)
  by_cases h : env.limits.stepBudget < (s.steps + n : ℕ)
  · rw [if_pos h, if_pos h]
    exact ⟨alike_giveUp env _ _ _ _, rfl⟩
  · rw [if_neg h, if_neg h]
    exact ⟨rfl, unplaced_states.2 rfl⟩

lemma unplaced_rangeLength (h : LoopHeader) :
    (unplaced σ).Couples (rangeLength env h) (rangeLength (env.runAs program) h) := by
  refine (unplaced_self (rising_read h.length)).bind fun n => ?_
  split
  · exact (unplaced_throw (alike_of _ _ _)).bind fun _ => .pure _
  · exact .pure _

lemma unplaced_serve (target id argument : Int) :
    (unplaced σ).Couples (serve env target id argument)
      (serve (env.runAs program) target id argument) := by
  unfold serve
  dsimp only [Env.runAs]
  rcases env.host with _ | host
  · exact unplaced_throw (.diagnostic (.unresolvedDependency id env.program program))
  refine (unplaced_self rising_get).bind fun s => ?_
  refine (unplaced_self fun _ => le_rfl).bind fun _ => ?_
  split
  · exact unplaced_throw (.refl _)
  · rename_i result _
    exact (unplaced_self (rising_change _)).bind fun _ => unplaced_charge env program result.steps

lemma unplaced_call (target id : Int) :
    (unplaced σ).Couples (call env target id) (call (env.runAs program) target id) := by
  rw [call_eq, call_eq]
  refine (unplaced_self (rising_ask _)).bind fun argument => ?_
  split
  · exact unplaced_throw (alike_of _ _ _)
  · exact unplaced_serve env program target id argument

lemma unplaced_execute (i : Instruction) :
    (unplaced σ).Couples (execute env i) (execute (env.runAs program) i) := by
  obtain ⟨code, operands⟩ := i
  refine (unplaced_charge env program 1).bind fun _ => ?_
  rcases operands with _ | ⟨t, sources⟩
  · exact unplaced_throw (.refl _)
  refine (unplaced_self (rising_address t)).bind fun target => ?_
  have calling : (unplaced σ).Couples (follow env target (Instruction.callee ⟨code, t :: sources⟩))
      (follow (env.runAs program) target (Instruction.callee ⟨code, t :: sources⟩)) := by
    rcases Instruction.callee ⟨code, t :: sources⟩ with c | _ | id
    · exact unplaced_throw (.refl _)
    · exact unplaced_throw (.refl _)
    · exact unplaced_call env program target id
  cases code with
  | seq => exact calling
  | cal => exact calling
  | clr =>
    rcases sources with _ | ⟨s, _⟩
    · exact unplaced_throw (.refl _)
    · exact unplaced_self ((rising_read s).bind fun count => rising_change _)
  | op o =>
    rcases sources with _ | ⟨s, _⟩
    · exact unplaced_throw (.refl _)
    · refine (unplaced_self (rising_read s)).bind fun source =>
        (unplaced_self (rising_ask _)).bind fun old => unplaced_self ?_
      split
      · exact rising_throw _
      · exact rising_change _

lemma unplaced_visit (n n' : Node) {x y : Exec σ Unit} (h : (unplaced σ).Couples x y) :
    (unplaced σ).Couples (visit env n x) (visit (env.runAs program) n' y) := by
  refine ⟨h.left.visit env n, h.right.visit _ n', fun s t hst => ?_⟩
  have out := h.out s t hst
  rw [run_visit, run_visit]
  rcases hx : x.run s with ⟨e | _, s'⟩ <;> rcases hy : y.run t with ⟨f | _, t'⟩ <;>
    rw [hx, hy] at out
  · exact ⟨alike_locate out.1 env _ n n', out.2⟩
  · exact out.elim
  · exact out.elim
  · exact out

end

/-! ### Loops and blocks -/

/-- A host that takes no note of the lines of loops. -/
def Deaf (h : Host σ) : Prop :=
  ∀ (line line' iterations : ℕ) (w : σ), h.stalled line iterations w = h.stalled line' iterations w

section

variable {env : Env σ} (deaf : ∀ h, env.host = some h → Deaf h) (program : Option Int)
  (line line' : ℕ) {body body' : Exec σ Unit}

include deaf

lemma unplaced_judge (before : Registers) (start : Int) (length done : ℕ)
    {again again' : Exec σ Unit} (ha : (unplaced σ).Couples again again') :
    (unplaced σ).Couples (judge env line before start length done again)
      (judge (env.runAs program) line' before start length done again') := by
  refine (unplaced_self rising_get).bind fun s => ?_
  dsimp only [Env.runAs]
  split
  · rcases env.limits.maxLoopIterations with _ | limit
    · exact ha
    · dsimp only
      split
      · exact unplaced_throw (alike_giveUp env _ _ _ _)
      · exact ha
  change (unplaced σ).Couples _ (if env.limits.loopPolicy = .guarded ∧
    before.hasPositive start length ∧ ¬ s.registers.hasNegative start length then _ else _)
  by_cases hs : env.limits.loopPolicy = .guarded ∧ before.hasPositive start length
      ∧ ¬ s.registers.hasNegative start length
  · rw [if_pos hs, if_pos hs]
    rcases hh : env.host with _ | host
    · exact unplaced_throw (alike_giveUp env _ _ _ _)
    · have note : Rising (modify fun s => { s with world := host.stalled line' done s.world } :
          Exec σ Unit) := fun _ => le_rfl
      dsimp only
      simp only [deaf host hh line line' done]
      exact (unplaced_self note).bind fun _ => unplaced_throw (alike_giveUp env _ _ _ _)
  · rw [if_neg hs, if_neg hs]
    have restore : Rising (modify fun s => { s with registers := before } : Exec σ Unit) :=
      fun _ => le_rfl
    exact unplaced_self restore

lemma unplaced_iterate (h : LoopHeader) (hb : (unplaced σ).Couples body body')
    (fuel shortest done : ℕ) :
    (unplaced σ).Couples (iterate env h line body fuel shortest done)
      (iterate (env.runAs program) h line' body' fuel shortest done) := by
  induction fuel generalizing shortest done with
  | zero => exact unplaced_charge env program 1
  | succ fuel ih =>
    rw [iterate_succ, iterate_succ]
    refine (unplaced_self rising_get).bind fun s => ?_
    exact (unplaced_charge env program 1).bind fun _ => hb.bind fun _ =>
      (unplaced_self (rising_address h.target)).bind fun start =>
        (unplaced_rangeLength env program h).bind fun n =>
          unplaced_judge deaf program line line' _ start _ done (ih _ (done + 1))

lemma unplaced_repeatBody (h : LoopHeader) (hb : (unplaced σ).Couples body body') :
    (unplaced σ).Couples (repeatBody env h line body)
      (repeatBody (env.runAs program) h line' body') :=
  (unplaced_rangeLength env program h).bind fun shortest =>
    (unplaced_self rising_get).bind fun _ =>
      unplaced_iterate deaf program line line' h hb _ shortest 0

/-- **Blocks that are the same but for their line numbers** do the same. -/
theorem unplaced_runBlock : ∀ b b' : Block, b.unnumbered = b'.unnumbered →
    (unplaced σ).Couples (runBlock env b) (runBlock (env.runAs program) b')
  | .nil, .nil, _ => .pure ()
  | .instr i line rest, .instr i' line' rest', h => by
    obtain ⟨rfl, -, h⟩ := Block.instr.inj h
    have here := unplaced_visit env program (.instr i line) (.instr i line')
      (unplaced_execute env program i)
    exact here.bind fun _ => unplaced_runBlock rest rest' h
  | .loop g line body rest, .loop g' line' body' rest', h => by
    obtain ⟨rfl, -, hb, h⟩ := Block.loop.inj h
    have here := unplaced_visit env program (.loop g line) (.loop g line')
      (unplaced_repeatBody deaf program line line' g (unplaced_runBlock body body' hb))
    exact here.bind fun _ => unplaced_runBlock rest rest' h

lemma unplaced_exec {b b' : Block} (h : b.unnumbered = b'.unnumbered) (input : Int) :
    (unplaced σ).Couples (exec env b input) (exec (env.runAs program) b' input) :=
  (unplaced_self (rising_change _)).bind fun _ => (unplaced_runBlock deaf program b b' h).bind
    fun _ => (unplaced_self (rising_ask _)).bind fun value =>
      (unplaced_self rising_get).bind fun s => .pure (Result.mk value s.steps)

end

/-- A host that answers calls by a function and keeps a record of them, the last one first. -/
def recorder (handler : Int → Int → Except Failure Result) : Host (List Query) where
  call id n calls := (handler id n, ⟨id, n⟩ :: calls)
  stalled _ _ calls := calls

/-- **Line numbers and ids never influence a run.** Runs of programs that are the same but for
these make the same calls and end with the same registers and steps. Both return the same result,
or both fail with errors of the same class. -/
theorem run_of_same (limits : Limits) (handler : Option (Int → Int → Except Failure Result))
    {p q : Program} (same : p.same q = true) (input : Int) :
    (run limits (handler.map recorder) p input []).2 =
      (run limits (handler.map recorder) q input []).2 ∧
    ((∃ r, (run limits (handler.map recorder) p input []).1 = .ok r ∧
        (run limits (handler.map recorder) q input []).1 = .ok r) ∨
      ∃ e f, (run limits (handler.map recorder) p input []).1 = .error e ∧
        (run limits (handler.map recorder) q input []).1 = .error f ∧ e.Alike f) := by
  have bodies : p.body.unnumbered = q.body.unnumbered := by
    simp only [Program.same, Bool.and_eq_true, decide_eq_true_eq] at same
    exact same.1
  have deaf (h : Host (List Query)) (hh : handler.map recorder = some h) : Deaf h := by
    obtain ⟨answer, -, rfl⟩ := Option.map_eq_some_iff.1 hh
    exact fun _ _ _ _ => rfl
  have coupled : (unplaced (List Query)).Couples
      (exec ⟨limits, p.id, handler.map recorder⟩ p.body input)
      (exec ⟨limits, q.id, handler.map recorder⟩ q.body input) :=
    unplaced_exec deaf q.id bodies input
  exact unplaced_outcome.1 (coupled.out _ _ (unplaced_states.2 rfl))

/-- A loop from a line on that counts register zero down and calls the program 7 with it. -/
def descend (line : ℕ) (id : Option Int) : Program where
  body := .loop ⟨.reg 0, .const 1⟩ line
    (.instr ⟨.op .sub, [.reg 0, .const 1]⟩ (line + 1)
      (.instr ⟨.seq, [.reg 0, .const 7]⟩ (line + 2) .nil)) .nil
  id := id

/-- The second call has a negative input, wherever the loop stands. -/
theorem run_of_same_descend : descend 1 (some 4) ≠ descend 8 none ∧
    (run {} (some (recorder fun _ n => .ok ⟨n, 1⟩)) (descend 8 none) 1 []).2.world = [⟨7, 0⟩] ∧
    ∃ e f, (run {} (some (recorder fun _ n => .ok ⟨n, 1⟩)) (descend 1 (some 4)) 1 []).1 = .error e ∧
      (run {} (some (recorder fun _ n => .ok ⟨n, 1⟩)) (descend 8 none) 1 []).1 = .error f ∧
      e.Alike f := by
  have both := run_of_same {} (some fun _ n => .ok ⟨n, 1⟩) (p := descend 1 (some 4))
    (q := descend 8 none) (by decide) 1
  have calls : (run {} (some (recorder fun _ n => .ok ⟨n, 1⟩)) (descend 1 (some 4)) 1 []).2.world =
      [⟨7, 0⟩] := rfl
  refine ⟨by decide, (congrArg State.world both.1).symm.trans calls, ?_⟩
  rcases both.2 with ⟨r, hr, -⟩ | failed
  · cases hr
  · exact failed

end Machine

end SeqAsm
