import SeqAsm.Proofs.Machine.Limits
import SeqAsm.Proofs.Program.WellFormed

/-!
What a machine does, act by act.

A machine does a few kinds of acts. A property of computations that the acts have and that
composes is a property of every well-formed block, if loops have it whenever their bodies do. The
machine may be run under any step budget, so the property is one of computations that depend on a
budget.

A well-formed block never lacks an operand, never writes to a constant, and never calls without
naming a program. So the failures of its acts are those of a run: a wrong register, a value
without a result, a range that is too long, a run that does not end.
-/

namespace SeqAsm

namespace Failure

/-- The failure of a run, and not of a text, of the call graph or of the engine. -/
def OfRun : Failure → Prop
  | .diagnostic d => d.cause.isEvaluation = true
  | .crash c => c = .countOverflow

def overBudget (budget : Int) : String := "Step budget of " ++ toString budget ++ " exceeded"

/-- The failure of a run that has no steps left. -/
def IsExhausted : Failure → Prop
  | .diagnostic d => ∃ budget steps, d.cause = .nonTerminating (overBudget budget) steps
  | .crash _ => False

/-- A failure of a run that has nothing to do with its budget, and that a diagnostic describes. -/
structure Own (e : Failure) : Prop where
  ofRun : e.OfRun
  notExhausted : ¬ e.IsExhausted
  described : ∃ d, e = .diagnostic d

lemma own_of_cause {c : Cause} {details : List (String × Datum)} (h : c.isEvaluation = true)
    (other : ∀ message steps, c ≠ .nonTerminating message steps) : (Failure.of c details).Own :=
  ⟨h, fun ⟨_, _, he⟩ => other _ _ he, _, rfl⟩

/-- All faults but one are described. -/
lemma own_fault {f : Arith.Fault} (h : f ≠ .binomialTooWide) : f.failure.Own := by
  cases f with
  | binomialTooWide => exact absurd rfl h
  | _ => exact own_of_cause rfl (by simp)

lemma ofRun_fault (f : Arith.Fault) : f.failure.OfRun := by
  by_cases h : f = .binomialTooWide
  · subst h
    rfl
  · exact (own_fault h).ofRun

lemma not_isExhausted_fault (f : Arith.Fault) : ¬ f.failure.IsExhausted := by
  by_cases h : f = .binomialTooWide
  · subst h
    exact id
  · exact (own_fault h).notExhausted

/-- A run that is stopped at a loop may have steps left. -/
lemma own_loop {message : String} (h : message.toList.head? = some 'L') (steps : Int)
    (details : List (String × Datum)) :
    (Failure.of (.nonTerminating message steps) details).Own := by
  refine ⟨rfl, fun ⟨budget, _, he⟩ => ?_, _, rfl⟩
  have same : message = "Step budget of " ++ (toString budget ++ " exceeded") :=
    (Cause.nonTerminating.inj he).1.trans String.append_assoc
  rw [same, String.toList_append] at h
  exact absurd h (by simp)

end Failure

namespace Registers

variable {r : Registers} {e : Failure}

lemma own_refusal (r : Registers) (i : Int) : (r.refusal i).Own :=
  Failure.own_of_cause rfl (by simp)

lemma own_check {i : Int} (h : r.check i = .error e) : e.Own :=
  refusal_of_check h ▸ own_refusal r i

lemma own_get {i : Int} (h : r.get i = .error e) : e.Own := refusal_of_get h ▸ own_refusal r i

lemma own_set {i v : Int} (h : r.set i v = .error e) : e.Own := refusal_of_set h ▸ own_refusal r i

lemma own_clearRange {i count : Int} (h : r.clearRange i count = .error e) : e.Own := by
  obtain ⟨j, rfl⟩ := refusal_of_clearRange h
  exact own_refusal r j

end Registers

/-- Every loop in a block has a header that satisfies a predicate. -/
def Block.LoopsIn (loops : LoopHeader → Prop) : Block → Prop
  | .nil => True
  | .instr _ _ rest => rest.LoopsIn loops
  | .loop h _ body rest => loops h ∧ body.LoopsIn loops ∧ rest.LoopsIn loops

lemma Block.loopsIn_true : ∀ b : Block, b.LoopsIn fun _ => True
  | .nil => trivial
  | .instr _ _ rest => rest.loopsIn_true
  | .loop _ _ body rest => ⟨trivial, body.loopsIn_true, rest.loopsIn_true⟩

namespace Machine

variable {σ α β : Type}

lemma ofRun_locate {env : Env σ} {n : Node} {e : Failure} : (locate env n e).OfRun ↔ e.OfRun := by
  rcases e with d | c
  · unfold locate Failure.OfRun
    dsimp only
    split
    · rw [Diagnostic.cause_locate]
    · rfl
  · rfl

lemma isExhausted_locate {env : Env σ} {n : Node} {e : Failure} :
    (locate env n e).IsExhausted ↔ e.IsExhausted := by
  rcases e with d | c
  · unfold locate Failure.IsExhausted
    dsimp only
    split
    · rw [Diagnostic.cause_locate]
    · rfl
  · rfl

/-! ### Properties of blocks -/

def Env.withBudget (env : Env σ) (budget : Int) : Env σ :=
  { env with limits := { env.limits with stepBudget := budget } }

/-! ### The verdict on an iteration -/

def verdict (env : Env σ) (line : ℕ) (before : Registers) (start : Int) (length done : ℕ)
    (s : State σ) : Option (Except Failure Unit × State σ) :=
  if s.registers.isLess before start length then
    match env.limits.maxLoopIterations with
    | some limit =>
      if limit < done + 1 then
        some (.error (giveUp env
          ("Loop at line " ++ toString line ++ " exceeded " ++ toString limit ++ " iterations")
          s.steps), s)
      else none
    | none => none
  else if env.limits.loopPolicy = .guarded ∧ before.hasPositive start length
      ∧ ¬ s.registers.hasNegative start length then
    some (.error (giveUp env ("Loop at line " ++ toString line ++ " made no progress") s.steps),
      match env.host with
      | some host => { s with world := host.stalled line done s.world }
      | none => s)
  else some (.ok (), { s with registers := before })

section

variable {env : Env σ} {line : ℕ} {before : Registers} {start : Int} {length done : ℕ}
  {s s' : State σ}

lemma run_judge (again : Exec σ Unit) :
    (judge env line before start length done again).run s =
      (verdict env line before start length done s).getD (again.run s) := by
  unfold judge verdict
  rw [run_bind, run_get]
  dsimp only
  split
  · rcases env.limits.maxLoopIterations with _ | limit
    · rfl
    · dsimp only
      split
      · rfl
      · rfl
  · split
    · rcases env.host with _ | host
      · rfl
      · rfl
    · rfl

/-- The budget has no part in the verdict. -/
lemma verdict_withBudget (budget : Int) : verdict (env.withBudget budget) line before start length
    done s = verdict env line before start length done s := rfl

lemma isLess_of_verdict (h : verdict env line before start length done s = none) :
    s.registers.isLess before start length = true := by
  unfold verdict at h
  split at h
  · assumption
  · split at h
    · cases h
    · cases h

lemma own_of_verdict {e : Failure}
    (h : verdict env line before start length done s = some (.error e, s')) : e.Own := by
  unfold verdict at h
  split at h
  · split at h
    · split at h
      · cases h
        exact Failure.own_loop (by simp [String.toList_append]) _ _
      · cases h
    · cases h
  · split at h
    · cases h
      exact Failure.own_loop (by simp [String.toList_append]) _ _
    · cases h

end

def take (env : Env σ) (target : Int) : Except Failure Result → Exec σ Unit
  | .error e => throw e
  | .ok result => do
    change (·.set target result.value)
    charge env result.steps

lemma run_serve (env : Env σ) {host : Host σ} (hh : env.host = some host)
    (target id argument : Int) (s : State σ) :
    (serve env target id argument).run s =
      (take env target (host.call id argument s.world).1).run
        { s with world := (host.call id argument s.world).2 } := by
  unfold serve
  rw [hh]
  rfl

/-- A property of computations under any budget that the acts of a machine have and that
composes. -/
structure Acts (P : {α : Type} → (Int → Exec σ α) → Prop) (env : Env σ) (calls : Int → Prop) :
    Prop where
  pure {α : Type} (a : α) : P fun _ => Pure.pure a
  bind {α β : Type} {x : Int → Exec σ α} {f : α → Int → Exec σ β} : P x → (∀ a, P (f a)) →
    P fun budget => x budget >>= fun a => f a budget
  throw {α : Type} {e : Failure} : e.Own → P fun _ => (throw e : Exec σ α)
  ask {α : Type} {f : Registers → Except Failure α} : (∀ r e, f r = .error e → e.Own) →
    P fun _ => ask f
  change {f : Registers → Except Failure Registers} : (∀ r e, f r = .error e → e.Own) →
    P fun _ => change f
  steps {α : Type} (f : ℕ → α) : P fun _ => get >>= fun s => Pure.pure (f s.steps)
  charge (n : ℕ) : P fun budget => charge (env.withBudget budget) n
  serve (target : Int) {id argument : Int} : calls id → 0 ≤ argument →
    P fun budget => serve (env.withBudget budget) target id argument
  visit {x : Int → Exec σ Unit} (n : Node) : P x →
    P fun budget => visit (env.withBudget budget) n (x budget)

namespace Acts

variable {P : {α : Type} → (Int → Exec σ α) → Prop} {env : Env σ} {calls : Int → Prop}

lemma address (L : Acts P env calls) : ∀ {o : Operand}, o.isRegister = true →
    P fun _ => address o
  | .reg i, _ => L.bind (L.ask fun _ _ => Registers.own_check) fun _ => L.pure i
  | .ind _, _ => L.bind (L.ask fun _ _ => Registers.own_get) fun a =>
    L.bind (L.ask fun _ _ => Registers.own_check) fun _ => L.pure a

lemma read (L : Acts P env calls) : ∀ o : Operand, P fun _ => read o
  | .const v => L.pure v
  | .reg _ => L.bind (L.address rfl) fun _ => L.ask fun _ _ => Registers.own_get
  | .ind _ => L.bind (L.address rfl) fun _ => L.ask fun _ _ => Registers.own_get

lemma rangeLength (L : Acts P env calls) (h : LoopHeader) :
    P fun budget => rangeLength (env.withBudget budget) h := by
  refine L.bind (L.read h.length) fun n => ?_
  have tooLong : (Failure.of (.loopRangeLength n maxLoopRange) (runner env)).Own :=
    Failure.own_of_cause rfl (by simp)
  split
  · exact L.bind (L.throw tooLong) fun _ => L.pure n.toNat
  · exact L.pure n.toNat

lemma call (L : Acts P env calls) (target : Int) {id : Int} (hid : calls id) :
    P fun budget => call (env.withBudget budget) target id := by
  simp only [call_eq]
  refine L.bind (L.ask fun _ _ => Registers.own_get) fun argument => ?_
  have negative : (Failure.of (.domain ("Program " ++ toString id ++
      " called with negative input " ++ toString argument)) (runner env)).Own :=
    Failure.own_of_cause rfl (by simp)
  split
  · exact L.throw negative
  · exact L.serve target hid (by omega)

lemma combine (L : Acts P env calls) {o : Operation} {x y : Int}
    (fault : ∀ f, Arith.compute env.limits.maxValueBits o x y = .error f →
      P fun _ => (MonadExcept.throw f.failure : Exec σ Int)) :
    P fun budget => combine (env.withBudget budget) o x y := by
  have same (budget : Int) : Machine.combine (env.withBudget budget) o x y =
      Machine.combine env o x y := rfl
  simp only [same]
  unfold Machine.combine
  split
  · exact fault _ ‹_›
  · exact L.pure _

lemma execute (L : Acts P env calls) {i : Instruction} (wf : i.WellFormed)
    (hi : ∀ id, i.callee = .ok (some id) → calls id)
    (fault : ∀ o x y f, i.opcode = .op o → Arith.compute env.limits.maxValueBits o x y = .error f →
      P fun _ => (MonadExcept.throw f.failure : Exec σ Int)) :
    P fun budget => execute (env.withBudget budget) i := by
  obtain @⟨code, target, source, register, -, -, hc⟩ := wf
  refine L.bind (L.charge 1) fun _ => L.bind (L.address register) fun t => ?_
  cases code with
  | seq =>
    obtain ⟨id, -, rfl⟩ := (hc rfl).exists_const
    exact L.call t (hi id rfl)
  | cal =>
    obtain ⟨id, -, rfl⟩ := (hc rfl).exists_const
    exact L.call t (hi id rfl)
  | clr => exact L.bind (L.read source) fun count => L.change fun _ _ => Registers.own_clearRange
  | op o =>
    refine L.bind (L.read source) fun s => L.bind (L.ask fun _ _ => Registers.own_get) fun old => ?_
    have step := L.bind (L.combine fun f => fault o old s f rfl) fun v =>
      L.change fun r e => Registers.own_set (r := r) (e := e) (i := t) (v := v)
    simp only [combine_bind] at step
    exact step

end Acts

/-- A property that acts have, whatever their faults, and also loops, if their bodies have it. -/
structure Lawful (P : {α : Type} → (Int → Exec σ α) → Prop) (env : Env σ) (calls : Int → Prop)
    (loops : LoopHeader → Prop) : Prop extends Acts P env calls where
  fault {α : Type} (f : Arith.Fault) : P fun _ => (MonadExcept.throw f.failure : Exec σ α)
  repeatBody {h : LoopHeader} {body : Int → Exec σ Unit} (line : ℕ) : h.WellFormed → loops h →
    P body → P fun budget => repeatBody (env.withBudget budget) h line (body budget)

namespace Lawful

variable {P : {α : Type} → (Int → Exec σ α) → Prop} {env : Env σ} {calls : Int → Prop}
  {loops : LoopHeader → Prop}

/-- **A well-formed block has what the acts of a machine have.** -/
theorem runBlock (L : Lawful P env calls loops) : ∀ {b : Block}, b.WellFormed →
    b.CallsIn calls → b.LoopsIn loops → P fun budget => runBlock (env.withBudget budget) b
  | .nil, _, _, _ => L.pure ()
  | .instr i line _, wf, hc, hl =>
    L.bind (L.visit (.instr i line) (L.toActs.execute wf.1 hc.1 fun _ _ _ f _ _ => L.fault f))
      fun _ => L.runBlock wf.2 hc.2 hl
  | .loop h line _ _, wf, hc, hl =>
    L.bind (L.visit (.loop h line) (L.repeatBody line wf.1 hl.1 (L.runBlock wf.2.1 hc.1 hl.2.1)))
      fun _ => L.runBlock wf.2.2 hc.2 hl.2.2

theorem exec (L : Lawful P env calls loops) {body : Block} (wf : body.WellFormed)
    (hc : body.CallsIn calls) (hl : body.LoopsIn loops) (input : Int) :
    P fun budget => exec (env.withBudget budget) body input :=
  L.bind (L.change fun _ _ => Registers.own_set) fun _ => L.bind (L.runBlock wf hc hl) fun _ =>
    L.bind (L.ask fun _ _ => Registers.own_get) fun value => L.steps (Result.mk value)

end Lawful

end Machine

end SeqAsm
