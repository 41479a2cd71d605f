import SeqAsm.Proofs.Machine.Coupling

/-!
Runs of one block in lockstep.

`Tandem` lists what has to hold of the single acts of two machines: counting steps, asking and
changing registers, arithmetic, calls, and the verdict on an iteration of a loop. From that it
follows for instructions, and for loops whose bodies have it. `Lockstep` adds that failures get
their places; then it follows for every block, however deep its loops nest. The fuel of a loop
comes from the budget, so it may differ between the two machines; it never shows.
-/

namespace SeqAsm

/-- Every call in a block is to a program that satisfies a predicate. -/
def Block.CallsIn (calls : Int → Prop) : Block → Prop
  | .nil => True
  | .instr i _ rest => (∀ id, i.callee = .ok (some id) → calls id) ∧ rest.CallsIn calls
  | .loop _ _ body rest => body.CallsIn calls ∧ rest.CallsIn calls

lemma Block.callsIn_true : ∀ b : Block, b.CallsIn fun _ => True
  | .nil => trivial
  | .instr _ _ rest => ⟨fun _ _ => trivial, rest.callsIn_true⟩
  | .loop _ _ body rest => ⟨body.callsIn_true, rest.callsIn_true⟩

lemma Block.callsIn_iff {calls : Int → Prop} {b : Block} : b.CallsIn calls ↔
    ∀ i line, Node.instr i line ∈ b.nodes → ∀ id, i.callee = .ok (some id) → calls id := by
  induction b with
  | nil => simp [CallsIn, nodes]
  | instr i line rest ih =>
    simp only [CallsIn, nodes, List.mem_cons, ih]
    constructor
    · rintro ⟨h, hr⟩ j l (hj | hj)
      · cases hj
        exact h
      · exact hr j l hj
    · exact fun h => ⟨h i line (.inl rfl), fun j l hj => h j l (.inr hj)⟩
  | loop g line body rest ihb ihr =>
    simp only [CallsIn, nodes, List.mem_cons, List.mem_append, ihb, ihr]
    constructor
    · rintro ⟨hb, hr⟩ j l (hj | hj | hj)
      · cases hj
      · exact hb j l hj
      · exact hr j l hj
    · exact fun h => ⟨fun j l hj => h j l (.inr (.inl hj)), fun j l hj => h j l (.inr (.inr hj))⟩

namespace Machine

variable {σ τ α : Type}

/-! ### A loop by its iterations -/

/-- What follows from an iteration: another one, a failure, or the end of the loop. -/
def judge (env : Env σ) (line : ℕ) (before : Registers) (start : Int) (length done : ℕ)
    (again : Exec σ Unit) : Exec σ Unit := do
  let s ← get
  if s.registers.isLess before start length then
    match env.limits.maxLoopIterations with
    | some limit =>
      if limit < done + 1 then
        throw (giveUp env
          ("Loop at line " ++ toString line ++ " exceeded " ++ toString limit ++ " iterations")
          s.steps)
      else again
    | none => again
  else if env.limits.loopPolicy = .guarded ∧ before.hasPositive start length
      ∧ ¬ s.registers.hasNegative start length then
    match env.host with
    | some host => modify fun s => { s with world := host.stalled line done s.world }
    | none => pure ()
    throw (giveUp env ("Loop at line " ++ toString line ++ " made no progress") s.steps)
  else modify fun s => { s with registers := before }

/-- One iteration from given registers, after which the loop may go on with `again`. -/
def turn (env : Env σ) (h : LoopHeader) (line : ℕ) (body : Exec σ Unit) (shortest done : ℕ)
    (again : ℕ → Exec σ Unit) (before : Registers) : Exec σ Unit := do
  charge env 1
  body
  let start ← address h.target
  let length := min (← rangeLength env h) shortest
  judge env line before start length done (again length)

lemma iterate_succ (env : Env σ) (h : LoopHeader) (line : ℕ) (body : Exec σ Unit)
    (fuel shortest done : ℕ) :
    iterate env h line body (fuel + 1) shortest done =
      get >>= fun s => turn env h line body shortest done
        (fun length => iterate env h line body fuel length (done + 1)) s.registers := rfl

lemma rising_judge (env : Env σ) (line : ℕ) (before : Registers) (start : Int)
    (length done : ℕ) {again : Exec σ Unit} (h : Rising again) :
    Rising (judge env line before start length done again) := by
  refine rising_get.bind fun s => ?_
  split
  · split
    · split
      · exact rising_throw _
      · exact h
    · exact h
  · split
    · split <;> exact fun _ => le_rfl
    · exact fun _ => le_rfl

lemma rising_turn (env : Env σ) (h : LoopHeader) (line : ℕ) {body : Exec σ Unit}
    (hb : Rising body) (shortest done : ℕ) {again : ℕ → Exec σ Unit}
    (ha : ∀ length, Rising (again length)) (before : Registers) :
    Rising (turn env h line body shortest done again before) :=
  (rising_charge env 1).bind fun _ => hb.bind fun _ => (rising_address h.target).bind fun start =>
    (rising_rangeLength env h).bind fun _ => rising_judge env line before start _ done (ha _)

lemma run_judge_congr (env : Env σ) (line : ℕ) (before : Registers) (start : Int)
    (length done : ℕ) {again again' : Exec σ Unit} {s : State σ}
    (h : again.run s = again'.run s) :
    (judge env line before start length done again).run s =
      (judge env line before start length done again').run s := by
  unfold judge
  rw [run_bind, run_bind, run_get]
  dsimp only
  split
  · split
    · split
      · rfl
      · exact h
    · exact h
  · rfl

/-- Fuel for every iteration that the budget allows. -/
def Fuelled (env : Env σ) (fuel : ℕ) (s : State σ) : Prop :=
  env.limits.stepBudget < (s.steps + fuel : ℕ)

/-- Without steps left, the first iteration fails before it does anything. -/
lemma run_turn_exhausted (env : Env σ) (h : LoopHeader) (line : ℕ) (body : Exec σ Unit)
    (shortest done : ℕ) (again : ℕ → Exec σ Unit) (before : Registers) {s : State σ}
    (hs : Fuelled env 0 s) :
    (turn env h line body shortest done again before).run s = (charge env 1).run s := by
  unfold Fuelled at hs
  rw [turn, run_bind, run_charge, if_pos (by push_cast at hs ⊢; omega)]

/-- Enough fuel is as good as any other. -/
lemma run_iterate_congr (env : Env σ) (h : LoopHeader) (line : ℕ) {body : Exec σ Unit}
    (hb : Rising body) (fuel fuel' shortest done : ℕ) (s : State σ)
    (hf : Fuelled env fuel s) (hf' : Fuelled env fuel' s) :
    (iterate env h line body fuel shortest done).run s =
      (iterate env h line body fuel' shortest done).run s := by
  induction fuel generalizing fuel' shortest done s with
  | zero =>
    cases fuel' with
    | zero => rfl
    | succ fuel' =>
      rw [iterate_succ, run_bind, run_get]
      exact (run_turn_exhausted env h line body shortest done _ _ hf).symm
  | succ fuel ih =>
    cases fuel' with
    | zero =>
      rw [iterate_succ, run_bind, run_get]
      exact run_turn_exhausted env h line body shortest done _ _ hf'
    | succ fuel' =>
      rw [iterate_succ, iterate_succ, run_bind, run_bind, run_get]
      refine run_bind_congr fun _ s₁ h₁ => run_bind_congr fun _ s₂ h₂ => run_bind_congr
        fun start s₃ h₃ => run_bind_congr fun n s₄ h₄ => ?_
      -- the iteration has cost a step, and its other parts have not given it back
      have step : s.steps + 1 ≤ s₄.steps := by
        have charged := congrArg (State.steps ∘ Prod.snd) h₁
        rw [Function.comp, run_charge] at charged
        have := hb.le h₂
        have := (rising_address h.target).le h₃
        have := (rising_rangeLength env h).le h₄
        split at charged <;> simp only [Function.comp] at charged <;> omega
      refine run_judge_congr env line s.registers start _ done (ih fuel' _ _ s₄ ?_ ?_)
      · unfold Fuelled at hf ⊢; push_cast at hf ⊢; omega
      · unfold Fuelled at hf' ⊢; push_cast at hf' ⊢; omega

/-! ### Calls and arithmetic -/

def serve (env : Env σ) (target id argument : Int) : Exec σ Unit :=
  match env.host with
  | none => throw (.of (.unresolvedDependency id env.program) [])
  | some host => do
    let s ← get
    let (answer, world) := host.call id argument s.world
    modify fun s => { s with world }
    match answer with
    | .error e => throw e
    | .ok result =>
      change (·.set target result.value)
      charge env result.steps

lemma serve_of_none (env : Env σ) (hh : env.host = none) (target id argument : Int) :
    serve env target id argument = throw (.of (.unresolvedDependency id env.program) []) := by
  unfold serve
  rw [hh]

lemma call_eq (env : Env σ) (target id : Int) :
    call env target id = ask (·.get target) >>= fun argument =>
      if argument < 0 then
        throw (.of
          (.domain ("Program " ++ toString id ++ " called with negative input " ++
            toString argument))
          (runner env))
      else serve env target id argument := by
  rfl

def follow (env : Env σ) (target : Int) : Except Crash (Option Int) → Exec σ Unit
  | .error c => throw (.crash c)
  | .ok none => throw (.of (.engine "call instruction without a program id") [])
  | .ok (some id) => call env target id

lemma rising_serve (env : Env σ) (target id argument : Int) :
    Rising (serve env target id argument) := by
  unfold serve
  split
  · exact rising_throw _
  · refine rising_get.bind fun s => Rising.bind (fun _ => le_rfl) fun _ => ?_
    split
    · exact rising_throw _
    · exact (rising_change _).bind fun _ => rising_charge env _

def combine (env : Env σ) (o : Operation) (x y : Int) : Exec σ Int :=
  match Arith.compute env.limits.maxValueBits o x y with
  | .error f => throw f.failure
  | .ok value => pure value

lemma combine_bind (env : Env σ) (o : Operation) (x y : Int) (f : Int → Exec σ α) :
    combine env o x y >>= f = match Arith.compute env.limits.maxValueBits o x y with
      | .error e => throw e.failure
      | .ok value => f value := by
  unfold combine
  split <;> rfl

/-! ### Two machines in lockstep -/

/-- A failure that a machine raises itself. It has no place, and if it says which program is
running, it says so rightly. -/
inductive Raised (env : Env σ) : Failure → Prop
  | crash (c : Crash) : Raised env (.crash c)
  | bare (c : Cause) : Raised env (.of c [])
  | running (c : Cause) : Raised env (.of c (runner env))

/-- What the single acts of two machines keep of a coupling. -/
structure Tandem (C : Coupling σ τ) (env : Env σ) (env' : Env τ) (calls : Int → Prop) :
    Prop where
  program : env.program = env'.program
  throw {α : Type} {e : Failure} : Raised env e →
    C.Couples (throw e : Exec σ α) (throw e : Exec τ α)
  charge (n : ℕ) : C.Couples (charge env n) (charge env' n)
  check (i : Int) : C.Couples (ask (·.check i)) (ask (·.check i))
  get (i : Int) : C.Couples (ask (·.get i)) (ask (·.get i))
  set (i v : Int) : C.Couples (change (·.set i v)) (change (·.set i v))
  clear (i count : Int) : C.Couples (change (·.clearRange i count)) (change (·.clearRange i count))
  combine (o : Operation) (x y : Int) : C.Couples (combine env o x y) (combine env' o x y)
  serve (target : Int) {id argument : Int} : calls id → 0 ≤ argument →
    C.Couples (serve env target id argument) (serve env' target id argument)
  judge {before before' : Registers} {again : Exec σ Unit} {again' : Exec τ Unit} (line : ℕ)
      (start : Int) (length done : ℕ) : C.regs before before' → C.Couples again again' →
    C.Couples (judge env line before start length done again)
      (judge env' line before' start length done again')

/-- What they keep of a coupling when failures get their places, too. -/
structure Lockstep (C : Coupling σ τ) (env : Env σ) (env' : Env τ) (calls : Int → Prop) : Prop
    extends Tandem C env env' calls where
  visit {x : Exec σ Unit} {y : Exec τ Unit} (n : Node) :
    C.Couples x y → C.Couples (visit env n x) (visit env' n y)

namespace Tandem

variable {C : Coupling σ τ} {env : Env σ} {env' : Env τ} {calls : Int → Prop}

lemma address (L : Tandem C env env' calls) : ∀ o, C.Couples (address o) (address o)
  | .reg i => (L.check i).bind fun _ => .pure i
  | .ind i => (L.get i).bind fun a => (L.check a).bind fun _ => .pure a
  | .const _ => L.throw (.bare _)

lemma read (L : Tandem C env env' calls) : ∀ o, C.Couples (read o) (read o)
  | .const v => .pure v
  | .reg i => (L.address (.reg i)).bind fun a => L.get a
  | .ind i => (L.address (.ind i)).bind fun a => L.get a

lemma rangeLength (L : Tandem C env env' calls) (h : LoopHeader) :
    C.Couples (rangeLength env h) (rangeLength env' h) := by
  have same : runner env = runner env' := by rw [runner, runner, L.program]
  refine (L.read h.length).bind fun n => ?_
  rw [same]
  split
  · exact (L.throw (same ▸ .running _)).bind fun _ => .pure _
  · exact .pure _

lemma call (L : Tandem C env env' calls) (target : Int) {id : Int} (hid : calls id) :
    C.Couples (call env target id) (call env' target id) := by
  have same : runner env = runner env' := by rw [runner, runner, L.program]
  rw [call_eq, call_eq, same]
  refine (L.get target).bind fun argument => ?_
  split
  · exact L.throw (same ▸ .running _)
  · exact L.serve target hid (by omega)

lemma execute (L : Tandem C env env' calls) (i : Instruction)
    (hi : ∀ id, i.callee = .ok (some id) → calls id) :
    C.Couples (execute env i) (execute env' i) := by
  obtain ⟨code, operands⟩ := i
  refine (L.charge 1).bind fun _ => ?_
  rcases operands with _ | ⟨t, sources⟩
  · exact L.throw (.crash _)
  refine (L.address t).bind fun target => ?_
  have calling : C.Couples (follow env target (Instruction.callee ⟨code, t :: sources⟩))
      (follow env' target (Instruction.callee ⟨code, t :: sources⟩)) := by
    rcases hc : Instruction.callee ⟨code, t :: sources⟩ with c | _ | id
    · exact L.throw (.crash c)
    · exact L.throw (.bare _)
    · exact L.call target (hi id hc)
  cases code with
  | seq => exact calling
  | cal => exact calling
  | clr =>
    rcases sources with _ | ⟨s, _⟩
    · exact L.throw (.crash _)
    · exact (L.read s).bind fun count => L.clear target count
  | op o =>
    rcases sources with _ | ⟨s, _⟩
    · exact L.throw (.crash _)
    · refine (L.read s).bind fun source => (L.get target).bind fun old => ?_
      have step := (L.combine o old source).bind fun v => L.set target v
      rw [combine_bind, combine_bind] at step
      exact step

lemma turn (L : Tandem C env env' calls) (h : LoopHeader) (line : ℕ) {body : Exec σ Unit}
    {body' : Exec τ Unit} (hb : C.Couples body body') (shortest done : ℕ)
    {again : ℕ → Exec σ Unit} {again' : ℕ → Exec τ Unit}
    (ha : ∀ length, C.Couples (again length) (again' length)) {before before' : Registers}
    (hr : C.regs before before') :
    C.Couples (turn env h line body shortest done again before)
      (turn env' h line body' shortest done again' before') :=
  (L.charge 1).bind fun _ => hb.bind fun _ => (L.address h.target).bind fun start =>
    (L.rangeLength h).bind fun _ => L.judge line start _ done hr (ha _)

lemma iterate (L : Tandem C env env' calls) (h : LoopHeader) (line : ℕ) {body : Exec σ Unit}
    {body' : Exec τ Unit} (hb : C.Couples body body') (fuel shortest done : ℕ) :
    C.Couples (iterate env h line body fuel shortest done)
      (iterate env' h line body' fuel shortest done) := by
  induction fuel generalizing shortest done with
  | zero => exact L.charge 1
  | succ fuel ih =>
    have next (length : ℕ) := ih length (done + 1)
    rw [iterate_succ, iterate_succ]
    exact .look (fun _ => rising_turn env h line hb.left shortest done (fun n => (next n).left) _)
      (fun _ => rising_turn env' h line hb.right shortest done (fun n => (next n).right) _)
      fun s t hst => (L.turn h line hb shortest done next hst.regs).out s t hst

lemma repeatBody (L : Tandem C env env' calls) (h : LoopHeader) (line : ℕ)
    {body : Exec σ Unit} {body' : Exec τ Unit} (hb : C.Couples body body') :
    C.Couples (repeatBody env h line body) (repeatBody env' h line body') := by
  refine (L.rangeLength h).bind fun shortest => ?_
  refine .look (fun s => (L.iterate h line hb _ shortest 0).left)
    (fun t => (L.iterate h line hb _ shortest 0).right) fun s t hst => ?_
  -- both loops go on as if with the larger fuel
  obtain ⟨fuel, hfuel⟩ : ∃ n : ℕ, n = max (env.limits.stepBudget + 1 - s.steps).toNat
    (env'.limits.stepBudget + 1 - t.steps).toNat := ⟨_, rfl⟩
  rw [run_iterate_congr env h line hb.left _ fuel shortest 0 s
      (by unfold Fuelled; omega) (by unfold Fuelled; omega),
    run_iterate_congr env' h line hb.right _ fuel shortest 0 t
      (by unfold Fuelled; omega) (by unfold Fuelled; omega)]
  exact (L.iterate h line hb fuel shortest 0).out s t hst

end Tandem

namespace Lockstep

variable {C : Coupling σ τ} {env : Env σ} {env' : Env τ} {calls : Int → Prop}

/-- **Blocks keep couplings.** What the single acts keep, a block keeps. -/
theorem runBlock (L : Lockstep C env env' calls) : ∀ b : Block, b.CallsIn calls →
    C.Couples (runBlock env b) (runBlock env' b)
  | .nil, _ => .pure ()
  | .instr i line rest, h =>
    (L.visit (.instr i line) (L.execute i h.1)).bind fun _ => L.runBlock rest h.2
  | .loop g line body rest, h =>
    (L.visit (.loop g line) (L.repeatBody g line (L.runBlock body h.1))).bind fun _ =>
      L.runBlock rest h.2

theorem exec (L : Lockstep C env env' calls) {body : Block} (hb : body.CallsIn calls)
    (input : Int) : C.Couples (exec env body input) (exec env' body input) := by
  refine (L.set 0 input).bind fun _ => (L.runBlock body hb).bind fun _ => (L.get 0).bind
    fun value => .look (fun _ => rising_pure _) (fun _ => rising_pure _) fun s t hst => ?_
  exact ⟨by rw [hst.same], hst⟩

end Lockstep

end Machine

end SeqAsm
