import SeqAsm.Proofs.Machine.Failures
import SeqAsm.Proofs.Machine.Termination

/-!
What the machine need not check.

The machine has ways to fail that are faults of the engine: a constant for an address, a call of no
program, an operand that is not there. Every node of a program that has been read is checked, at any
depth, so a run fails in these ways only if one of its calls is answered so.
-/

namespace SeqAsm

/-! ### Nodes -/

lemma Opcode.word_ne_marker (o : Opcode) : o.word ≠ "lpb" ∧ o.word ≠ "lpe" := by
  constructor
  · exact fun h => nomatch Mnemonic.word_injective (m := .code o) (n := .lpb) h
  · exact fun h => nomatch Mnemonic.word_injective (m := .code o) (n := .lpe) h

/-- A call has a constant for its source, which names the program. -/
lemma Instruction.callee_of_isId {code : Opcode} {target source : Operand} (h : source.IsId)
    (call : code.isCall = true) : ∃ id, 0 ≤ id ∧ source = .const id ∧
      Instruction.callee ⟨code, [target, source]⟩ = .ok (some id) := by
  obtain ⟨id, right, rfl⟩ := h.exists_const
  exact ⟨id, right, rfl, if_pos call⟩

/-- A program calls another one, by one of its instructions. -/
def Program.Calls (p : Program) (id : Int) : Prop :=
  ∃ i line, Node.instr i line ∈ p.nodes ∧ i.callee = .ok (some id)

/-! ### Failures -/

/-- The engine is at fault, or an operand is missing. -/
def Failure.IsInternal : Failure → Prop
  | .diagnostic d => ∃ message, d.cause = .engine message
  | .crash c => c = .missingOperand

lemma Failure.OfRun.not_isInternal {e : Failure} (h : e.OfRun) : ¬ e.IsInternal := by
  cases e with
  | diagnostic d =>
    rintro ⟨message, hd⟩
    rw [OfRun, hd] at h
    cases h
  | crash c =>
    obtain rfl : c = .countOverflow := h
    exact nofun

namespace Machine

variable {σ : Type}

lemma locate_of_isInternal {env : Env σ} {n : Node} {e : Failure}
    (h : (locate env n e).IsInternal) : locate env n e = e := by
  cases e with
  | diagnostic d =>
    by_cases own : d.cause.isEvaluation = true
    · have run : (Failure.diagnostic d).OfRun := own
      exact absurd h (ofRun_locate.2 run).not_isInternal
    · simp [locate, own]
  | crash c => rfl

/-- A call is answered with a failure, and the host is left in a state. -/
def AnsweredWith (host : Option (Host σ)) (calls : Int → Prop) (e : Failure) (world : σ) : Prop :=
  ∃ h, host = some h ∧ ∃ id argument w, calls id ∧ 0 ≤ argument ∧
    h.call id argument w = (.error e, world)

/-- A failure that is internal is the answer to a call, which is the last thing that happened. -/
def OnlyAnswered (host : Option (Host σ)) (calls : Int → Prop) (e : Failure) (s : State σ) : Prop :=
  e.IsInternal → AnsweredWith host calls e s.world

variable {env : Env σ} {calls : Int → Prop}

lemma expected_answered (env : Env σ) (calls : Int → Prop) :
    Expected (OnlyAnswered env.host calls) env where
  own _ own internal := absurd internal own.ofRun.not_isInternal
  exhausted _ _ _ internal := absurd internal (Failure.OfRun.not_isInternal rfl)
  locate _ h internal := by
    have same := locate_of_isInternal internal
    rw [same] at internal ⊢
    exact h internal

/-- The host alone answers with an internal failure. -/
lemma answered_serve (env : Env σ) (calls : Int → Prop) (target : Int) {id argument : Int}
    (hid : calls id) (ha : 0 ≤ argument) :
    FailsAs (OnlyAnswered env.host calls) fun budget =>
      serve (env.withBudget budget) target id argument := by
  rcases hh : env.host with _ | host
  · intro budget s e s' he internal
    have unanswered : (serve (env.withBudget budget) target id argument).run s =
        (.error (.of (.unresolvedDependency id env.program) []), s) :=
      congrArg (·.run s) (serve_of_none (env.withBudget budget) hh target id argument)
    cases unanswered.symm.trans he
    obtain ⟨_, engine⟩ := internal
    cases engine
  · rw [← hh]
    exact (expected_answered env calls).serve hh target fun w _ _ answer _ =>
      ⟨host, hh, id, argument, w, hid, ha, answer⟩

lemma lawful_answered (env : Env σ) (calls : Int → Prop) :
    Lawful (FailsAs (OnlyAnswered env.host calls)) env calls fun _ => True := by
  have E := expected_answered env calls
  have A : Acts (FailsAs (OnlyAnswered env.host calls)) env calls :=
    E.acts fun target _ _ => answered_serve env calls target
  exact
    { toActs := A
      fault := fun f => failsAs_throw fun _ internal =>
        absurd internal (Failure.ofRun_fault f).not_isInternal
      repeatBody := fun line wf _ hb => E.repeatBody A wf.isRegister hb line }

/-- **A run of a well-formed program has no internal failure of its own.** -/
theorem answered_of_run (limits : Limits) (host : Option (Host σ)) {p : Program}
    (wf : p.WellFormed) (hc : p.body.CallsIn calls) {input : Int} {w : σ} {e : Failure}
    (he : (run limits host p input w).1 = .error e) (internal : e.IsInternal) :
    AnsweredWith host calls e (run limits host p input w).2.world :=
  (lawful_answered ⟨limits, p.id, host⟩ calls).exec wf.body hc p.body.loopsIn_true input
    limits.stepBudget _ e _ (Prod.ext he rfl) internal

/-- **What has been read is right at any depth, so the machine need not check it.** Instructions
have a target to write to and a source, calls name a program, registers have no negative index,
loops compare a range of registers of a bounded length and do not nest too deep. An internal
failure of a run is the answer that its last call has got. -/
theorem checked_of_parse {text file : String} {id : Option Int} {p : Program}
    (parsed : Program.parse text file id = .ok p) :
    (∀ i line, Node.instr i line ∈ p.nodes → i.opcode.word ≠ "lpb" ∧ i.opcode.word ≠ "lpe" ∧
        ∃ target source, i.operands = [target, source] ∧ target.isRegister = true ∧
          target.Proper ∧ source.Proper ∧ (i.opcode.isCall = true →
            ∃ callee, 0 ≤ callee ∧ source = .const callee ∧ i.callee = .ok (some callee))) ∧
      (∀ h line, Node.loop h line ∈ p.nodes → h.target.isRegister = true ∧ h.target.Proper ∧
        h.length.Proper ∧ ∀ n, h.length = .const n → 0 ≤ n ∧ n ≤ 255) ∧
      p.body.depth ≤ 255 ∧
      ∀ (limits : Limits) (host : Option (Host σ)) (input : Int) (world : σ) (e : Failure),
        (run limits host p input world).1 = .error e → e.IsInternal →
          AnsweredWith host p.Calls e (run limits host p input world).2.world := by
  have wf := Program.wellFormed_of_parse parsed
  have nodes := Block.wellFormed_iff.1 wf.body
  refine ⟨fun i line there => ?_, fun h line there => ?_, wf.depth,
    fun limits host input world e => answered_of_run limits host wf ?_⟩
  · obtain @⟨code, target, source, register, proper, right, isId⟩ := nodes _ there
    obtain ⟨lpb, lpe⟩ := code.word_ne_marker
    exact ⟨lpb, lpe, target, source, rfl, register, proper, right,
      fun call => Instruction.callee_of_isId (isId call) call⟩
  · have header : h.WellFormed := nodes _ there
    refine ⟨header.isRegister, header.target, header.length, fun n hn => ?_⟩
    have bounded := header.isLength
    rwa [hn] at bounded
  · exact Block.callsIn_iff.2 fun i line there id hid => ⟨i, line, there, hid⟩

/-- A run of two loops, one of which calls a program, never fails by a fault of the engine. -/
theorem checked_of_parse_nested :
    Program.parse nested.text "nested" none = .ok nested ∧ ∀ (limits : Limits) (input : Int) e,
      (run limits (some adder) nested input ()).1 = .error e → ¬ e.IsInternal := by
  have parsed : Program.parse nested.text "nested" none = .ok nested :=
    Program.parse_text_eq (by decide) "nested" none
  obtain ⟨-, -, -, answered⟩ := checked_of_parse (σ := Unit) parsed
  refine ⟨parsed, fun limits input e he internal => ?_⟩
  obtain ⟨host, same, _, _, _, _, _, failed⟩ := answered limits (some adder) input () e he internal
  obtain rfl : adder = host := Option.some.inj same
  cases failed

end Machine

end SeqAsm
