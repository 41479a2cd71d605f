import Mathlib
import SeqAsm.Proofs.Arith.Binomial
import SeqAsm.Proofs.Machine.Failures
import SeqAsm.Proofs.Machine.Termination

/-!
Runs that fail without a report.

A binomial coefficient with more factors than a machine word can count is the one thing that a
program can ask for and that is neither answered nor refused with a diagnostic. Every other
failure of a run is reported, if the failures of its calls are; and where sizes are limited to
64 bits or fewer, operands are refused before they get so large.
-/

namespace SeqAsm

namespace Machine

variable {σ α β : Type} {env : Env σ} {s s' : State σ}

/-! ### Where a run stops -/

/-- The machine is at a binomial coefficient of a block that is too wide, and no limit of 64 bits
or fewer is set. -/
def AtTooWide (limits : Limits) (b : Block) (s : State σ) : Prop :=
  ∃ target source line n k, Node.instr ⟨.op .bin, [target, source]⟩ line ∈ b.nodes ∧
    (read target).run s = (.ok n, s) ∧ (read source).run s = (.ok k, s) ∧ Arith.TooWide n k ∧
    ∀ bits, limits.maxValueBits = some bits → 64 < bits

/-- A failure that is reported, or the one of a block that is not, at the place where it arises. -/
def Accounted (limits : Limits) (b : Block) (e : Failure) (s : State σ) : Prop :=
  ∀ c, e = .crash c → c = .countOverflow ∧ AtTooWide limits b s

lemma expected_accounted (env : Env σ) (b : Block) : Expected (Accounted env.limits b) env where
  own _ own c hc := by
    obtain ⟨d, rfl⟩ := own.described
    cases hc
  exhausted _ _ _ _ hc := nomatch hc
  locate {e _} n h c hc := by
    rcases e with d | c'
    · cases hc
    · exact h c hc

/-! ### Operands -/

lemma run_read_register {o : Operand} (register : o.isRegister = true) {a n : Int}
    (ha : (address o).run s = (.ok a, s)) (hn : s.registers.get a = .ok n) :
    (read o).run s = (.ok n, s) := by
  have unfolded : (read o : Exec σ Int) = address o >>= fun a => ask (·.get a) := by
    cases o with
    | const v => cases register
    | reg i => rfl
    | ind i => rfl
  rw [unfolded, run_bind, ha]
  dsimp only
  rw [run_ask, hn]

/-! ### Blocks -/

variable {calls : Int → Prop} {b : Block}

/-- An operation fails with a report, or it is a binomial coefficient that is too wide. -/
lemma accounted_operation (A : Acts (FailsAs (Accounted env.limits b)) env calls) {o : Operation}
    {target source : Operand} {line : ℕ} (register : target.isRegister = true)
    (there : Node.instr ⟨.op o, [target, source]⟩ line ∈ b.nodes) :
    FailsAs (Accounted env.limits b) fun budget =>
      execute (env.withBudget budget) ⟨.op o, [target, source]⟩ := by
  refine (A.charge 1).bind fun _ => ?_
  intro budget s e s' he
  change (address target >>= _).run s = _ at he
  rw [run_bind] at he
  rcases ha : (address target).run s with ⟨e' | a, s₁⟩ <;> rw [ha] at he
  · cases he
    exact A.address register budget s _ _ ha
  obtain rfl := (looks_address target).eq ha
  dsimp only at he
  rw [run_bind] at he
  rcases hk : (read source).run s₁ with ⟨e' | k, s₂⟩ <;> rw [hk] at he
  · cases he
    exact A.read source budget s₁ _ _ hk
  obtain rfl := (looks_read source).eq hk
  dsimp only at he
  rw [run_bind, run_ask] at he
  rcases hn : s₂.registers.get a with e' | n <;> rw [hn] at he
  · cases he
    exact (expected_accounted env b).own _ (Registers.own_get hn)
  dsimp only at he
  rcases hf : Arith.compute env.limits.maxValueBits o n k with f | v
  · have fails : (throw f.failure : Exec σ Unit).run s₂ = (.error e, s') := by
      simpa [Env.withBudget, hf] using he
    cases fails
    intro c hc
    by_cases wide : f = .binomialTooWide
    · subst wide
      obtain ⟨rfl, wide, limit⟩ := Arith.compute_eq_tooWide hf
      cases hc
      exact ⟨rfl, target, source, line, n, k, there, run_read_register register ha hn, hk, wide,
        limit⟩
    · obtain ⟨d, hd⟩ := (Failure.own_fault wide).described
      cases hd.symm.trans hc
  · have stores : (change (·.set a v) : Exec σ Unit).run s₂ = (.error e, s') := by
      simpa [Env.withBudget, hf] using he
    exact A.change (fun _ _ => Registers.own_set) budget s₂ e s' stores

lemma accounted_execute (A : Acts (FailsAs (Accounted env.limits b)) env calls) {i : Instruction}
    {line : ℕ} (wf : i.WellFormed) (hi : ∀ id, i.callee = .ok (some id) → calls id)
    (there : Node.instr i line ∈ b.nodes) :
    FailsAs (Accounted env.limits b) fun budget => execute (env.withBudget budget) i := by
  by_cases operation : ∃ o, i.opcode = .op o
  · obtain ⟨o, ho⟩ := operation
    obtain @⟨code, target, source, register, -, -, -⟩ := wf
    obtain rfl : code = .op o := ho
    exact accounted_operation A register there
  · exact A.execute wf hi fun o _ _ _ ho => absurd ⟨o, ho⟩ operation

/-- Every failure of a block is accounted for, if those of its calls are. -/
lemma accounted_runBlock {whole : Block}
    (A : Acts (FailsAs (Accounted env.limits whole)) env fun _ => True) :
    ∀ {b : Block}, b.WellFormed → b.nodes ⊆ whole.nodes →
      FailsAs (Accounted env.limits whole) fun budget => runBlock (env.withBudget budget) b
  | .nil, _, _ => A.pure ()
  | .instr i line _, wf, sub => by
    have there : Node.instr i line ∈ whole.nodes := sub List.mem_cons_self
    refine A.bind (A.visit _ (accounted_execute A wf.1 (fun _ _ => trivial) there)) fun _ => ?_
    exact accounted_runBlock A wf.2 fun _ hn => sub (List.mem_cons_of_mem _ hn)
  | .loop h line body rest, wf, sub => by
    have inside : body.nodes ⊆ whole.nodes := fun _ hn =>
      sub (List.mem_cons_of_mem _ (List.mem_append_left _ hn))
    have after : rest.nodes ⊆ whole.nodes := fun _ hn =>
      sub (List.mem_cons_of_mem _ (List.mem_append_right _ hn))
    have repeated := (expected_accounted env whole).repeatBody A wf.1.isRegister
      (accounted_runBlock A wf.2.1 inside) line
    exact A.bind (A.visit _ repeated) fun _ => accounted_runBlock A wf.2.2 after

/-- A host that reports every failure of a call. -/
def HostReports (host : Host σ) : Prop :=
  ∀ id argument w c, (host.call id argument w).1 ≠ .error (.crash c)

lemma acts_accounted (env : Env σ) (b : Block) (reports : ∀ host, env.host = some host →
    HostReports host) : Acts (FailsAs (Accounted env.limits b)) env fun _ => True := by
  have E := expected_accounted env b
  refine E.acts fun target id argument _ _ => ?_
  rcases hh : env.host with _ | host
  · intro budget s e s' he c hc
    have unanswered : (serve (env.withBudget budget) target id argument).run s =
        (.error (.of (.unresolvedDependency id env.program) []), s) :=
      congrArg (·.run s) (serve_of_none (env.withBudget budget) hh target id argument)
    cases unanswered.symm.trans he
    cases hc
  · refine E.serve hh target fun w e s answer c hc => ?_
    obtain rfl := hc
    exact absurd (congrArg Prod.fst answer) (reports host hh id argument w c)

/-- **A run of a program that has been read returns, or fails with a report, or stops at a
binomial coefficient that is too wide.** No other fault of the host ever ends it, if none ends
the calls that it makes. -/
theorem run_accounted (limits : Limits) (host : Option (Host σ)) {text file : String}
    {id : Option Int} {p : Program} (parsed : Program.parse text file id = .ok p)
    (reports : ∀ h, host = some h → HostReports h) (input : Int) (world : σ) :
    let out := run limits host p input world
    (∃ r, out.1 = .ok r) ∨ (∃ d, out.1 = .error (.diagnostic d)) ∨
      out.1 = .error (.crash .countOverflow) ∧ AtTooWide limits p.body out.2 := by
  intro out
  have A := acts_accounted ⟨limits, p.id, host⟩ p.body reports
  have whole : FailsAs (Accounted limits p.body) fun budget =>
      exec (Env.withBudget ⟨limits, p.id, host⟩ budget) p.body input :=
    A.bind (A.change fun _ _ => Registers.own_set) fun _ => A.bind (accounted_runBlock A
      (Program.wellFormed_of_parse parsed).body (List.Subset.refl _)) fun _ =>
        A.bind (A.ask fun _ _ => Registers.own_get) fun value => A.steps (Result.mk value)
  rcases ho : out with ⟨(d | c) | r, s⟩
  · exact .inr (.inl ⟨d, rfl⟩)
  · obtain ⟨rfl, stopped⟩ := whole limits.stepBudget _ _ s ho c rfl
    exact .inr (.inr ⟨rfl, stopped⟩)
  · exact .inl ⟨r, rfl⟩

/-- A program with one binomial coefficient, of its input over a number of 64 bits. -/
def wideBinomial : Program where
  body := .instr ⟨.op .bin, [.reg 0, .const (2 ^ 63)]⟩ 1 .nil

lemma parse_wideBinomial :
    Program.parse "bin $0,9223372036854775808" "<input>" none = .ok wideBinomial := by
  cbv

lemma run_wideBinomial :
    (run {} (some adder) wideBinomial (2 ^ 64) ()).1 = .error (.crash .countOverflow) := by
  cbv

lemma reports_adder : HostReports adder := fun _ _ _ _ h => nomatch h

/-- What a run stops at that neither returns nor fails with a report. -/
theorem run_accounted_wideBinomial :
    Program.parse "bin $0,9223372036854775808" "<input>" none = .ok wideBinomial ∧
      HostReports adder ∧
      AtTooWide {} wideBinomial.body (run {} (some adder) wideBinomial (2 ^ 64) ()).2 := by
  have reports (h : Host Unit) (hh : some adder = some h) : HostReports h :=
    Option.some.inj hh ▸ reports_adder
  refine ⟨parse_wideBinomial, reports_adder, ?_⟩
  obtain ⟨r, hr⟩ | ⟨d, hd⟩ | ⟨-, stopped⟩ :=
    run_accounted {} (some adder) parse_wideBinomial reports (2 ^ 64) ()
  · cases run_wideBinomial.symm.trans hr
  · cases run_wideBinomial.symm.trans hd
  · exact stopped

/-- Not every run returns or fails with a report. -/
theorem run_not_reported : ¬ ∀ (text : String) (p : Program),
    Program.parse text "<input>" none = .ok p → ∀ (limits : Limits) (host : Host Unit),
      HostReports host → ∀ input, (∃ r, (run limits (some host) p input ()).1 = .ok r) ∨
        ∃ d, (run limits (some host) p input ()).1 = .error (.diagnostic d) := by
  intro always
  rcases always _ wideBinomial parse_wideBinomial {} adder reports_adder (2 ^ 64) with
    ⟨r, hr⟩ | ⟨d, hd⟩
  · cases run_wideBinomial.symm.trans hr
  · cases run_wideBinomial.symm.trans hd

end Machine

end SeqAsm
