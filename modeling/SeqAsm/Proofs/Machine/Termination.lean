import Mathlib.Order.WellFounded
import SeqAsm.Proofs.Machine.Acts
import SeqAsm.Proofs.Program.RoundTrip

/-!
Loops over a fixed range end.

A loop goes on as long as its range gets smaller. Where the range always starts at the same
register, it gets smaller in the lexicographic order of as many registers as the shortest length
so far, and no register that decides is negative; so the order is well-founded. It follows that
a block whose loops are all of this kind has an end from every state, however deep they nest:
with enough steps, a run is always the same, and it does not run out of them.
-/

namespace SeqAsm

namespace Registers

variable {r old : Registers} {i : Int} {m n : ℕ}

/-- A range gets smaller when its first register does, or stays as it is and the rest does. -/
lemma isLess_succ_iff : r.isLess old i (n + 1) = true ↔ 0 ≤ r.peek i ∧
    (r.peek i < old.peek i ∨ r.peek i = old.peek i ∧ r.isLess old (i + 1) n = true) := by
  rw [isLess]
  split
  · simp only [Bool.false_eq_true, false_iff]
    omega
  · split
    · simp only [true_iff]
      omega
    · split
      · simp only [Bool.false_eq_true, false_iff]
        omega
      · have same : r.peek i = old.peek i := by omega
        simp only [same, lt_irrefl, false_or, true_and]
        exact ⟨fun h => ⟨by omega, h⟩, And.right⟩

lemma isLess_mono (h : r.isLess old i m = true) (hn : m ≤ n) : r.isLess old i n = true := by
  induction m generalizing i n with
  | zero => cases h
  | succ m ih =>
    obtain ⟨n, rfl⟩ : ∃ k, n = k + 1 := ⟨n - 1, by omega⟩
    obtain ⟨positive, h⟩ := isLess_succ_iff.1 h
    exact isLess_succ_iff.2 ⟨positive, h.imp_right fun ⟨same, less⟩ => ⟨same, ih less (by omega)⟩⟩

/-- **A range does not get smaller forever.** -/
lemma wellFounded_isLess (i : Int) (n : ℕ) :
    WellFounded fun r old : Registers => r.isLess old i n = true := by
  induction n generalizing i with
  | zero => exact ⟨fun r => ⟨r, fun _ h => nomatch h⟩⟩
  | succ n ih =>
    have lex := WellFounded.prod_lex Nat.lt_wfRel.wf (ih (i + 1))
    refine Subrelation.wf (fun {r old} h => ?_)
      (InvImage.wf (fun r : Registers => ((r.peek i).toNat, r)) lex)
    change Prod.Lex _ _ ((r.peek i).toNat, r) ((old.peek i).toNat, old)
    obtain ⟨positive, lt | ⟨same, less⟩⟩ := isLess_succ_iff.1 h
    · have falls : (r.peek i).toNat < (old.peek i).toNat := by omega
      exact .left _ _ falls
    · rw [same]
      exact .right _ less

end Registers

namespace Machine

variable {σ α β : Type} {env : Env σ} {s : State σ}

/-- A call fails because the host has no steps left. -/
def HostExhausts (host : Option (Host σ)) : Prop :=
  ∃ h, host = some h ∧ ∃ id argument w e, (h.call id argument w).1 = .error e ∧ e.IsExhausted

/-- What all runs come to that have enough steps. If that is a failure for want of steps, the
host is to blame. -/
structure Outcome (env : Env σ) (x : Int → Exec σ α) (s : State σ) (enough : ℕ)
    (out : Except Failure α × State σ) : Prop where
  steps : out.2.steps ≤ enough
  blame {e : Failure} : out.1 = .error e → e.IsExhausted → HostExhausts env.host
  same {budget : Int} : enough ≤ budget → (x budget).run s = out

/-- With enough steps, the runs from a state are one. -/
def Ends (env : Env σ) (x : Int → Exec σ α) (s : State σ) : Prop :=
  ∃ enough out, Outcome env x s enough out

/-- A run that does not depend on the budget and does not fail for want of steps. -/
lemma ends_of_run {x : Int → Exec σ α} {out : Except Failure α × State σ}
    (h : ∀ budget, (x budget).run s = out) (own : ∀ e, out.1 = .error e → ¬ e.IsExhausted) :
    Ends env x s :=
  ⟨out.2.steps, out, le_rfl, fun he hx => absurd hx (own _ he), fun _ => h _⟩

lemma Ends.congr {x y : Int → Exec σ α} {s' : State σ} (h : Ends env y s')
    (same : ∀ budget, (x budget).run s = (y budget).run s') : Ends env x s := by
  obtain ⟨enough, out, o⟩ := h
  exact ⟨enough, out, o.steps, o.blame, fun hb => (same _).trans (o.same hb)⟩

lemma Ends.bind {x : Int → Exec σ α} {f : α → Int → Exec σ β} (hx : Ends env x s)
    (hf : ∀ a s', (∃ budget, (x budget).run s = (.ok a, s')) → Ends env (f a) s') :
    Ends env (fun budget => x budget >>= fun a => f a budget) s := by
  obtain ⟨enough, ⟨e | a, s'⟩, o⟩ := hx
  · refine ⟨enough, (.error e, s'), o.steps, fun he => ?_, fun hb => ?_⟩
    · obtain rfl := Except.error.inj he
      exact o.blame rfl
    · rw [run_bind, o.same hb]
  · obtain ⟨more, out, o'⟩ := hf a s' ⟨enough, o.same le_rfl⟩
    refine ⟨max enough more, out, le_trans o'.steps (le_max_right _ _), o'.blame, fun hb => ?_⟩
    rw [run_bind, o.same (by omega)]
    exact o'.same (by omega)

/-- A computation that ends from every state and never gives steps back. -/
structure Settles (env : Env σ) (x : Int → Exec σ α) : Prop where
  rising (budget : Int) : Rising (x budget)
  ends (s : State σ) : Ends env x s

lemma Settles.bind {x : Int → Exec σ α} {f : α → Int → Exec σ β} (hx : Settles env x)
    (hf : ∀ a, Settles env (f a)) : Settles env fun budget => x budget >>= fun a => f a budget :=
  ⟨fun budget => (hx.rising budget).bind fun a => (hf a).rising budget,
    fun s => (hx.ends s).bind fun a s' _ => (hf a).ends s'⟩

lemma settles_pure (a : α) : Settles env fun _ => pure a :=
  ⟨fun _ => rising_pure a, fun s => ⟨s.steps, (.ok a, s), le_rfl, nofun, fun _ => rfl⟩⟩

lemma settles_throw {e : Failure} (other : ¬ e.IsExhausted) :
    Settles env fun _ => (throw e : Exec σ α) :=
  ⟨fun _ => rising_throw e, fun s => ⟨s.steps, (.error e, s), le_rfl,
    fun he hx => absurd (Except.error.inj he ▸ hx) other, fun _ => rfl⟩⟩

lemma settles_steps (f : ℕ → α) :
    Settles env fun _ => (get >>= fun s => pure (f s.steps) : Exec σ α) :=
  ⟨fun _ => rising_get.bind fun _ => rising_pure _,
    fun s => ⟨s.steps, (.ok (f s.steps), s), le_rfl, nofun, fun _ => rfl⟩⟩

lemma settles_ask {f : Registers → Except Failure α} (h : ∀ r e, f r = .error e → e.Own) :
    Settles env fun _ => ask f :=
  ⟨fun _ => rising_ask f,
    fun s => ends_of_run (fun _ => run_ask f s) fun e he => (h _ e he).notExhausted⟩

lemma settles_change {f : Registers → Except Failure Registers}
    (h : ∀ r e, f r = .error e → e.Own) : Settles env fun _ => change f := by
  refine ⟨fun _ => rising_change f, fun s => ends_of_run (fun _ => run_change f s) fun e he => ?_⟩
  rcases hf : f s.registers with e' | r <;> rw [hf] at he
  · obtain rfl := Except.error.inj he
    exact (h _ _ hf).notExhausted
  · cases he

/-- As many steps as are counted are enough. -/
lemma settles_charge (n : ℕ) : Settles env fun budget => charge (env.withBudget budget) n := by
  refine ⟨fun _ => rising_charge _ n, fun s => ?_⟩
  refine ⟨s.steps + n, (.ok (), { s with steps := s.steps + n }), le_rfl, nofun, fun hb => ?_⟩
  rw [run_charge, if_neg (by simpa [Env.withBudget] using hb)]

lemma settles_serve (target id argument : Int) :
    Settles env fun budget => serve (env.withBudget budget) target id argument := by
  refine ⟨fun _ => rising_serve _ target id argument, fun s => ?_⟩
  rcases hh : env.host with _ | host
  · have same (budget : Int) : (serve (env.withBudget budget) target id argument).run s =
        (.error (.of (.unresolvedDependency id env.program) []), s) :=
      congrArg (·.run s) (serve_of_none (env.withBudget budget) hh target id argument)
    refine ends_of_run same fun e he hx => ?_
    obtain rfl := Except.error.inj he
    obtain ⟨_, _, hx⟩ := hx
    cases hx
  refine Ends.congr ?_ fun budget => run_serve (env.withBudget budget) hh target id argument s
  rcases ha : (host.call id argument s.world).1 with e | result
  · exact ⟨s.steps, (.error e, { s with world := (host.call id argument s.world).2 }), le_rfl,
      fun he hx => ⟨host, hh, _, _, _, _, ha, Except.error.inj he ▸ hx⟩, fun _ => rfl⟩
  · have taken : Settles env fun budget => take (env.withBudget budget) target (.ok result) :=
      (settles_change fun _ _ => Registers.own_set).bind fun _ => settles_charge result.steps
    exact taken.ends _

lemma settles_visit {x : Int → Exec σ Unit} (n : Node) (hx : Settles env x) :
    Settles env fun budget => visit (env.withBudget budget) n (x budget) := by
  refine ⟨fun budget => (hx.rising budget).visit _ n, fun s => ?_⟩
  obtain ⟨enough, ⟨e | u, s'⟩, o⟩ := hx.ends s
  · refine ⟨enough, (.error (locate env n e), s'), o.steps, fun he hl => ?_, fun hb => ?_⟩
    · obtain rfl := Except.error.inj he
      exact o.blame rfl (isExhausted_locate.1 hl)
    · rw [run_visit, o.same hb]
      rfl
  · refine ⟨enough, (.ok u, s'), o.steps, nofun, fun hb => ?_⟩
    rw [run_visit, o.same hb]

lemma acts_settles (env : Env σ) : Acts (Settles env) env fun _ => True where
  pure := settles_pure
  bind := Settles.bind
  throw own := settles_throw own.notExhausted
  ask := settles_ask
  change := settles_change
  steps := settles_steps
  charge := settles_charge
  serve target id argument _ _ := settles_serve target id argument
  visit := settles_visit

/-! ### Loops -/

variable {h : LoopHeader} {i : Int} {line : ℕ} {body : Int → Exec σ Unit}

lemma ends_judge {before : Registers} {start : Int} {length done : ℕ}
    {again : Int → Exec σ Unit} (ha : s.registers.isLess before start length = true →
      Ends env again s) :
    Ends env (fun budget => judge (env.withBudget budget) line before start length done
      (again budget)) s := by
  rcases hv : verdict env line before start length done s with _ | out
  · refine (ha (isLess_of_verdict hv)).congr fun budget => ?_
    rw [run_judge, verdict_withBudget, hv]
    rfl
  · have same (budget : Int) : (judge (env.withBudget budget) line before start length done
        (again budget)).run s = out := by
      rw [run_judge, verdict_withBudget, hv]
      rfl
    refine ends_of_run same fun e he => ?_
    obtain ⟨_, s'⟩ := out
    obtain rfl : _ = Except.error e := he
    exact (own_of_verdict hv).notExhausted

lemma eq_of_address {a : Int} {s' : State σ} (target : h.target = .reg i)
    (ha : (address h.target).run s = (.ok a, s')) : a = i := by
  rw [target, address, run_bind, run_ask] at ha
  rcases hc : s.registers.check i with e | _ <;> rw [hc] at ha
  · cases ha
  · exact (Except.ok.inj (congrArg Prod.fst ha)).symm

lemma ends_turn (target : h.target = .reg i) (hb : Settles env body) {before : Registers}
    {shortest done : ℕ} {again : Int → ℕ → Exec σ Unit}
    (ha : ∀ length s', length ≤ shortest → s.steps ≤ s'.steps →
      s'.registers.isLess before i length = true →
        Ends env (fun budget => again budget length) s') :
    Ends env (fun budget => turn (env.withBudget budget) h line (body budget) shortest done
      (again budget) before) s := by
  have register : h.target.isRegister = true := by
    rw [target]
    rfl
  refine ((settles_charge 1).ends s).bind fun _ s₁ ⟨_, h₁⟩ => ?_
  refine (hb.ends s₁).bind fun _ s₂ ⟨_, h₂⟩ => ?_
  refine (((acts_settles env).address register).ends s₂).bind fun start s₃ ⟨_, h₃⟩ => ?_
  refine (((acts_settles env).rangeLength h).ends s₃).bind fun length s₄ ⟨_, h₄⟩ => ?_
  obtain rfl : start = i := eq_of_address target h₃
  have risen : s.steps ≤ s₄.steps := calc s.steps
    _ ≤ s₁.steps := (rising_charge _ 1).le h₁
    _ ≤ s₂.steps := (hb.rising _).le h₂
    _ ≤ s₃.steps := (rising_address h.target).le h₃
    _ ≤ s₄.steps := (rising_rangeLength _ h).le h₄
  exact ends_judge (ha _ s₄ (min_le_right _ _) risen)

lemma Fuelled.mono {fuel more : ℕ} {s' : State σ} (hf : Fuelled env fuel s) (hm : fuel ≤ more)
    (hs : s.steps ≤ s'.steps) : Fuelled env more s' := by
  unfold Fuelled at hf ⊢
  push_cast at hf ⊢
  omega

/-- With enough fuel, an iteration uses none up. -/
lemma run_iterate (hb : ∀ budget, Rising (body budget)) {fuel shortest done : ℕ} {budget : Int}
    (hf : Fuelled (env.withBudget budget) fuel s) :
    (iterate (env.withBudget budget) h line (body budget) fuel shortest done).run s =
      (turn (env.withBudget budget) h line (body budget) shortest done (fun length =>
        iterate (env.withBudget budget) h line (body budget) fuel length (done + 1))
        s.registers).run s := by
  rw [run_iterate_congr _ h line (hb budget) _ _ shortest done s hf
    (hf.mono (Nat.le_add_right fuel 1) le_rfl), iterate_succ, run_bind, run_get]

/-- **A loop over a fixed range ends** if its body does: the range gets smaller with every
iteration. -/
lemma ends_iterate (target : h.target = .reg i) (hb : Settles env body)
    (fuel : Int → ℕ) {shortest n : ℕ} (hn : shortest ≤ n) (done : ℕ) (s : State σ)
    (hf : ∀ budget, Fuelled (env.withBudget budget) (fuel budget) s) :
    Ends env (fun budget =>
      iterate (env.withBudget budget) h line (body budget) (fuel budget) shortest done) s := by
  -- the induction is on the registers, along the order in which the range gets smaller
  generalize hr : s.registers = r
  induction r using (Registers.wellFounded_isLess i n).induction generalizing s shortest done with
  | _ r ih =>
    refine Ends.congr ?_ fun budget => run_iterate hb.rising (hf budget)
    refine ends_turn target hb fun length s' short risen less => ?_
    have shorter : length ≤ n := le_trans short hn
    rw [hr] at less
    exact ih s'.registers (Registers.isLess_mono less shorter) shorter (done + 1) s'
      (fun budget => (hf budget).mono le_rfl risen) rfl

lemma rising_iterate (env : Env σ) (h : LoopHeader) (line : ℕ) {body : Exec σ Unit}
    (hb : Rising body) (fuel shortest done : ℕ) :
    Rising (iterate env h line body fuel shortest done) := by
  induction fuel generalizing shortest done with
  | zero => exact rising_charge env 1
  | succ fuel ih =>
    rw [iterate_succ]
    exact rising_get.bind fun _ =>
      rising_turn env h line hb shortest done (fun length => ih length (done + 1)) _

lemma settles_repeatBody (target : h.target = .reg i) (hb : Settles env body) (line : ℕ) :
    Settles env fun budget => repeatBody (env.withBudget budget) h line (body budget) := by
  refine ⟨fun budget => ?_, fun s => ?_⟩
  · exact (rising_rangeLength _ h).bind fun _ => rising_get.bind fun _ =>
      rising_iterate _ h line (hb.rising budget) _ _ 0
  · refine (((acts_settles env).rangeLength h).ends s).bind fun shortest s₁ _ => ?_
    have fuelled (budget : Int) :
        Fuelled (env.withBudget budget) (budget + 1 - s₁.steps).toNat s₁ := by
      unfold Fuelled
      change budget < _
      omega
    exact (ends_iterate target hb _ le_rfl 0 s₁ fuelled).congr fun _ => rfl

/-- The loop compares a range that starts at a fixed register. -/
def Fixed (h : LoopHeader) : Prop := ∃ i, h.target = .reg i

theorem lawful_settles (env : Env σ) : Lawful (Settles env) env (fun _ => True) Fixed where
  toActs := acts_settles env
  fault f := settles_throw (Failure.not_isExhausted_fault f)
  repeatBody line _ fixed hb := settles_repeatBody fixed.choose_spec hb line

/-- **Programs whose loops compare fixed ranges end on their own.** There is a number of steps
with which, and with any greater one, a run is the same and takes no more than these steps. So it
never fails for want of steps, unless a call does. -/
theorem run_ends (limits : Limits) (host : Option (Host σ)) {text file : String}
    {id : Option Int} {p : Program} (read : Program.parse text file id = .ok p)
    (fixed : p.body.LoopsIn Fixed) (input : Int) (world : σ) :
    ∃ (enough : ℕ) (out : Except Failure Result × State σ), out.2.steps ≤ enough ∧
      (∀ e, out.1 = .error e → e.IsExhausted → HostExhausts host) ∧
      ∀ budget : Int, enough ≤ budget →
        run { limits with stepBudget := budget } host p input world = out := by
  have wf := (Program.wellFormed_of_parse read).body
  have whole := (lawful_settles ⟨limits, p.id, host⟩).exec wf p.body.callsIn_true fixed input
  obtain ⟨enough, out, o⟩ := whole.ends (start limits world)
  exact ⟨enough, out, o.steps, fun _ he hx => o.blame he hx, fun _ hb => o.same hb⟩

/-- A loop inside a loop, which calls a program and so makes the outer range's second register
greater. -/
def nested : Program where
  body :=
    .loop ⟨.reg 0, .const 2⟩ 1
      (.instr ⟨.op .sub, [.reg 0, .const 1]⟩ 2
        (.loop ⟨.reg 2, .ind 3⟩ 3 (.instr ⟨.seq, [.reg 1, .const 45]⟩ 4 .nil) .nil))
      .nil

/-- A host that answers every call, in three steps. -/
def adder : Host Unit where
  call _ argument _ := (.ok ⟨argument + 5, 3⟩, ())
  stalled _ _ _ := ()

theorem run_ends_nested :
    Program.parse nested.text "nested" none = .ok nested ∧ nested.body.LoopsIn Fixed ∧
      ∃ enough : ℕ, ∀ budget : Int, enough ≤ budget → ∀ e,
        (run { stepBudget := budget } (some adder) nested 7 ()).1 = .error e →
          ¬ e.IsExhausted := by
  have read : Program.parse nested.text "nested" none = .ok nested :=
    Program.parse_text_eq (by decide) "nested" none
  have fixed : nested.body.LoopsIn Fixed := ⟨⟨0, rfl⟩, ⟨⟨2, rfl⟩, trivial, trivial⟩, trivial⟩
  obtain ⟨enough, out, -, blame, same⟩ := run_ends {} (some adder) read fixed 7 ()
  refine ⟨read, fixed, enough, fun budget hb e he hx => ?_⟩
  rw [same budget hb] at he
  obtain ⟨host, answers, _, _, _, _, failed, -⟩ := blame e he hx
  obtain rfl : adder = host := Option.some.inj answers
  cases failed

end Machine

end SeqAsm
