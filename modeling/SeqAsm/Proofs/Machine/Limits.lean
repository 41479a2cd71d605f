import SeqAsm.Proofs.Arith.Limit
import SeqAsm.Proofs.Machine.Lockstep

/-!
Runs under different limits.

Limits only cut runs off: what a run returns under tighter limits it also returns under looser
ones. When the step budget alone is tighter, a run that the looser budget lets through and the
tighter one does not is one that takes more steps than the tighter budget has.
-/

namespace SeqAsm

/-- A bound that is at most another one; where there is none, everything is allowed. -/
def AtMost (a b : Option Int) : Prop := ∀ y, b = some y → ∃ x, a = some x ∧ x ≤ y

/-- Limits of which none allows more than those of another kind do. -/
structure Limits.Tighter (l m : Limits) : Prop where
  stepBudget : l.stepBudget ≤ m.stepBudget
  loopPolicy : m.loopPolicy = .rollback ∨ l.loopPolicy = m.loopPolicy
  maxLoopIterations : AtMost l.maxLoopIterations m.maxLoopIterations
  maxValueBits : AtMost l.maxValueBits m.maxValueBits
  capacity : l.capacity ≤ m.capacity

/-- Limits that differ in the step budget at most. -/
structure Limits.SameButBudget (l m : Limits) : Prop where
  loopPolicy : l.loopPolicy = m.loopPolicy
  maxLoopIterations : l.maxLoopIterations = m.maxLoopIterations
  maxValueBits : l.maxValueBits = m.maxValueBits
  capacity : l.capacity = m.capacity

/-- The failure of a run that was stopped because it would not end. -/
def Failure.IsNonTerminating : Failure → Prop
  | .diagnostic d => ∃ message steps, d.cause = .nonTerminating message steps
  | .crash _ => False

lemma Diagnostic.cause_locate (d : Diagnostic) (span : Span) (line : String)
    (program : Option Int) : (d.locate span line program).cause = d.cause := by
  unfold Diagnostic.locate
  split
  · rfl
  · rcases program with _ | id
    · rfl
    · dsimp only
      unfold Diagnostic.addDetail
      split <;> rfl

namespace Arith

/-- A value that a tighter limit on sizes lets through, a looser one lets through. -/
lemma compute_of_atMost {a b : Option Int} (h : AtMost a b) {o : Operation} {x y v : Int}
    (hv : compute a o x y = .ok v) : compute b o x y = .ok v := by
  by_cases ho : o = .mov
  · subst ho
    cases a <;> cases b <;> exact hv
  have applied : apply o x y = .ok v := by
    cases a with
    | none => exact hv
    | some a => exact ((compute_some ho).1 hv).2.2.2.1
  cases b with
  | none => exact applied
  | some b =>
    obtain ⟨a, rfl, hab⟩ := h b rfl
    obtain ⟨hx, hy, hp, -, hs⟩ := (compute_some ho).1 hv
    rw [checkSize_eq_ok] at hx hy hs
    exact (compute_some ho).2 ⟨checkSize_eq_ok.2 (by omega), checkSize_eq_ok.2 (by omega),
      checkPower_of_le hab hp, applied, checkSize_eq_ok.2 (by omega)⟩

end Arith

namespace Machine

variable {α : Type} {l m : Limits}

/-- Registers with the same values, each file with as many as its limits give. -/
structure Regs (l m : Limits) (r r' : Registers) : Prop where
  cells : r.cells = r'.cells
  left : r.capacity = l.capacity
  right : r'.capacity = m.capacity

/-- The first run has the tighter limits. -/
def slack (l m : Limits) : Coupling Unit Unit where
  regs := Regs l m
  worlds _ _ := True
  steps n := n = 0 ∨ n ≤ l.stepBudget
  fail _ _ _ _ := True
  lag e t := l.SameButBudget m → e.IsNonTerminating ∧ l.stepBudget < t.steps
  lag_mono h ht same := ⟨(h same).1, by have := (h same).2; omega⟩
  fail_of_lag _ := trivial

lemma slack_throw (e : Failure) :
    (slack l m).Couples (throw e : Exec Unit α) (throw e : Exec Unit α) :=
  ⟨rising_throw e, rising_throw e, fun _ _ _ => trivial⟩

/-! ### Registers -/

lemma Regs.peek {r r' : Registers} (h : Regs l m r r') : r.peek = r'.peek := by
  funext i
  rw [Registers.peek, Registers.peek, h.cells]

lemma Regs.eq {r r' : Registers} (h : Regs l m r r') (same : l.SameButBudget m) :
    r = r' := by
  obtain ⟨c, _, _, _⟩ := r
  obtain ⟨c', _, _, _⟩ := r'
  obtain ⟨rfl, hc, hc'⟩ := h
  obtain rfl : c = c' := hc.trans (same.capacity.trans hc'.symm)
  rfl

lemma isLess_congr {r r' old old' : Registers} (hr : r.peek = r'.peek)
    (ho : old.peek = old'.peek) (i : Int) (n : ℕ) : r.isLess old i n = r'.isLess old' i n := by
  induction n generalizing i with
  | zero => rfl
  | succ n ih => rw [Registers.isLess, Registers.isLess, hr, ho, ih]

lemma anyFrom_congr {r r' : Registers} (hr : r.peek = r'.peek) (test : Int → Bool) (i : Int)
    (n : ℕ) : r.anyFrom test i n = r'.anyFrom test i n := by
  induction n generalizing i with
  | zero => rfl
  | succ n ih => rw [Registers.anyFrom, Registers.anyFrom, hr, ih]

lemma slack_ask {f : Registers → Except Failure α}
    (hf : ∀ r r' a, Regs l m r r' → f r = .ok a → f r' = .ok a) :
    (slack l m).Couples (ask f) (ask f) := by
  refine ⟨rising_ask f, rising_ask f, fun s t hst => ?_⟩
  rw [run_ask, run_ask, Coupling.outcome_iff fun _ _ _ _ => trivial]
  refine ⟨fun a ha => ⟨hf _ _ a hst.regs ha, hst⟩, fun e b he hb same => ?_⟩
  rw [Regs.eq hst.regs same] at he
  exact nomatch he.symm.trans hb

lemma slack_change {f : Registers → Except Failure Registers}
    (hf : ∀ r r' q, Regs l m r r' → f r = .ok q →
      ∃ q', f r' = .ok q' ∧ Regs l m q q') :
    (slack l m).Couples (change f) (change f) := by
  refine ⟨rising_change f, rising_change f, fun s t hst => ?_⟩
  rw [run_change, run_change]
  rcases hr : f s.registers with e | q
  · rcases hr' : f t.registers with e' | q'
    · trivial
    · intro same
      rw [Regs.eq hst.regs same, hr'] at hr
      cases hr
  · obtain ⟨q', hq', hq⟩ := hf _ _ q hst.regs hr
    rw [hq']
    exact ⟨rfl, hq, hst.same, hst.steps, trivial⟩

lemma check_eq_ok {r : Registers} {i : Int} : r.check i = .ok () ↔ 0 ≤ i ∧ i < r.capacity := by
  unfold Registers.check
  split <;> simp_all

lemma Regs.check {r r' : Registers} (h : Regs l m r r') (hc : l.capacity ≤ m.capacity) {i : Int}
    (hi : r.check i = .ok ()) : r'.check i = .ok () := by
  have := check_eq_ok.1 hi
  have := h.left
  have := h.right
  exact check_eq_ok.2 (by omega)

lemma Regs.get {r r' : Registers} (h : Regs l m r r') (hc : l.capacity ≤ m.capacity) {i v : Int}
    (hi : r.get i = .ok v) : r'.get i = .ok v := by
  unfold Registers.get at hi ⊢
  rcases hr : r.check i with e | _
  · rw [hr] at hi
    cases hi
  · rw [hr] at hi
    rw [h.check hc hr, ← h.peek]
    exact hi

lemma Regs.set {r r' q : Registers} (h : Regs l m r r') (hc : l.capacity ≤ m.capacity)
    {i v : Int} (hq : r.set i v = .ok q) : ∃ q', r'.set i v = .ok q' ∧ Regs l m q q' := by
  have := h.left
  have := h.right
  unfold Registers.set at hq ⊢
  split at hq
  · rename_i hi
    obtain rfl := Except.ok.inj hq
    rw [dif_pos (by omega)]
    refine ⟨_, rfl, ?_, h.left, h.right⟩
    simp only [Registers.put, h.cells]
  · cases hq

lemma Regs.clearRange {r r' q : Registers} (h : Regs l m r r') (hc : l.capacity ≤ m.capacity)
    {i n : Int} (hq : r.clearRange i n = .ok q) :
    ∃ q', r'.clearRange i n = .ok q' ∧ Regs l m q q' := by
  rw [Registers.clearRange_eq] at hq ⊢
  split at hq
  · rename_i hn
    obtain rfl := Except.ok.inj hq
    rw [if_pos hn]
    exact ⟨r', rfl, h⟩
  · rename_i hn
    rw [if_neg hn]
    rcases h₁ : r.check i with e | _ <;> rw [h₁] at hq
    · cases hq
    rcases h₂ : r.check (i + n - 1) with e | _ <;> rw [h₂] at hq
    · cases hq
    obtain rfl := Except.ok.inj hq
    rw [h.check hc h₁, h.check hc h₂]
    refine ⟨_, rfl, ?_, h.left, h.right⟩
    simp only [Registers.erase, h.cells]

/-! ### Steps, arithmetic, calls and loops -/

variable {host host' : Host Unit} {program : Option Int}

lemma exhausted_isNonTerminating {σ : Type} (env : Env σ) (steps : ℕ) :
    (exhausted env steps).IsNonTerminating := ⟨_, _, rfl⟩

lemma slack_charge (program : Option Int) (host host' : Host Unit) (h : l.Tighter m) (n : ℕ) :
    (slack l m).Couples (charge ⟨l, program, some host⟩ n) (charge ⟨m, program, some host'⟩ n) := by
  refine ⟨rising_charge _ n, rising_charge _ n, fun s t hst => ?_⟩
  have := h.stepBudget
  rw [run_charge, run_charge, ← hst.same]
  dsimp only
  by_cases hl : l.stepBudget < (s.steps + n : ℕ)
  · rw [if_pos hl]
    split
    · trivial
    · exact fun _ => ⟨exhausted_isNonTerminating _ _, hl⟩
  · rw [if_neg hl, if_neg (by omega)]
    exact ⟨rfl, hst.regs, rfl, .inr (Int.not_lt.1 hl), trivial⟩

lemma slack_combine (h : Limits.Tighter l m) (o : Operation) (x y : Int) :
    (slack l m).Couples (combine ⟨l, program, some host⟩ o x y)
      (combine ⟨m, program, some host'⟩ o x y) := by
  unfold combine
  dsimp only
  rcases hl : Arith.compute l.maxValueBits o x y with e | v
  · rcases hm : Arith.compute m.maxValueBits o x y with e' | v'
    · exact ⟨rising_throw _, rising_throw _, fun _ _ _ => trivial⟩
    · refine ⟨rising_throw _, rising_pure _, fun s t _ same => ?_⟩
      rw [same.maxValueBits, hm] at hl
      cases hl
  · rw [Arith.compute_of_atMost h.maxValueBits hl]
    exact .pure v

/-- What is known of two hosts whose programs run under the limits `l` and `m`. -/
structure Served (l m : Limits) (calls : Int → Prop) (host host' : Host Unit) : Prop where
  ok {id n : Int} {r : Result} : calls id → 0 ≤ n → (host.call id n ()).1 = .ok r →
    (host'.call id n ()).1 = .ok r
  error {id n : Int} {r : Result} {e : Failure} : calls id → 0 ≤ n →
    (host.call id n ()).1 = .error e → (host'.call id n ()).1 = .ok r → l.SameButBudget m →
    e.IsNonTerminating ∧ l.stepBudget < r.steps

lemma slack_serve (h : Limits.Tighter l m) {calls : Int → Prop}
    (S : Served l m calls host host') (target : Int) {id argument : Int} (hid : calls id)
    (ha : 0 ≤ argument) :
    (slack l m).Couples (serve ⟨l, program, some host⟩ target id argument)
      (serve ⟨m, program, some host'⟩ target id argument) := by
  refine ⟨rising_serve _ target id argument, rising_serve _ target id argument,
    fun s t hst => ?_⟩
  unfold serve
  dsimp only
  rw [run_bind, run_bind, run_get, run_get]
  dsimp only
  rw [run_bind, run_bind, run_modify, run_modify]
  dsimp only
  rcases hl : (host.call id argument ()).1 with e | r
  · rcases hm : (host'.call id argument ()).1 with e' | r'
    · trivial
    · -- the looser run goes on, and is charged for the steps that were too many
      dsimp only
      rw [run_bind, run_change]
      rcases t.registers.set target r'.value with _ | _
      · trivial
      dsimp only
      rw [run_charge]
      split
      · trivial
      · intro same
        obtain ⟨he, hr⟩ := S.error hid ha hl hm same
        refine ⟨he, ?_⟩
        dsimp only
        omega
  · rw [S.ok hid ha hl]
    have rest := (slack_change (l := l) (m := m) (f := (·.set target r.value))
      fun q q' _ hq => Regs.set hq h.capacity).bind fun _ =>
        slack_charge program host host' h r.steps
    exact rest.out _ _ ⟨hst.regs, hst.same, hst.steps, trivial⟩

/-- Both loops go on, unless the tighter limits have had enough iterations. -/
lemma outcome_count (h : Limits.Tighter l m) {again again' : Exec Unit Unit} (line done : ℕ)
    (ha : (slack l m).Couples again again') {s t : State Unit} (hst : (slack l m).States s t) :
    (slack l m).Outcome
      (ExceptT.run (match l.maxLoopIterations with
        | some limit =>
          if limit < done + 1 then
            throw (giveUp ⟨l, program, some host⟩ ("Loop at line " ++ toString line ++
              " exceeded " ++ toString limit ++ " iterations") s.steps)
          else again
        | none => again) s)
      (ExceptT.run (match m.maxLoopIterations with
        | some limit =>
          if limit < done + 1 then
            throw (giveUp ⟨m, program, some host'⟩ ("Loop at line " ++ toString line ++
              " exceeded " ++ toString limit ++ " iterations") t.steps)
          else again'
        | none => again') t) := by
  rcases hl : l.maxLoopIterations with _ | a <;> rcases hm : m.maxLoopIterations with _ | b
  · exact ha.out s t hst
  · obtain ⟨a, ha, -⟩ := h.maxLoopIterations b hm
    exact nomatch hl.symm.trans ha
  · dsimp only
    split
    · exact .of_lag (fun same => nomatch hl.symm.trans (same.maxLoopIterations.trans hm)) ha.right
    · exact ha.out s t hst
  · obtain ⟨a', ha', hab⟩ := h.maxLoopIterations b hm
    obtain rfl : a = a' := Option.some.inj (hl.symm.trans ha')
    dsimp only
    by_cases hb : b < done + 1
    · rw [if_pos hb, if_pos (by omega)]
      trivial
    rw [if_neg hb]
    split
    · refine .of_lag (fun same => ?_) ha.right
      obtain rfl : a = b := Option.some.inj (hl.symm.trans (same.maxLoopIterations.trans hm))
      exact absurd ‹_› hb
    · exact ha.out s t hst

lemma slack_judge (h : Limits.Tighter l m) {before before' : Registers}
    {again again' : Exec Unit Unit} (line : ℕ) (start : Int) (length done : ℕ)
    (hb : Regs l m before before') (ha : (slack l m).Couples again again') :
    (slack l m).Couples (judge ⟨l, program, some host⟩ line before start length done again)
      (judge ⟨m, program, some host'⟩ line before' start length done again') := by
  refine ⟨rising_judge _ line before start length done ha.left,
    rising_judge _ line before' start length done ha.right, fun s t hst => ?_⟩
  have less : s.registers.isLess before start length = t.registers.isLess before' start length :=
    isLess_congr (Regs.peek hst.regs) hb.peek start length
  have positive : before.hasPositive start length = before'.hasPositive start length :=
    anyFrom_congr hb.peek _ start length
  have negative : s.registers.hasNegative start length = t.registers.hasNegative start length :=
    anyFrom_congr (Regs.peek hst.regs) _ start length
  unfold judge
  rw [run_bind, run_bind, run_get, run_get]
  dsimp only
  rw [less, positive, negative]
  by_cases hless : t.registers.isLess before' start length = true
  · rw [if_pos hless, if_pos hless]
    exact outcome_count h line done ha hst
  rw [if_neg hless, if_neg hless]
  by_cases stalled : before'.hasPositive start length = true ∧
      ¬ t.registers.hasNegative start length = true
  · rcases hl : l.loopPolicy with _ | _ <;> rcases hm : m.loopPolicy with _ | _
    · rw [if_pos ⟨rfl, stalled⟩, if_pos ⟨rfl, stalled⟩]
      trivial
    · rw [if_pos ⟨rfl, stalled⟩, if_neg (by simp)]
      exact fun same => nomatch hl.symm.trans (same.loopPolicy.trans hm)
    · rcases h.loopPolicy with h | h
      · exact nomatch hm.symm.trans h
      · exact nomatch hl.symm.trans (h.trans hm)
    · rw [if_neg (by simp), if_neg (by simp)]
      exact ⟨rfl, hb, hst.same, hst.steps, trivial⟩
  · rw [if_neg fun h => stalled h.2, if_neg fun h => stalled h.2]
    exact ⟨rfl, hb, hst.same, hst.steps, trivial⟩

lemma Failure.isNonTerminating_locate {σ : Type} {e : Failure} (h : e.IsNonTerminating)
    (env : Env σ) (n : Node) : (locate env n e).IsNonTerminating := by
  rcases e with d | c
  · obtain ⟨message, steps, hd⟩ := h
    refine ⟨message, steps, ?_⟩
    split
    · rw [Diagnostic.cause_locate, hd]
    · exact hd
  · exact h.elim

lemma slack_visit (n : Node) {x y : Exec Unit Unit} (hxy : (slack l m).Couples x y) :
    (slack l m).Couples (visit ⟨l, program, some host⟩ n x)
      (visit ⟨m, program, some host'⟩ n y) := by
  refine ⟨hxy.left.visit _ n, hxy.right.visit _ n, fun s t hst => ?_⟩
  have out := hxy.out s t hst
  rw [run_visit, run_visit]
  rcases hx : x.run s with ⟨e | _, s'⟩ <;> rcases hy : y.run t with ⟨f | _, t'⟩ <;>
    rw [hx, hy] at out
  · trivial
  · exact fun same => ⟨Failure.isNonTerminating_locate (out same).1 _ n, (out same).2⟩
  · exact out.elim
  · exact out

theorem lockstep_of_tighter (program : Option Int) (h : l.Tighter m) {calls : Int → Prop}
    (S : Served l m calls host host') :
    Lockstep (slack l m) ⟨l, program, some host⟩ ⟨m, program, some host'⟩ calls where
  program := rfl
  throw _ := slack_throw _
  visit n hxy := slack_visit n hxy
  charge := slack_charge program host host' h
  check _ := slack_ask fun _ _ _ hr hi => hr.check h.capacity hi
  get _ := slack_ask fun _ _ _ hr hi => hr.get h.capacity hi
  set _ _ := slack_change fun _ _ _ hr hq => hr.set h.capacity hq
  clear _ _ := slack_change fun _ _ _ hr hq => hr.clearRange h.capacity hq
  combine := slack_combine h
  serve target _ _ := slack_serve h S target
  judge line start length done := slack_judge h line start length done

lemma steps_of_exec {σ : Type} {env : Env σ} {body : Block} {input : Int} {s : State σ}
    {r : Result} (h : ((exec env body input).run s).1 = .ok r) :
    r.steps = ((exec env body input).run s).2.steps := by
  unfold exec at h ⊢
  obtain ⟨_, s₁, e₁, h⟩ := run_bind_eq_ok h
  obtain ⟨_, s₂, e₂, h⟩ := run_bind_eq_ok h
  obtain ⟨_, s₃, e₃, h⟩ := run_bind_eq_ok h
  rw [e₁, e₂, e₃, ← Except.ok.inj h]
  rfl

/-- **Limits only cut runs off.** A result under tighter limits is the result under looser ones.
When only the step budget is tighter, it alone makes a difference, and only to runs that take
more steps than it has. -/
theorem run_of_tighter (h : Limits.Tighter l m) {calls : Int → Prop}
    (S : Served l m calls host host') {p : Program} (hp : p.body.CallsIn calls) (input : Int) :
    (∀ r, (run l (some host) p input ()).1 = .ok r →
      (run m (some host') p input ()).1 = .ok r ∧ (r.steps = 0 ∨ r.steps ≤ l.stepBudget)) ∧
    ∀ e r, (run l (some host) p input ()).1 = .error e →
      (run m (some host') p input ()).1 = .ok r → l.SameButBudget m →
        e.IsNonTerminating ∧ l.stepBudget < r.steps := by
  have out := ((lockstep_of_tighter p.id h S).exec hp input).out (start l ())
    (start m ()) ⟨⟨rfl, rfl, rfl⟩, rfl, .inl rfl, trivial⟩
  rw [Coupling.outcome_iff fun _ _ _ _ => trivial] at out
  refine ⟨fun r hr => ⟨(out.1 r hr).1, ?_⟩, fun e r he hr same => ?_⟩
  · rw [steps_of_exec hr]
    exact (out.1 r hr).2.steps
  · rw [steps_of_exec hr]
    exact out.2 e r he hr same

end Machine

end SeqAsm
