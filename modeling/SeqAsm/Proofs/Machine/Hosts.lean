import SeqAsm.Proofs.Machine.Lockstep

/-!
Runs with different hosts.

If two hosts answer the calls of a program alike whenever their states are related, and keep them
related, then the runs agree in everything: outcome, registers, steps, also when they fail. When a
run fails, the states may be related in another way, which may depend on the failure.
-/

namespace SeqAsm.Machine

variable {σ τ α : Type} {R : σ → τ → Prop} {F F' : Failure → σ → τ → Prop} {calls : Int → Prop}
  {h : Host σ} {k : Host τ} {capacity : Int}

/-- Hosts that cannot be told apart by the calls of a program. -/
structure Alike (R : σ → τ → Prop) (calls : Int → Prop) (h : Host σ) (k : Host τ) : Prop where
  call {id n : Int} {w : σ} {v : τ} : calls id → 0 ≤ n → R w v →
    (h.call id n w).1 = (k.call id n v).1 ∧ R (h.call id n w).2 (k.call id n v).2
  stalled {w : σ} {v : τ} (line iterations : ℕ) : R w v →
    R (h.stalled line iterations w) (k.stalled line iterations v)

/-- Hosts that answer alike, where other things hold of their states after a failure, be it raised
by the machine or an answer. -/
structure Agree (env : Env σ) (R : σ → τ → Prop) (F : Failure → σ → τ → Prop)
    (calls : Int → Prop) (h : Host σ) (k : Host τ) : Prop where
  call {id n : Int} {w : σ} {v : τ} : calls id → 0 ≤ n → R w v →
    (h.call id n w).1 = (k.call id n v).1
  answered {id n : Int} {w : σ} {v : τ} {r : Result} : calls id → 0 ≤ n → R w v →
    (h.call id n w).1 = .ok r → R (h.call id n w).2 (k.call id n v).2
  failed {id n : Int} {w : σ} {v : τ} {e : Failure} : calls id → 0 ≤ n → R w v →
    (h.call id n w).1 = .error e → F e (h.call id n w).2 (k.call id n v).2
  stalled {w : σ} {v : τ} (line iterations : ℕ) : R w v →
    R (h.stalled line iterations w) (k.stalled line iterations v)
  raised {e : Failure} {w : σ} {v : τ} : Raised env e → R w v → F e w v

lemma Alike.agree (A : Alike R calls h k) (env : Env σ) :
    Agree env R (fun _ => R) calls h k where
  call hid hn hw := (A.call hid hn hw).1
  answered hid hn hw _ := (A.call hid hn hw).2
  failed hid hn hw _ := (A.call hid hn hw).2
  stalled := A.stalled
  raised _ hw := hw

/-- States that agree in registers and steps, over related worlds. -/
structure Matching (R : σ → τ → Prop) (s : State σ) (t : State τ) : Prop where
  registers : s.registers = t.registers
  steps : s.steps = t.steps
  world : R s.world t.world

lemma Matching.mono {R' : σ → τ → Prop} {s : State σ} {t : State τ} (m : Matching R s t)
    (h : ∀ w v, R w v → R' w v) : Matching R' s t := ⟨m.registers, m.steps, h _ _ m.world⟩

/-- Neither run parts from the other: their worlds are related by `R` as long as they go on, and by
`F` when they have failed. The number of registers stays the same. -/
def together (capacity : Int) (R : σ → τ → Prop) (F : Failure → σ → τ → Prop) : Coupling σ τ where
  regs r r' := r = r' ∧ r.capacity = capacity
  worlds := R
  steps _ := True
  fail e s f t := e = f ∧ Matching (F e) s t
  lag _ _ := False
  lag_mono h := h.elim
  fail_of_lag h := h.elim

lemma together_states {s : State σ} {t : State τ} :
    (together capacity R F).States s t ↔ Matching R s t ∧ s.registers.capacity = capacity :=
  ⟨fun h => ⟨⟨h.regs.1, h.same, h.worlds⟩, h.regs.2⟩,
    fun ⟨h, hc⟩ => ⟨⟨h.registers, hc⟩, h.steps, trivial, h.world⟩⟩

lemma together_outcome {u : Except Failure α × State σ} {v : Except Failure α × State τ} :
    (together capacity R F).Outcome u v ↔ u.1 = v.1 ∧
      (∀ a, u.1 = .ok a → Matching R u.2 v.2 ∧ u.2.registers.capacity = capacity) ∧
      ∀ e, u.1 = .error e → Matching (F e) u.2 v.2 := by
  obtain ⟨e | a, s⟩ := u <;> obtain ⟨f | b, t⟩ := v
  · rw [Coupling.outcome_error_error]
    change e = f ∧ Matching (F e) s t ↔ _
    constructor
    · rintro ⟨rfl, m⟩
      refine ⟨rfl, fun a ha => (nomatch ha), fun e' he => ?_⟩
      obtain rfl := Except.error.inj he
      exact m
    · rintro ⟨same, -, failed⟩
      exact ⟨Except.error.inj same, failed e rfl⟩
  · exact ⟨fun h => h.elim, fun h => nomatch h.1⟩
  · exact ⟨fun h => h.elim, fun h => nomatch h.1⟩
  · rw [Coupling.outcome_ok_ok, together_states]
    constructor
    · rintro ⟨rfl, m⟩
      exact ⟨rfl, fun _ _ => m, fun e he => nomatch he⟩
    · rintro ⟨same, ok, -⟩
      exact ⟨Except.ok.inj same, ok a rfl⟩

lemma Together.mono {x : Exec σ α} {y : Exec τ α} (hF : ∀ e w v, F e w v → F' e w v)
    (hxy : (together capacity R F).Couples x y) : (together capacity R F').Couples x y := by
  refine ⟨hxy.left, hxy.right, fun s t hst => together_outcome.2 ?_⟩
  have out := hxy.out s t (together_states.2 (together_states.1 hst))
  obtain ⟨same, ok, failed⟩ := together_outcome.1 out
  exact ⟨same, ok, fun e he => (failed e he).mono (hF e)⟩

lemma together_throw {e : Failure} (he : ∀ w v, R w v → F e w v) :
    (together capacity R F).Couples (throw e : Exec σ α) (throw e : Exec τ α) :=
  ⟨rising_throw e, rising_throw e,
    fun _ _ hst => ⟨rfl, (together_states.1 hst).1.mono he⟩⟩

lemma together_ask {f : Registers → Except Failure α}
    (hf : ∀ r e, r.capacity = capacity → f r = .error e → ∀ w v, R w v → F e w v) :
    (together capacity R F).Couples (ask f : Exec σ α) (ask f : Exec τ α) := by
  refine ⟨rising_ask f, rising_ask f, fun s t hst => ?_⟩
  obtain ⟨m, hc⟩ := together_states.1 hst
  rw [run_ask, run_ask, ← m.registers]
  rcases hr : f s.registers with e | a
  · exact ⟨rfl, m.mono (hf _ _ hc hr)⟩
  · exact ⟨rfl, hst⟩

lemma together_change {f : Registers → Except Failure Registers}
    (hf : ∀ r e, r.capacity = capacity → f r = .error e → ∀ w v, R w v → F e w v)
    (kept : ∀ r r', f r = .ok r' → r'.capacity = r.capacity) :
    (together capacity R F).Couples (change f : Exec σ Unit) (change f : Exec τ Unit) := by
  refine ⟨rising_change f, rising_change f, fun s t hst => ?_⟩
  obtain ⟨m, hc⟩ := together_states.1 hst
  rw [run_change, run_change, ← m.registers]
  rcases hr : f s.registers with e | r
  · exact ⟨rfl, m.mono (hf _ _ hc hr)⟩
  · exact ⟨rfl, ⟨rfl, (kept _ _ hr).trans hc⟩, m.steps, trivial, m.world⟩

section

variable {limits : Limits} {program : Option Int}
  (A : Agree ⟨limits, program, some h⟩ R F calls h k)

include A

lemma Agree.refused (r : Registers) (i : Int) {w : σ} {v : τ} (hw : R w v) :
    F (r.refusal i) w v := A.raised (.bare _) hw

lemma together_charge (n : ℕ) : (together capacity R F).Couples
    (charge ⟨limits, program, some h⟩ n) (charge ⟨limits, program, some k⟩ n) := by
  refine ⟨rising_charge _ n, rising_charge _ n, fun s t hst => ?_⟩
  obtain ⟨m, hc⟩ := together_states.1 hst
  have counted : Matching R { s with steps := s.steps + n } { t with steps := t.steps + n } :=
    ⟨m.registers, by rw [m.steps], m.world⟩
  rw [run_charge, run_charge, ← m.steps] at *
  split
  · exact ⟨rfl, counted.mono fun w v hw => A.raised (.running _) hw⟩
  · exact ⟨rfl, together_states.2 ⟨counted, hc⟩⟩

lemma together_set (i v : Int) : (together capacity R F).Couples
    (change (·.set i v) : Exec σ Unit) (change (·.set i v) : Exec τ Unit) :=
  together_change (fun r _ _ he _ _ hw => Registers.refusal_of_set he ▸ A.refused r i hw)
    fun _ _ => Registers.capacity_of_set

lemma together_clear (i count : Int) : (together capacity R F).Couples
    (change (·.clearRange i count) : Exec σ Unit) (change (·.clearRange i count)) := by
  refine together_change (fun r e _ he w v hw => ?_) fun _ _ => Registers.capacity_of_clearRange
  obtain ⟨j, rfl⟩ := Registers.refusal_of_clearRange he
  exact A.refused r j hw

lemma together_serve (target : Int) {id argument : Int} (hid : calls id) (ha : 0 ≤ argument) :
    (together capacity R F).Couples (serve ⟨limits, program, some h⟩ target id argument)
      (serve ⟨limits, program, some k⟩ target id argument) := by
  refine ⟨rising_serve _ target id argument, rising_serve _ target id argument,
    fun s t hst => ?_⟩
  obtain ⟨m, hc⟩ := together_states.1 hst
  unfold serve
  dsimp only
  rw [run_bind, run_bind, run_get, run_get]
  dsimp only
  rw [run_bind, run_bind, run_modify, run_modify, ← A.call hid ha m.world]
  dsimp only
  rcases hr : (h.call id argument s.world).1 with e | result
  · exact ⟨rfl, m.registers, m.steps, A.failed hid ha m.world hr⟩
  · have rest : (together capacity R F).Couples _ _ :=
      (together_set A target result.value).bind fun _ => together_charge A result.steps
    refine rest.out _ _ (together_states.2 ⟨⟨m.registers, m.steps, ?_⟩, hc⟩)
    exact A.answered hid ha m.world hr

lemma together_judge {again : Exec σ Unit} {again' : Exec τ Unit} (line : ℕ) {before : Registers}
    (hb : before.capacity = capacity) (start : Int) (length done : ℕ)
    (ha : (together capacity R F).Couples again again') : (together capacity R F).Couples
      (judge ⟨limits, program, some h⟩ line before start length done again)
      (judge ⟨limits, program, some k⟩ line before start length done again') := by
  refine ⟨rising_judge _ line before start length done ha.left,
    rising_judge _ line before start length done ha.right, fun s t hst => ?_⟩
  obtain ⟨m, hc⟩ := together_states.1 hst
  unfold judge
  rw [run_bind, run_bind, run_get, run_get]
  dsimp only
  rw [← m.registers, ← m.steps]
  split
  · split
    · split
      · exact ⟨rfl, m.mono fun w v hw => A.raised (.running _) hw⟩
      · exact ha.out s t hst
    · exact ha.out s t hst
  · split
    · have stalled := A.stalled line done m.world
      exact ⟨rfl, m.registers, m.steps, A.raised (.running _) stalled⟩
    · exact ⟨rfl, ⟨rfl, hb⟩, m.steps, trivial, m.world⟩

lemma tandem_of_agree : Tandem (together capacity R F) ⟨limits, program, some h⟩
    ⟨limits, program, some k⟩ calls where
  program := rfl
  throw he := together_throw fun _ _ => A.raised he
  charge := together_charge A
  check i := together_ask fun r _ _ he _ _ hw =>
    Registers.refusal_of_check he ▸ A.refused r i hw
  get i := together_ask fun r _ _ he _ _ hw => Registers.refusal_of_get he ▸ A.refused r i hw
  set := together_set A
  clear := together_clear A
  combine o x y := by
    unfold combine
    dsimp only
    split
    · rename_i f _
      refine together_throw fun _ _ => A.raised ?_
      cases f with
      | binomialTooWide => exact .crash _
      | _ => exact .bare _
    · exact .pure _
  serve target _ _ := together_serve A target
  judge line start length done hb ha := by
    obtain ⟨rfl, hc⟩ := hb
    exact together_judge A line hc start length done ha

end

lemma lockstep_of_alike (limits : Limits) (program : Option Int) (A : Alike R calls h k) :
    Lockstep (together capacity R fun _ => R) ⟨limits, program, some h⟩
      ⟨limits, program, some k⟩ calls where
  toTandem := tandem_of_agree (A.agree _)
  visit {x y} n hxy := by
    refine ⟨hxy.left.visit _ n, hxy.right.visit _ n, fun s t hst => ?_⟩
    have out := hxy.out s t hst
    rw [run_visit, run_visit]
    rcases hx : x.run s with ⟨e | _, s'⟩ <;> rcases hy : y.run t with ⟨f | _, t'⟩ <;>
      rw [hx, hy] at out
    · exact ⟨congrArg _ out.1, out.2⟩
    · exact out.elim
    · exact out.elim
    · exact out

/-- **Hosts that answer alike give equal runs**, and their states stay related. -/
theorem run_of_alike (limits : Limits) (A : Alike R calls h k) {p : Program}
    (hp : p.body.CallsIn calls) (input : Int) {w : σ} {v : τ} (hR : R w v) :
    (run limits (some h) p input w).1 = (run limits (some k) p input v).1 ∧
      Matching R (run limits (some h) p input w).2 (run limits (some k) p input v).2 := by
  have lockstep : Lockstep (together limits.capacity R fun _ => R) _ _ calls :=
    lockstep_of_alike limits p.id A
  have out := (lockstep.exec hp input).out (start limits w) (start limits v)
    ⟨⟨rfl, rfl⟩, rfl, trivial, hR⟩
  obtain ⟨same, ok, failed⟩ := together_outcome.1 out
  refine ⟨same, ?_⟩
  rcases hr : (run limits (some h) p input w).1 with e | r
  · exact failed e hr
  · exact (ok r hr).1

end SeqAsm.Machine
