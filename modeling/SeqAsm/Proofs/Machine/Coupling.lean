import Mathlib.Data.Nat.Basic
import SeqAsm.Machine
import SeqAsm.Proofs.Running

/-!
Two runs side by side.

A coupling says what two runs have in common for as long as both go on, and how they may part:
both may fail, or the first may fail while the second goes on. The second never fails alone.
Computations that keep a coupling compose, because steps never go back and an excuse for the
first run to have stopped, once good, stays good.
-/

namespace SeqAsm

/-! ### What registers refuse -/

namespace Registers

variable {r r' : Registers} {i v count : Int} {e : Failure}

def refusal (r : Registers) (i : Int) : Failure := .of (.registerAddress i r.capacity) []

lemma refusal_of_check (h : r.check i = .error e) : e = r.refusal i := by
  unfold check at h
  split at h
  · cases h
  · exact (Except.error.inj h).symm

lemma refusal_of_get (h : r.get i = .error e) : e = r.refusal i := by
  unfold get at h
  rcases hc : r.check i with e' | _ <;> rw [hc] at h
  · obtain rfl := Except.error.inj h
    exact refusal_of_check hc
  · cases h

lemma refusal_of_set (h : r.set i v = .error e) : e = r.refusal i := by
  unfold set at h
  split at h
  · cases h
  · exact (Except.error.inj h).symm

lemma refusal_of_clearRange (h : r.clearRange i count = .error e) : ∃ j, e = r.refusal j := by
  rw [clearRange_eq] at h
  split at h
  · cases h
  · rcases hc : r.check i with e' | _ <;> rw [hc] at h
    · obtain rfl := Except.error.inj h
      exact ⟨i, refusal_of_check hc⟩
    · rcases hd : r.check (i + count - 1) with e' | _ <;> rw [hd] at h
      · obtain rfl := Except.error.inj h
        exact ⟨_, refusal_of_check hd⟩
      · cases h

lemma capacity_of_set (h : r.set i v = .ok r') : r'.capacity = r.capacity := by
  unfold set at h
  split at h
  · cases h
    rfl
  · cases h

lemma capacity_of_clearRange (h : r.clearRange i count = .ok r') : r'.capacity = r.capacity := by
  rw [clearRange_eq] at h
  split at h
  · cases h
    rfl
  · rcases hc : r.check i with e' | _ <;> rw [hc] at h
    · cases h
    · rcases hd : r.check (i + count - 1) with e' | _ <;> rw [hd] at h
      · cases h
      · cases h
        rfl

end Registers

end SeqAsm

namespace SeqAsm.Machine

variable {σ τ α β : Type}

/-! ### Running the parts of a computation -/

@[simp] lemma run_ask (f : Registers → Except Failure α) (s : State σ) :
    (ask f).run s = (f s.registers, s) := by
  rw [ask, run_bind, run_get]
  cases h : f s.registers <;> simp [h]

@[simp] lemma run_change (f : Registers → Except Failure Registers) (s : State σ) :
    (change f).run s = match f s.registers with
      | .ok r => (.ok (), { s with registers := r })
      | .error e => (.error e, s) := by
  rw [change, run_bind, run_ask]
  cases f s.registers <;> simp

def exhausted (env : Env σ) (steps : ℕ) : Failure :=
  giveUp env ("Step budget of " ++ toString env.limits.stepBudget ++ " exceeded") steps

lemma run_charge (env : Env σ) (n : ℕ) (s : State σ) :
    (charge env n).run s =
      if env.limits.stepBudget < (s.steps + n : ℕ) then
        (.error (exhausted env (s.steps + n)), { s with steps := s.steps + n })
      else (.ok (), { s with steps := s.steps + n }) := by
  rw [charge, run_bind, run_modify]
  simp only [run_bind, run_get]
  split
  · rfl
  · rfl

lemma run_visit (env : Env σ) (n : Node) (x : Exec σ Unit) (s : State σ) :
    (visit env n x).run s = match x.run s with
      | (.ok (), s') => (.ok (), s')
      | (.error e, s') => (.error (locate env n e), s') := by
  unfold visit ExceptT.adapt
  rcases h : x.run s with ⟨_ | _, s'⟩ <;>
  · simp only [ExceptT.run, ExceptT.mk, Functor.map, StateT.map] at h ⊢
    simp [h, bind, pure, Except.mapError]

/-! ### Looking at the machine -/

def Looks (x : Exec σ α) : Prop := ∀ s, (x.run s).2 = s

lemma Looks.bind {x : Exec σ α} {f : α → Exec σ β} (hx : Looks x) (hf : ∀ a, Looks (f a)) :
    Looks (x >>= f) := by
  intro s
  rw [run_bind]
  have same := hx s
  rcases hr : x.run s with ⟨e | a, s'⟩ <;> rw [hr] at same
  · exact same
  · obtain rfl : s' = s := same
    exact hf a s'

lemma looks_ask (f : Registers → Except Failure α) : Looks (ask f : Exec σ α) := by
  intro s
  rw [run_ask]

lemma looks_address : ∀ o, Looks (address o : Exec σ Int)
  | .reg _ => (looks_ask _).bind fun _ _ => rfl
  | .ind _ => (looks_ask _).bind fun _ => (looks_ask _).bind fun _ _ => rfl
  | .const _ => fun _ => rfl

lemma looks_read : ∀ o, Looks (read o : Exec σ Int)
  | .const _ => fun _ => rfl
  | .reg i => (looks_address (.reg i)).bind fun _ => looks_ask _
  | .ind i => (looks_address (.ind i)).bind fun _ => looks_ask _

lemma looks_rangeLength (env : Env σ) (h : LoopHeader) : Looks (rangeLength env h) := by
  refine (looks_read h.length).bind fun n => ?_
  split
  · exact fun _ => rfl
  · exact fun _ => rfl

lemma Looks.eq {x : Exec σ α} (hx : Looks x) {r : Except Failure α} {s s' : State σ}
    (h : x.run s = (r, s')) : s' = s := by
  have same := hx s
  rwa [h] at same

/-! ### Steps never go back -/

def Rising (x : Exec σ α) : Prop := ∀ s, s.steps ≤ (x.run s).2.steps

lemma Rising.le {x : Exec σ α} {s s' : State σ} {r : Except Failure α} (hx : Rising x)
    (h : x.run s = (r, s')) : s.steps ≤ s'.steps := by
  have := hx s
  rwa [h] at this

lemma rising_pure (a : α) : Rising (pure a : Exec σ α) := fun _ => le_rfl

lemma rising_throw (e : Failure) : Rising (throw e : Exec σ α) := fun _ => le_rfl

lemma rising_get : Rising (get : Exec σ (State σ)) := fun _ => le_rfl

lemma rising_ask (f : Registers → Except Failure α) : Rising (ask f : Exec σ α) := by
  intro s
  rw [run_ask]

lemma rising_change (f : Registers → Except Failure Registers) :
    Rising (change f : Exec σ Unit) := by
  intro s
  rw [run_change]
  cases f s.registers <;> exact le_rfl

lemma rising_charge (env : Env σ) (n : ℕ) : Rising (charge env n) := by
  intro s
  rw [run_charge]
  split <;> exact Nat.le_add_right _ _

lemma Rising.bind {x : Exec σ α} {f : α → Exec σ β} (hx : Rising x) (hf : ∀ a, Rising (f a)) :
    Rising (x >>= f) := by
  intro s
  rw [run_bind]
  rcases hr : x.run s with ⟨e | a, s'⟩
  · exact hx.le hr
  · exact le_trans (hx.le hr) (hf a s')

lemma Rising.visit {x : Exec σ Unit} (hx : Rising x) (env : Env σ) (n : Node) :
    Rising (visit env n x) := by
  intro s
  rw [run_visit]
  rcases hr : x.run s with ⟨e | a, s'⟩ <;> exact hx.le hr

lemma rising_address : ∀ o, Rising (address o : Exec σ Int)
  | .reg i => (rising_ask _).bind fun _ => rising_pure i
  | .ind _ => (rising_ask _).bind fun a => (rising_ask _).bind fun _ => rising_pure a
  | .const _ => rising_throw _

lemma rising_read : ∀ o, Rising (read o : Exec σ Int)
  | .const v => rising_pure v
  | .reg i => (rising_address (.reg i)).bind fun _ => rising_ask _
  | .ind i => (rising_address (.ind i)).bind fun _ => rising_ask _

lemma rising_rangeLength (env : Env σ) (h : LoopHeader) : Rising (rangeLength env h) := by
  refine (rising_read h.length).bind fun n => ?_
  split
  · exact (rising_throw _).bind fun _ => rising_pure _
  · exact rising_pure _

/-! ### Couplings -/

/-- What two runs have in common and how they may part. -/
structure Coupling (σ τ : Type) where
  regs : Registers → Registers → Prop
  worlds : σ → τ → Prop
  /-- The steps that two runs may have taken when both go on. -/
  steps : ℕ → Prop
  /-- Both runs have failed. -/
  fail : Failure → State σ → Failure → State τ → Prop
  /-- The first run has failed alone and the second has come to a state. -/
  lag : Failure → State τ → Prop
  lag_mono {e : Failure} {t t' : State τ} : lag e t → t.steps ≤ t'.steps → lag e t'
  fail_of_lag {e f : Failure} {s : State σ} {t : State τ} : lag e t → fail e s f t

namespace Coupling

variable (C : Coupling σ τ)

structure States (s : State σ) (t : State τ) : Prop where
  regs : C.regs s.registers t.registers
  same : s.steps = t.steps
  steps : C.steps s.steps
  worlds : C.worlds s.world t.world

def Outcome : Except Failure α × State σ → Except Failure α × State τ → Prop
  | (.ok a, s), (.ok b, t) => a = b ∧ C.States s t
  | (.error e, s), (.error f, t) => C.fail e s f t
  | (.error e, _), (.ok _, t) => C.lag e t
  | (.ok _, _), (.error _, _) => False

@[simp] lemma outcome_ok_ok {C : Coupling σ τ} {a b : α} {s : State σ} {t : State τ} :
    C.Outcome (.ok a, s) (.ok b, t) ↔ a = b ∧ C.States s t := Iff.rfl

@[simp] lemma outcome_error_error {C : Coupling σ τ} {e f : Failure} {s : State σ}
    {t : State τ} : C.Outcome (α := α) (.error e, s) (.error f, t) ↔ C.fail e s f t := Iff.rfl

@[simp] lemma outcome_error_ok {C : Coupling σ τ} {e : Failure} {b : α} {s : State σ}
    {t : State τ} : C.Outcome (.error e, s) (.ok b, t) ↔ C.lag e t := Iff.rfl

@[simp] lemma outcome_ok_error {C : Coupling σ τ} {a : α} {f : Failure} {s : State σ}
    {t : State τ} : C.Outcome (.ok a, s) (.error f, t) ↔ False := Iff.rfl

/-- Where nothing is asked of two runs that both fail, it matters what each returns. -/
lemma outcome_iff {C : Coupling σ τ} (hC : ∀ e s f t, C.fail e s f t)
    {u : Except Failure α × State σ} {v : Except Failure α × State τ} :
    C.Outcome u v ↔ (∀ a, u.1 = .ok a → v.1 = .ok a ∧ C.States u.2 v.2) ∧
      (∀ e b, u.1 = .error e → v.1 = .ok b → C.lag e v.2) := by
  obtain ⟨e | a, s⟩ := u <;> obtain ⟨f | b, t⟩ := v <;> simp [hC, eq_comm]

/-- Two computations that, from coupled states, part only as the coupling allows. -/
structure Couples (x : Exec σ α) (y : Exec τ α) : Prop where
  left : Rising x
  right : Rising y
  out : ∀ s t, C.States s t → C.Outcome (x.run s) (y.run t)

variable {C}

/-- Once the first run has failed alone, it does not matter how the second goes on. -/
lemma Outcome.of_lag {e : Failure} {s : State σ} {t : State τ} {y : Exec τ α}
    (h : C.lag e t) (hy : Rising y) :
    C.Outcome ((.error e, s) : Except Failure α × State σ) (y.run t) := by
  have h' := C.lag_mono h (hy t)
  rcases hr : y.run t with ⟨f | b, t'⟩ <;> rw [hr] at h'
  · exact C.fail_of_lag h'
  · exact h'

lemma Couples.pure (a : α) : C.Couples (Pure.pure a) (Pure.pure a) :=
  ⟨rising_pure a, rising_pure a, fun _ _ h => ⟨rfl, h⟩⟩

lemma Couples.bind {x : Exec σ α} {y : Exec τ α} {f : α → Exec σ β} {g : α → Exec τ β}
    (h : C.Couples x y) (hf : ∀ a, C.Couples (f a) (g a)) : C.Couples (x >>= f) (y >>= g) := by
  refine ⟨h.left.bind fun a => (hf a).left, h.right.bind fun a => (hf a).right, ?_⟩
  intro s t hst
  have out := h.out s t hst
  rw [run_bind, run_bind]
  rcases hx : x.run s with ⟨e | a, s'⟩ <;> rcases hy : y.run t with ⟨e' | b, t'⟩ <;>
    rw [hx, hy] at out
  · exact out
  · exact Outcome.of_lag out (hf b).right
  · exact out.elim
  · obtain ⟨rfl, hst'⟩ := out
    exact (hf a).out s' t' hst'

/-- Both computations look at their states and go on. -/
lemma Couples.look {f : State σ → Exec σ α} {g : State τ → Exec τ α}
    (left : ∀ s, Rising (f s)) (right : ∀ t, Rising (g t))
    (out : ∀ s t, C.States s t → C.Outcome ((f s).run s) ((g t).run t)) :
    C.Couples (get >>= f) (get >>= g) := by
  refine ⟨rising_get.bind left, rising_get.bind right, fun s t hst => ?_⟩
  rw [run_bind, run_bind, run_get, run_get]
  exact out s t hst

end Coupling

end SeqAsm.Machine
