import Mathlib.Tactic.Lemma
import SeqAsm.Diagnostic.Basic

/-!
Computations that have a state and may fail, run on a state.
-/

namespace SeqAsm

variable {ε σ α β : Type}

lemma bind_eq_ok {x : Except ε α} {f : α → Except ε β} {b : β} :
    x >>= f = .ok b ↔ ∃ a, x = .ok a ∧ f a = .ok b := by
  rcases x with e | a
  · exact ⟨nofun, fun ⟨_, h, _⟩ => nomatch h⟩
  · exact ⟨fun h => ⟨a, rfl, h⟩, fun ⟨_, h, hb⟩ => Except.ok.inj h ▸ hb⟩

/-- A failure comes from one of the two parts. -/
lemma bind_eq_error {x : Except ε α} {f : α → Except ε β} {e : ε} :
    x >>= f = .error e ↔ x = .error e ∨ ∃ a, x = .ok a ∧ f a = .error e := by
  rcases x with e' | a
  · exact ⟨fun h => .inl (congrArg _ (Except.error.inj h)), fun h => by
      rcases h with h | ⟨_, h, _⟩
      · exact congrArg _ (Except.error.inj h)
      · cases h⟩
  · exact ⟨fun h => .inr ⟨a, rfl, h⟩, fun h => by
      rcases h with h | ⟨_, h, he⟩
      · cases h
      · exact Except.ok.inj h ▸ he⟩

@[simp] lemma run_pure (a : α) (s : σ) : (pure a : ExceptT ε (StateM σ) α).run s = (.ok a, s) := rfl

@[simp] lemma run_throw (e : ε) (s : σ) :
    (throw e : ExceptT ε (StateM σ) α).run s = (.error e, s) := rfl

@[simp] lemma run_get (s : σ) : (get : ExceptT ε (StateM σ) σ).run s = (.ok s, s) := rfl

@[simp] lemma run_modify (f : σ → σ) (s : σ) :
    (modify f : ExceptT ε (StateM σ) Unit).run s = (.ok (), f s) := rfl

/-- A failure skips what comes after it. -/
lemma run_bind (x : ExceptT ε (StateM σ) α) (f : α → ExceptT ε (StateM σ) β) (s : σ) :
    (x >>= f).run s = match x.run s with
      | (.ok a, s') => (f a).run s'
      | (.error e, s') => (.error e, s') := by
  change (x.run >>= ExceptT.bindCont f : StateM σ (Except ε β)) s = _
  rcases h : x.run s with ⟨e | a, s'⟩
  · simp only [bind, StateT.bind, h]
    rfl
  · simp only [bind, StateT.bind, h]
    rfl

lemma run_bind_congr {x : ExceptT ε (StateM σ) α} {f g : α → ExceptT ε (StateM σ) β} {s : σ}
    (h : ∀ a s', x.run s = (.ok a, s') → (f a).run s' = (g a).run s') :
    (x >>= f).run s = (x >>= g).run s := by
  rw [run_bind, run_bind]
  rcases hx : x.run s with ⟨e | a, s'⟩
  · rfl
  · exact h a s' hx

/-- A computation that returns has returned in its first part. -/
lemma run_bind_eq_ok {x : ExceptT ε (StateM σ) α} {f : α → ExceptT ε (StateM σ) β} {s : σ} {b : β}
    (h : ((x >>= f).run s).1 = .ok b) :
    ∃ a s', (x >>= f).run s = (f a).run s' ∧ ((f a).run s').1 = .ok b := by
  rw [run_bind] at h ⊢
  rcases hx : x.run s with ⟨e | a, s'⟩ <;> rw [hx] at h
  · cases h
  · exact ⟨a, s', rfl, h⟩

lemma run_forM_cons (a : α) (l : List α) (f : α → ExceptT ε (StateM σ) Unit) (s : σ) :
    ((a :: l).forM f).run s = match (f a).run s with
      | (.ok (), s') => (l.forM f).run s'
      | (.error e, s') => (.error e, s') := by
  change (f a >>= fun _ => l.forM f).run s = _
  rw [run_bind]
  rcases (f a).run s with ⟨_ | _, _⟩
  · rfl
  · rfl

end SeqAsm
