import SeqAsm.Proofs.Machine.Limits
import SeqAsm.Proofs.Session.Results

/-!
Evaluation under different limits.

Called programs run under the limits of the session, so what is true of a single run carries over
to runs with calls, one level of calls after the other. Looser limits never change a result, and
the steps of a result are the least budget that lets it through.
-/

namespace SeqAsm

open Resolver (Finder)

variable {l m : Limits}

/-- What two outcomes have in common when the limits of the first are the tighter ones. -/
structure Shortened (l m : Limits) (out out' : Except Failure Result) : Prop where
  ok {r : Result} : out = .ok r → out' = .ok r
  steps {r : Result} : out = .ok r → r.steps = 0 ∨ r.steps ≤ l.stepBudget
  error {e : Failure} {r : Result} : out = .error e → out' = .ok r → l.SameButBudget m →
    e.IsNonTerminating ∧ l.stepBudget < r.steps

lemma Shortened.bind {α : Type} {x : Except Failure α} {f g : α → Except Failure Result}
    (h : ∀ a, x = .ok a → Shortened l m (f a) (g a)) : Shortened l m (x >>= f) (x >>= g) := by
  rcases x with e | a
  · exact ⟨nofun, nofun, fun _ h => nomatch h⟩
  · exact h a rfl

namespace Plain

variable {f : Finder}

lemma shortened_runWith (h : l.Tighter m) {answer answer' : Query → Except Failure Result}
    (calls : ∀ q, Shortened l m (answer q) (answer' q)) (p : Program) (input : Int) :
    Shortened l m (runWith answer l p input) (runWith answer' m p input) := by
  have served : Machine.Served l m (fun _ => True) (host answer) (host answer') :=
    ⟨fun _ _ ha => (calls _).ok ha, fun _ _ he hr => (calls _).error he hr⟩
  obtain ⟨ok, error⟩ := Machine.run_of_tighter h served p.body.callsIn_true input
  exact ⟨fun hr => (ok _ hr).1, fun hr => (ok _ hr).2, fun he hr => error _ _ he hr⟩

/-- What limits do to a run they do to a run with calls. -/
lemma shortened_call (h : l.Tighter m) (depth : ℕ) (q : Query) :
    Shortened l m (call f l depth q) (call f m depth q) := by
  induction depth generalizing q with
  | zero => exact ⟨nofun, nofun, fun _ h => nomatch h⟩
  | succ depth ih => exact .bind fun p _ => shortened_runWith h ih p q.input

lemma shortened_evaluate (h : l.Tighter m) (store : Store) (depth : ℕ) (subject : Subject)
    (input : Int) :
    Shortened l m (evaluate store l depth subject input) (evaluate store m depth subject input) :=
  .bind fun p _ => shortened_runWith h (shortened_call h depth) p input

end Plain

namespace Session

/-- The result in a new session. -/
def fresh (store : Store) (limits : Limits) (subject : Subject) (input : Int) :
    Except Failure Result :=
  ((evaluate subject input).run (Session.new store limits)).1

variable {store : Store} {subject : Subject} {input : Int} {r : Result}

lemma fresh_eq_plain (limits : Limits) (named : ∀ p, subject ≠ .program p) :
    fresh store limits subject input = Plain.evaluate store limits store.bound subject input :=
  (gives_evaluate named (le_refl store.bound) input _ (sound_new store limits)).1

lemma shortened_fresh (store : Store) (input : Int) (h : l.Tighter m)
    (named : ∀ p, subject ≠ .program p) :
    Shortened l m (fresh store l subject input) (fresh store m subject input) := by
  rw [fresh_eq_plain l named, fresh_eq_plain m named]
  exact Plain.shortened_evaluate h store _ subject input

/-- **Limits only cut evaluations off.** A result under tighter limits is the result under looser
ones. -/
theorem fresh_of_tighter (h : l.Tighter m) (named : ∀ p, subject ≠ .program p)
    (hr : fresh store l subject input = .ok r) : fresh store m subject input = .ok r :=
  (shortened_fresh store input h named).ok hr

/-- A call under tight limits, and under no limits but the budget. -/
theorem fresh_of_tighter_call :
    fresh ((Store.memory ∅).add 1 "add $0,1") { loopPolicy := .rollback } (.text "seq $0,1") 3 =
      .ok ⟨4, 2⟩ :=
  have tighter : Limits.Tighter
      { maxLoopIterations := some 5, maxValueBits := some 10, capacity := 100 }
      { loopPolicy := .rollback } :=
    ⟨by decide, .inl rfl, nofun, nofun, by decide⟩
  have named : ∀ p, Subject.text "seq $0,1" ≠ .program p := fun _ h => nomatch h
  fresh_of_tighter tighter named (by cbv)

lemma tighter_withBudget (limits : Limits) {a b : Int} (h : a ≤ b) :
    Limits.Tighter { limits with stepBudget := a } { limits with stepBudget := b } :=
  ⟨h, .inr rfl, fun y hy => ⟨y, hy, le_refl y⟩, fun y hy => ⟨y, hy, le_refl y⟩, le_refl _⟩

/-- **The steps of a result are the least budget for it.** Any budget that covers them gives the
same result, and with any other the evaluation counts as one that does not end. -/
theorem fresh_of_budget {limits : Limits} (named : ∀ p, subject ≠ .program p)
    (hr : fresh store limits subject input = .ok r) {b : Int} (hb : 0 ≤ b) :
    (r.steps ≤ b → fresh store { limits with stepBudget := b } subject input = .ok r) ∧
    (b < r.steps → ∃ e, fresh store { limits with stepBudget := b } subject input = .error e ∧
      e.IsNonTerminating) := by
  rcases Int.le_total b limits.stepBudget with h | h
  · -- The smaller budget comes first, so what it gives is settled by the result at hand.
    have cut := shortened_fresh store input (tighter_withBudget limits h) named
    rcases out : fresh store { limits with stepBudget := b } subject input with e | r'
    · obtain ⟨stopped, short⟩ := cut.error out hr ⟨rfl, rfl, rfl, rfl⟩
      change b < r.steps at short
      exact ⟨fun hs => absurd short (by omega), fun _ => ⟨e, rfl, stopped⟩⟩
    · have same : r' = r := Except.ok.inj ((cut.ok out).symm.trans hr)
      have fits := cut.steps out
      rw [same] at fits
      change r.steps = 0 ∨ r.steps ≤ b at fits
      exact ⟨fun _ => congrArg _ same, fun hs => absurd hs (by omega)⟩
  · have kept := shortened_fresh store input (tighter_withBudget limits h) named
    have fits := kept.steps hr
    change r.steps = 0 ∨ r.steps ≤ limits.stepBudget at fits
    exact ⟨fun _ => kept.ok hr, fun hs => absurd hs (by omega)⟩

/-- A call that takes two steps, under a budget that covers them and one that does not. -/
theorem fresh_of_budget_call :
    fresh ((Store.memory ∅).add 1 "add $0,1") { stepBudget := 2 } (.text "seq $0,1") 3 =
      .ok ⟨4, 2⟩ ∧
    ∃ e, fresh ((Store.memory ∅).add 1 "add $0,1") { stepBudget := 1 } (.text "seq $0,1") 3 =
      .error e ∧ e.IsNonTerminating :=
  have named : ∀ p, Subject.text "seq $0,1" ≠ .program p := fun _ h => nomatch h
  have hr : fresh ((Store.memory ∅).add 1 "add $0,1") {} (.text "seq $0,1") 3 = .ok ⟨4, 2⟩ := by
    cbv
  ⟨(fresh_of_budget named hr (b := 2) (by decide)).1 (by decide),
    (fresh_of_budget named hr (b := 1) (by decide)).2 (by decide)⟩

end Session

end SeqAsm
