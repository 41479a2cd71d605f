import Mathlib
import SeqAsm.Proofs.Session.Requests

/-!
The results of a session.

A session is sound at all times. So the result for a stored program or for a text is the one that
plain evaluation gives, and the results for a range are those for its inputs.
-/

namespace SeqAsm.Session

variable {limits : Limits} {busy : QueryMap Pending} {β : Type}

lemma stored_of_programOf {store : Store} {subject : Subject} {p : Program}
    (named : ∀ p, subject ≠ .program p)
    (hp : Plain.programOf (Plain.find store) subject = .ok p) : Stored (Plain.find store) p := by
  intro id hid
  obtain ⟨n, found⟩ | ⟨text, read⟩ := Plain.origin_of_programOf named hp
  · rw [Plain.find_eq_ok found] at hid
    rwa [← Option.some.inj hid]
  · rw [Program.id_of_parse read] at hid
    cases hid

/-- The check of a subject, and what comes after it. -/
lemma prepare_bind {store : Store} {depth : ℕ} (hd : store.bound ≤ depth) (subject : Subject)
    (g : Program → Except Failure β) :
    Plain.prepare store depth subject >>= g =
      Plain.programOf (Plain.find store) subject >>= fun p =>
        (Resolver.ofProgram ⟨Plain.find store, depth⟩ {} p).answer >>= fun _ => g p := by
  unfold Plain.prepare
  rcases Plain.programOf (Plain.find store) subject with e | p
  · rfl
  · change (Plain.check (Plain.find store) depth p >>= fun _ => Except.ok p) >>= g =
      (Resolver.ofProgram ⟨Plain.find store, depth⟩ {} p).answer >>= fun _ => g p
    rw [Plain.check_eq ((Plain.bounds_find store).mono hd)]
    rcases (Resolver.ofProgram ⟨Plain.find store, depth⟩ {} p).answer with e | ids
    · rfl
    · rfl

lemma gives_prepare {store : Store} {depth : ℕ} {subject : Subject} {k : Program → SessionM β}
    {g : Program → Except Failure β} (named : ∀ p, subject ≠ .program p)
    (hd : store.bound ≤ depth)
    (hk : ∀ p, Ready (Plain.find store) p → Gives (Plain.find store) limits busy (k p) (g p)) :
    Gives (Plain.find store) limits busy
      (programOf subject >>= fun p => preflight p >>= fun _ => k p)
      (Plain.prepare store depth subject >>= g) := by
  have bounds := (Plain.bounds_find store).mono hd
  rw [prepare_bind hd]
  refine (gives_programOf subject).bind fun p hp => ?_
  have checked : Gives (Plain.find store) limits busy (preflight p) _ :=
    gives_preflight (stored_of_programOf named hp) bounds
  exact checked.bind fun ids hids => hk p (ready_of_check hids)

lemma gives_evaluate {store : Store} {depth : ℕ} {subject : Subject}
    (named : ∀ p, subject ≠ .program p) (hd : store.bound ≤ depth) (input : Int) :
    Gives (Plain.find store) limits ∅ (evaluate subject input)
      (Plain.evaluate store limits depth subject input) :=
  gives_prepare named hd fun _ ready => gives_run ready ((Plain.bounds_find store).mono hd) input

def plainResults (store : Store) (limits : Limits) (depth : ℕ) (subject : Subject)
    (first count : Int) : Except Failure (List Result) :=
  (List.range count.toNat).mapM fun (i : ℕ) =>
    Plain.evaluate store limits depth subject (first + i)

/-- Once a program is in order, each of its results is that of a run. -/
lemma prepare_bind_range {store : Store} {depth : ℕ} {subject : Subject}
    (first : Program → Int) (count : Int) (g : List Result → Except Failure β) :
    (Plain.prepare store depth subject >>= fun p =>
      plainRange (Plain.find store) limits depth p (first p) count >>= g) =
    (Plain.prepare store depth subject >>= fun p =>
      plainResults store limits depth subject (first p) count >>= g) := by
  unfold plainRange plainResults Plain.evaluate
  rcases Plain.prepare store depth subject with e | p
  · rfl
  · dsimp only [bind, Except.bind]

/-- **Results are plain results.** At any time, a session gives for a stored program or for a text
what plain evaluation gives. A range and the cost of terms first need the program to be in order,
also when there are no inputs, and are then made up of the results for the single inputs. -/
theorem evaluate_eq_plain {store : Store} {s : Session} (h : Reachable store limits s)
    {subject : Subject} (named : ∀ p, subject ≠ .program p) {depth : ℕ}
    (hd : s.world.store.bound ≤ depth) :
    (∀ input, ((evaluate subject input).run s).1 =
      Plain.evaluate s.world.store limits depth subject input) ∧
    (∀ first count, ((evaluateRange subject first count).run s).1 = do
      let _ ← Plain.prepare s.world.store depth subject
      let results ← plainResults s.world.store limits depth subject first count
      return results.map (·.value)) ∧
    ∀ count, ((stepCost subject count).run s).1 = do
      let p ← Plain.prepare s.world.store depth subject
      let results ← plainResults s.world.store limits depth subject p.offset count
      return totalSteps results := by
  have sound := h.sound
  have bounds := (Plain.bounds_find s.world.store).mono hd
  refine ⟨fun input => ?_, fun first count => ?_, fun count => ?_⟩
  · exact (gives_evaluate named hd input s sound).1
  · have ran : Gives (Plain.find s.world.store) limits ∅ (evaluateRange subject first count)
        (Plain.prepare s.world.store depth subject >>= fun p =>
          plainRange (Plain.find s.world.store) limits depth p first count >>= fun results =>
            .ok (results.map (·.value))) :=
      gives_prepare named hd fun p ready => (gives_runRange ready bounds first count).bind
        fun results _ => gives_pure (results.map (·.value))
    rw [(ran s sound).1]
    exact prepare_bind_range (fun _ => first) count fun results => .ok (results.map (·.value))
  · have parts : stepCost subject count = programOf subject >>= fun p => preflight p >>= fun _ =>
        runRange p p.offset count >>= fun results => pure (totalSteps results) := by
      unfold stepCost runTerms
      simp only [bind_assoc]
    have ran : Gives (Plain.find s.world.store) limits ∅ (stepCost subject count)
        (Plain.prepare s.world.store depth subject >>= fun p =>
          plainRange (Plain.find s.world.store) limits depth p p.offset count >>= fun results =>
            .ok (totalSteps results)) := by
      rw [parts]
      exact gives_prepare named hd fun p ready => (gives_runRange ready bounds p.offset count).bind
        fun results _ => gives_pure (totalSteps results)
    rw [(ran s sound).1]
    exact prepare_bind_range (·.offset) count fun results => .ok (totalSteps results)

/-- A text that calls a stored program, evaluated a second time. -/
theorem evaluate_eq_plain_again :
    ((evaluate (.text "seq $0,1") 3).run
      (Request.perform (Session.new ((Store.memory ∅).add 1 "add $0,1") {})
        (.evaluate (.text "seq $0,1") 3))).1 = .ok ⟨4, 2⟩ :=
  have named : ∀ p, Subject.text "seq $0,1" ≠ .program p := fun _ h => nomatch h
  ((evaluate_eq_plain (.request _ .new) named (le_refl _)).1 3).trans (by cbv)

/-- A range without inputs asks for a program that is not there, though it has no results. -/
theorem evaluateRange_needs_program :
    plainResults (.memory ∅) {} 0 (.id 5) 0 0 = .ok [] ∧
      ((evaluateRange (.id 5) 0 0).run (Session.new (.memory ∅) {})).1 =
        .error (.of (.unresolvedDependency 5 none) []) :=
  ⟨rfl, rfl⟩

end SeqAsm.Session
