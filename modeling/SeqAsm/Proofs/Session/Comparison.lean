import Mathlib
import SeqAsm.Proofs.Session.Results

/-!
Comparisons of programs.

The first terms of a program cost the steps that they take, and without end when one of them
fails. These costs do not depend on what a session has been asked before, and a comparison decides
by them alone: the candidate wins when its terms cost less. So programs that replace one another
get cheaper each time, and no program comes back.
-/

namespace SeqAsm.Session

open Resolver (Finder Bounds)

variable {f : Finder} {limits : Limits} {busy : QueryMap Pending} {p q : Program} {α β : Type}

/-! ### Terms -/

/-- What an attempt makes of an outcome: a diagnostic is an answer, a crash is not. -/
def attempted : Except Failure α → Except Failure (Except Diagnostic α)
  | .ok a => .ok (.ok a)
  | .error (.diagnostic d) => .ok (.error d)
  | .error (.crash c) => .error (.crash c)

lemma Gives.attempt {m : SessionM α} {out : Except Failure α} (h : Gives f limits busy m out) :
    Gives f limits busy (Session.attempt m) (attempted out) := by
  intro s hs
  obtain ⟨same, sound⟩ := h s hs
  change (Session.attempt m s).1 = _ ∧ Sound f limits busy (Session.attempt m s).2
  unfold Session.attempt
  rcases hm : m.run s with ⟨(d | c) | a, s'⟩ <;> rw [hm] at same sound <;> subst same
  · exact ⟨rfl, sound⟩
  · exact ⟨rfl, sound⟩
  · exact ⟨rfl, sound⟩

/-- What follows something that returns. -/
lemma Gives.andThen {m : SessionM α} {k : α → SessionM β} {a : α} {out : Except Failure β}
    (h : Gives f limits busy m (.ok a)) (hk : Gives f limits busy (k a) out) :
    Gives f limits busy (m >>= k) out :=
  h.bind (g := fun _ => out) fun _ ha => Except.ok.inj ha ▸ hk

/-- The results that plain evaluation gives for the first terms of a program. -/
def plainTerms (f : Finder) (limits : Limits) (depth : ℕ) (p : Program) (count : Int) :
    Except Failure (List Result) := do
  let _ ← (Resolver.ofProgram ⟨f, depth⟩ {} p).answer
  plainRange f limits depth p p.offset count

lemma gives_runTerms {depth : ℕ} (hp : Stored f p) (hd : Bounds f depth) (count : Int) :
    Gives f limits ∅ (runTerms p count) (plainTerms f limits depth p count) :=
  (gives_preflight hp hd).bind fun _ checked =>
    gives_runRange (ready_of_check checked) hd p.offset count

/-- Steps without end for a failure. -/
def price (out : Except Failure ℕ) : ℕ∞ :=
  match out with
  | .ok steps => steps
  | .error _ => ⊤

/-- What a comparison weighs. -/
def weight (out : Except Failure (List Result)) : ℕ∞ := price (out.map totalSteps)

/-- **A comparison weighs two outcomes.** Unless terms crash, it returns, and the candidate wins
when its terms weigh less than those of the installed program. -/
lemma gives_compare {depth : ℕ} {installed candidate : Subject} {count : Int}
    (hd : Bounds f depth) (hp : Plain.programOf f installed = .ok p)
    (hq : Plain.programOf f candidate = .ok q) (storedp : Stored f p) (storedq : Stored f q)
    (calmp : ∀ c, plainTerms f limits depth p count ≠ .error (.crash c))
    (calmq : ∀ c, plainTerms f limits depth q count ≠ .error (.crash c)) :
    ∃ c, Gives f limits ∅ (compare installed candidate count) (.ok c) ∧
      (c.candidateWins = true ↔ weight (plainTerms f limits depth q count) <
        weight (plainTerms f limits depth p count)) := by
  have reads {subject : Subject} {p : Program} (h : Plain.programOf f subject = .ok p) :
      Gives f limits ∅ (programOf subject) (.ok p) := h ▸ gives_programOf subject
  have terms {p : Program} (stored : Stored f p) :
      Gives f limits ∅ (runTerms p count) (plainTerms f limits depth p count) :=
    gives_runTerms stored hd count
  have old := (terms storedp).attempt
  have new := (terms storedq).attempt
  -- The candidate runs first. What it leaves in the cache does not change what the other gives.
  unfold compare
  rcases hn : plainTerms f limits depth q count with (d | c) | newResults
  · rw [hn] at new
    refine ⟨_, (reads hp).andThen <| (reads hq).andThen <| new.andThen <|
      (gives_note _).andThen (gives_pure _), ?_⟩
    exact ⟨(fun h => nomatch h), fun h => absurd h not_top_lt⟩
  · exact absurd hn (calmq c)
  rw [hn] at new
  rcases ho : plainTerms f limits depth p count with (d | c) | oldResults
  · rw [ho] at old
    refine ⟨_, (reads hp).andThen <| (reads hq).andThen <| new.andThen <| old.andThen <|
      (gives_note _).andThen (gives_pure _), ?_⟩
    exact ⟨fun _ => ENat.natCast_lt_top _, fun _ => rfl⟩
  · exact absurd ho (calmp c)
  · rw [ho] at old
    refine ⟨_, (reads hp).andThen <| (reads hq).andThen <| new.andThen <| old.andThen <|
      (gives_note _).andThen (gives_pure _), ?_⟩
    rw [decide_eq_true_iff]
    exact Nat.cast_lt.symm

lemma gives_stepCost {depth : ℕ} {subject : Subject} (hd : Bounds f depth)
    (hp : Plain.programOf f subject = .ok p) (stored : Stored f p) (count : Int) :
    Gives f limits ∅ (stepCost subject count)
      ((plainTerms f limits depth p count).map totalSteps) := by
  have reads : Gives f limits ∅ (programOf subject) (.ok p) := hp ▸ gives_programOf subject
  exact reads.andThen <| (gives_runTerms stored hd count).bind
    fun results _ => gives_pure (totalSteps results)

/-! ### Costs -/

/-- What the first terms of a program cost in a new session. -/
def cost (store : Store) (limits : Limits) (subject : Subject) (count : Int) : ℕ∞ :=
  price ((stepCost subject count).run (new store limits)).1

/-- A stored program or a text that can be read, the first terms of which do not crash. -/
structure Contestant (store : Store) (limits : Limits) (count : Int) (subject : Subject) :
    Prop where
  named : ∀ p, subject ≠ .program p
  reads : ∃ p, ((programOf subject).run (new store limits)).1 = .ok p
  calm : ∀ c, ((stepCost subject count).run (new store limits)).1 ≠ .error (.crash c)

def after (store : Store) (limits : Limits) (requests : List Request) : Session :=
  requests.foldl Request.perform (new store limits)

/-- In a session, a candidate wins against an installed program. -/
def Beats (s : Session) (count : Int) (candidate installed : Subject) : Prop :=
  ∃ c, ((compare installed candidate count).run s).1 = .ok c ∧ c.candidateWins = true

lemma sound_after (store : Store) (limits : Limits) (requests : List Request) :
    Sound (Plain.find store) limits ∅ (after store limits requests) := by
  suffices kept : ∀ s, Sound (Plain.find store) limits ∅ s →
      Sound (Plain.find store) limits ∅ (requests.foldl Request.perform s) from
    kept _ (sound_new store limits)
  induction requests with
  | nil => exact fun _ hs => hs
  | cons r requests ih => exact fun s hs => ih _ (r.sound hs)

section

variable {store : Store} {count : Int} {subject a b : Subject}

/-- What a contestant denotes, and what its terms come to. -/
lemma Contestant.terms (h : Contestant store limits count subject) : ∃ p,
    Plain.programOf (Plain.find store) subject = .ok p ∧ Stored (Plain.find store) p ∧
      (∀ c, plainTerms (Plain.find store) limits store.bound p count ≠ .error (.crash c)) ∧
        cost store limits subject count =
          weight (plainTerms (Plain.find store) limits store.bound p count) := by
  have fresh := sound_new store limits
  obtain ⟨p, reads⟩ := h.reads
  rw [(gives_programOf subject _ fresh).1] at reads
  have stored := stored_of_programOf h.named reads
  have terms := (gives_stepCost (Plain.bounds_find store) reads stored count _ fresh).1
  refine ⟨p, reads, stored, fun c crashed => h.calm c ?_, ?_⟩
  · rw [terms, crashed]
    rfl
  · rw [cost, terms]
    rfl

/-- A comparison between contestants goes by their costs, whatever has been asked before. -/
lemma exists_compare (ha : Contestant store limits count a) (hb : Contestant store limits count b)
    (requests : List Request) :
    ∃ c, ((compare a b count).run (after store limits requests)).1 = .ok c ∧
      (c.candidateWins = true ↔ cost store limits b count < cost store limits a count) := by
  obtain ⟨p, readsp, storedp, calmp, costp⟩ := ha.terms
  obtain ⟨q, readsq, storedq, calmq, costq⟩ := hb.terms
  obtain ⟨c, gives, wins⟩ := gives_compare (Plain.bounds_find store) readsp readsq storedp storedq
    calmp calmq
  exact ⟨c, (gives _ (sound_after store limits requests)).1, by rw [costp, costq, wins]⟩

lemma beats_iff (ha : Contestant store limits count a) (hb : Contestant store limits count b)
    (requests : List Request) : Beats (after store limits requests) count b a ↔
      cost store limits b count < cost store limits a count := by
  obtain ⟨c, returns, wins⟩ := exists_compare ha hb requests
  rw [← wins]
  constructor
  · rintro ⟨c', returns', won⟩
    rw [returns] at returns'
    rwa [Except.ok.inj returns']
  · exact fun won => ⟨c, returns, won⟩

end

/-- **Comparisons order programs by their costs.** At any time, a comparison between two programs
that do not crash returns, and the candidate wins exactly when its terms cost less than those of
the installed program. So no program beats itself, of two programs one at most beats the other, and
what beats a program that beats a third one beats that too, each time whatever the session has been
asked before. -/
theorem compare_iff_cost_lt (store : Store) (limits : Limits) (count : Int) :
    (∀ requests a b, Contestant store limits count a → Contestant store limits count b →
      ∃ c, ((compare a b count).run (after store limits requests)).1 = .ok c ∧
        (c.candidateWins = true ↔ cost store limits b count < cost store limits a count)) ∧
    (∀ requests a, Contestant store limits count a →
      ¬ Beats (after store limits requests) count a a) ∧
    (∀ requests requests' a b, Contestant store limits count a →
      Contestant store limits count b → Beats (after store limits requests) count b a →
        ¬ Beats (after store limits requests') count a b) ∧
    ∀ requests requests' requests'' a b c, Contestant store limits count a →
      Contestant store limits count b → Contestant store limits count c →
        Beats (after store limits requests) count b a →
          Beats (after store limits requests') count c b →
            Beats (after store limits requests'') count c a := by
  refine ⟨fun requests a b ha hb => exists_compare ha hb requests, ?_, ?_, ?_⟩
  · intro requests a ha won
    exact lt_irrefl _ ((beats_iff ha ha requests).1 won)
  · intro requests requests' a b ha hb won lost
    have cheaper := (beats_iff ha hb requests).1 won
    exact lt_asymm cheaper ((beats_iff hb ha requests').1 lost)
  · intro requests requests' requests'' a b c ha hb hc won won'
    have first := (beats_iff ha hb requests).1 won
    have second := (beats_iff hb hc requests').1 won'
    exact (beats_iff ha hc requests'').2 (lt_trans second first)

/-- A program does by itself what another one calls a stored program for, and wins against it also
when the call has been answered before. -/
theorem compare_iff_cost_lt_calling :
    let store : Store := (Store.memory ∅).add 1 "add $0,1"
    Contestant store {} 2 (.text "seq $0,1") ∧ Contestant store {} 2 (.text "add $0,1") ∧
      Beats (after store {} [.stepCost (.text "seq $0,1") 2]) 2 (.text "add $0,1")
        (.text "seq $0,1") := by
  intro store
  have contests {text : String} {p : Program} {steps : ℕ}
      (reads : ((programOf (.text text)).run (new store {})).1 = .ok p)
      (costs : ((stepCost (.text text) 2).run (new store {})).1 = .ok steps) :
      Contestant store {} 2 (.text text) ∧ cost store {} (.text text) 2 = steps :=
    ⟨⟨(fun _ h => nomatch h), ⟨p, reads⟩, fun c h => nomatch costs.symm.trans h⟩,
      congrArg price costs⟩
  have call : ((programOf (.text "seq $0,1")).run (new store {})).1 =
      .ok { body := .instr ⟨.seq, [.reg 0, .const 1]⟩ 1 .nil } := by cbv
  have four : ((stepCost (.text "seq $0,1") 2).run (new store {})).1 = .ok 4 := by cbv
  have sum : ((programOf (.text "add $0,1")).run (new store {})).1 =
      .ok { body := .instr ⟨.op .add, [.reg 0, .const 1]⟩ 1 .nil } := by cbv
  have two : ((stepCost (.text "add $0,1") 2).run (new store {})).1 = .ok 2 := by cbv
  obtain ⟨calling, dear⟩ := contests call four
  obtain ⟨direct, cheap⟩ := contests sum two
  obtain ⟨c, returns, wins⟩ := (compare_iff_cost_lt store {} 2).1
    [.stepCost (.text "seq $0,1") 2] _ _ calling direct
  refine ⟨calling, direct, c, returns, wins.2 ?_⟩
  rw [dear, cheap]
  decide

end SeqAsm.Session
