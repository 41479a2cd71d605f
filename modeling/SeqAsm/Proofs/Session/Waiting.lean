import Mathlib
import SeqAsm.Proofs.Session.Shared

/-!
Threads that wait for each other.

A thread that computes a query and waits itself waits for a program that the one it computes leads
to. So along a chain of threads that wait for each other the programs waited for have ever shorter
closures: the chain never returns, and it ends at a thread that can go on.
-/

namespace SeqAsm.Shared

open Resolver (Finder Reaches Settled)
open Schedule (Flight)

variable {f : Finder} {limits : Limits} {s : State} {t u : ℕ} {c d : Flight}

/-- A thread has begun a computation and not yet published its outcome. -/
def State.Owns (s : State) (t : ℕ) (c : Flight) : Prop :=
  c ∈ (s.desk.threads t).stack ∨ ∃ o, (s.desk.threads t).phase = .announcing c o

/-- A thread waits for an outcome that is not yet published. -/
def State.Awaits (s : State) (t : ℕ) (c : Flight) : Prop :=
  (s.desk.threads t).phase = .waiting c ∧ s.desk.published c.ticket = none

def State.Waits (s : State) (t : ℕ) : Prop := ∃ c, s.Awaits t c

/-- A thread waits for what another computes. -/
def State.WaitsFor (s : State) (t u : ℕ) : Prop := ∃ c, s.Awaits t c ∧ s.Owns u c

lemma Sane.owner (h : Sane f limits s) (waits : s.Awaits t c) : ∃ u, s.Owns u c := by
  obtain ⟨es, run⟩ := h.desk
  obtain ⟨u, on | telling | ⟨o, out⟩⟩ := (Schedule.sound_of_run run).tickets.awaited waits.1
  · exact ⟨u, .inl on⟩
  · exact ⟨u, .inr telling⟩
  · exact nomatch waits.2.symm.trans out

lemma Sane.settled (h : Sane f limits s) (waits : s.Awaits t c) :
    ∃ ids, Settled f c.query.program ids := by
  obtain ⟨a, rest, p, runs, program, names⟩ := (h.work t).waiting waits.1
  obtain ⟨p', program', ready⟩ := (runs ▸ (h.work t).nested).ready
  obtain rfl := Except.ok.inj (program.symm.trans program')
  exact settled_of_names ready names

/-- A thread that computes a query and waits itself waits for what that query leads to. -/
lemma Sane.reaches (h : Sane f limits s) (owns : s.Owns u c) (waits : s.Awaits u d) :
    Reaches f c.query.program d.query.program := by
  obtain ⟨a, rest, p, runs, program, names⟩ := (h.work u).waiting waits.1
  rcases owns with on | ⟨o, phase⟩
  · exact (runs ▸ (h.work u).nested).reaches on program names
  · exact nomatch waits.1.symm.trans phase

lemma Sane.reaches_of_transGen (h : Sane f limits s) (chain : Relation.TransGen s.WaitsFor t u)
    (first : s.Awaits t c) (last : s.Awaits u d) :
    Reaches f c.query.program d.query.program := by
  have same {v : ℕ} {c d : Flight} (hc : s.Awaits v c) (hd : s.Awaits v d) : c = d := by
    cases hc.1.symm.trans hd.1
    rfl
  induction chain generalizing d with
  | single link =>
    obtain ⟨c', waits, owns⟩ := link
    obtain rfl := same first waits
    exact h.reaches owns last
  | tail chain link ih =>
    obtain ⟨e, waits, owns⟩ := link
    exact (ih waits).trans (h.reaches owns last)

/-- **No thread waits for itself**, directly or through others. -/
lemma Sane.irrefl (h : Sane f limits s) (t : ℕ) : ¬ Relation.TransGen s.WaitsFor t t := by
  intro chain
  obtain ⟨u, ⟨c, waits, owns⟩, -⟩ := Relation.TransGen.head'_iff.1 chain
  obtain ⟨ids, settled⟩ := h.settled waits
  exact settled.acyclic .refl (h.reaches_of_transGen chain waits waits)

lemma Sane.act_of_running (h : Sane f limits s) (on : c ∈ (s.desk.threads t).stack)
    (running : (s.desk.threads t).phase = .running) : ∃ s', Act t s s' := by
  obtain ⟨d, stack, hs⟩ := List.exists_cons_of_ne_nil (List.ne_nil_of_mem on)
  obtain ⟨a, b, rest, runs⟩ := (h.work t).nested.exists_runs on
  have thread : s.desk.threads t = ⟨d :: stack, .running⟩ := by
    rw [← hs, ← running]
  rcases next : a.next s.library.limits with q | o
  · exact ⟨_, .asked runs next (.asked running rfl)⟩
  · exact ⟨_, .finished runs next (.finished thread o)⟩

/-- A thread that has begun something and does not wait can go on. -/
lemma Sane.act_of_owns (h : Sane f limits s) (owns : s.Owns t c) (free : ¬ s.Waits t) :
    ∃ s', Act t s s' := by
  rcases phase : (s.desk.threads t).phase with _ | ⟨d, o⟩ | d
  · rcases owns with on | ⟨o, announcing⟩
    · exact h.act_of_running on phase
    · exact nomatch phase.symm.trans announcing
  · obtain ⟨a, rest, runs⟩ := List.exists_cons_of_ne_nil ((h.work t).announcing phase)
    exact ⟨_, .published runs (.published phase)⟩
  · obtain ⟨a, rest, p, runs, -⟩ := (h.work t).waiting phase
    rcases out : s.desk.published d.ticket with _ | o
    · exact absurd ⟨d, phase, out⟩ free
    · exact ⟨_, .received runs (.received phase out)⟩

/-- A thread that waits leads to one that does not. The induction is on the closure of the program
that it waits for. -/
lemma Sane.leads (h : Sane f limits s) (n : ℕ) : ∀ {t c ids}, s.Awaits t c →
    Settled f c.query.program ids → ids.length < n →
      ∃ u d, Relation.TransGen s.WaitsFor t u ∧ s.Owns u d ∧ ¬ s.Waits u := by
  induction n with
  | zero => intro t c ids _ _ hn; omega
  | succ n ih =>
    intro t c ids waits settled hn
    obtain ⟨u, owns⟩ := h.owner waits
    have link : s.WaitsFor t u := ⟨c, waits, owns⟩
    by_cases free : s.Waits u
    · obtain ⟨d, waits'⟩ := free
      have reach := h.reaches owns waits'
      obtain ⟨ids', settled'⟩ := settled.of_leads reach.to_reflTransGen
      have shorter := settled.length_lt reach settled'
      obtain ⟨v, e, chain, rest⟩ := ih waits' settled' (by omega)
      exact ⟨v, e, .head link chain, rest⟩
    · exact ⟨u, c, .single link, owns, free⟩

/-- **Threads that share a session never wait for each other in a circle.** Whatever they
evaluate and in whatever order they take their steps, a thread that waits leads to one that does
not, and that one has begun a computation and can go on with it. -/
theorem no_deadlock {store : Store} (h : Reachable store limits s) :
    (∀ t, ¬ Relation.TransGen s.WaitsFor t t) ∧
    ∀ t, s.Waits t → ∃ u c, Relation.TransGen s.WaitsFor t u ∧ s.Owns u c ∧ ¬ s.Waits u ∧
      ∃ s', Act u s s' := by
  have sane := h.sane
  refine ⟨sane.irrefl, fun t ⟨c, waits⟩ => ?_⟩
  obtain ⟨ids, settled⟩ := sane.settled waits
  obtain ⟨u, d, chain, owns, free⟩ := sane.leads _ waits settled (Nat.lt_succ_self _)
  exact ⟨u, d, chain, owns, free, sane.act_of_owns owns free⟩

/-- A store with a program that increments its input and one that calls it. -/
def pair : Store := ((Store.memory ∅).add 1 "add $0,1").add 2 "seq $0,1"

def caller : Program where
  body := .instr ⟨.seq, [.reg 0, .const 1]⟩ 1 .nil
  id := some 2

lemma find_caller : Plain.find pair 2 = .ok (some caller) := by
  cbv

lemma check_caller :
    (Resolver.ofProgram ⟨Plain.find pair, pair.bound⟩ {} caller).answer = .ok [1] := by
  cbv

lemma next_caller : Machine.next {} caller 5 [] = .ask ⟨1, 5⟩ := by
  cbv

lemma vet_caller {l : Library} (sound : l.Sound (Plain.find pair) {}) :
    ∃ l', l.act (Session.vet (.id 2)) = (.ok caller, l') := by
  have program : Plain.programOf (Plain.find pair) (.id 2) = .ok caller :=
    Plain.load_eq_ok.2 find_caller
  have gives : Session.Gives (Plain.find pair) {} ∅ (Session.vet (.id 2))
      (Plain.programOf (Plain.find pair) (.id 2) >>= fun p =>
        (Resolver.ofProgram ⟨Plain.find pair, pair.bound⟩ {} p).answer >>= fun _ => .ok p) := by
    refine (Session.gives_programOf _).bind fun p hp => ?_
    obtain rfl := Except.ok.inj (program.symm.trans hp)
    have stored : Session.Stored (Plain.find pair) caller := by
      rintro id ⟨⟩
      exact find_caller
    exact (Session.gives_preflight stored (Plain.bounds_find pair)).bind fun _ _ =>
      Session.gives_pure _
  have passed := (sound.act_of_gives gives).1
  rw [program] at passed
  change (l.act (Session.vet (.id 2))).1 =
    ((Resolver.ofProgram ⟨Plain.find pair, pair.bound⟩ {} caller).answer >>= fun _ => .ok caller)
    at passed
  rw [check_caller] at passed
  exact ⟨_, Prod.ext passed rfl⟩

/-- Two threads evaluate the same program, and the second comes to wait for the first. -/
lemma reachable_waiting : ∃ s, Reachable pair {} s ∧ s.Waits 1 := by
  have asks {s : State} (h : Reachable pair {} s) :
      Activation.next s.library.limits ⟨.ok caller, 5, []⟩ = .ask ⟨1, 5⟩ :=
    h.sane.library.limits ▸ next_caller
  have r₀ : Reachable pair {} _ := .new
  obtain ⟨l₁, passed₁⟩ := vet_caller r₀.sane.library
  have r₁ := r₀.act (.began (t := 0) rfl passed₁ 5)
  have r₂ := r₁.act (.asked rfl (asks r₁)
    (.asked (by rfl) (by rfl) : Schedule.Step _ (.asked 0 ⟨1, 5⟩ (.compute 0)) _))
  obtain ⟨l₃, passed₃⟩ := vet_caller r₂.sane.library
  have r₃ := r₂.act (.began (t := 1) rfl passed₃ 5)
  have r₄ := r₃.act (.asked rfl (asks r₃)
    (.asked (by rfl) (by rfl) : Schedule.Step _ (.asked 1 ⟨1, 5⟩ (.wait 0)) _))
  exact ⟨_, r₄, ⟨⟨1, 5⟩, 0⟩, rfl, rfl⟩

/-- The thread that waits, and the one that it leads to. -/
theorem no_deadlock_pair : ∃ s, Reachable pair {} s ∧ s.Waits 1 ∧ ∃ u c,
    Relation.TransGen s.WaitsFor 1 u ∧ s.Owns u c ∧ ¬ s.Waits u ∧ ∃ s', Act u s s' := by
  obtain ⟨s, reachable, waits⟩ := reachable_waiting
  exact ⟨s, reachable, waits, (no_deadlock reachable).2 1 waits⟩

end SeqAsm.Shared
