import SeqAsm.Proofs.Cache.SingleFlight
import SeqAsm.Proofs.Machine.Replay
import SeqAsm.Proofs.Session.Requests

/-!
Threads that share a session.

Each thread evaluates one program after another. A run goes on until it calls a program and asks
the cache for the result, which may be there, or has to be computed, or waited for. So a thread
has a stack of runs, its evaluation at the bottom. What it does without the cache it does together
with its last step at the cache. A session is a thread that has cache and library for itself: it
evaluates and calls by the same steps.
-/

namespace SeqAsm

open Resolver (Finder Reaches Settled)

/-! ### Sessions without their cache -/

namespace Library

variable {α : Type} {f : Finder} {limits : Limits} {l : Library} {m : SessionM α}

/-- Does something that does not concern the cache. -/
def act (l : Library) (m : SessionM α) : Except Failure α × Library :=
  let (out, s) := m.run { cache := {}, world := l }
  (out, s.world)

/-- A session with nothing but a library. -/
lemma Sound.session (h : l.Sound f limits) :
    Session.Sound f limits ∅ { cache := {}, world := l } where
  world := h
  entries hr := by simp at hr
  pending := rfl

lemma Sound.act_of_gives {out : Except Failure α} (h : l.Sound f limits)
    (gives : Session.Gives f limits ∅ m out) : (l.act m).1 = out ∧ (l.act m).2.Sound f limits :=
  (gives _ h.session).imp_right Session.Sound.world

lemma Sound.act_of_keeps {post : α → Prop} (h : l.Sound f limits)
    (keeps : Session.Keeps f limits ∅ m post) :
    (l.act m).2.Sound f limits ∧ ∀ a, (l.act m).1 = .ok a → post a :=
  (keeps _ h.session).imp_left Session.Sound.world

end Library

namespace Session

variable {α : Type} {f : Finder} {limits : Limits}

/-- An evaluation up to its run. -/
def vet (subject : Subject) : SessionM Program := do
  let p ← programOf subject
  let _ ← preflight p
  return p

/-- A call up to its run. -/
def enter (q : Query) : SessionM Program := do
  note (.cacheMissed q)
  let p ← load q.program
  let _ ← resolve (·.transitive · q.program)
  return p

lemma evaluate_eq (subject : Subject) (input : Int) :
    evaluate subject input = vet subject >>= fun p => run p input := by
  simp [evaluate, vet]

lemma callWithin_succ (depth : ℕ) (q : Query) : callWithin (depth + 1) q =
    Cached.getOrCompute q (enter q >>= fun p => runWith (callWithin depth) p q.input).run := by
  simp [callWithin, enter]

/-- A computation that neither looks at the cache nor changes it. -/
def Quiet (m : SessionM α) : Prop :=
  ∀ c l, m.run { cache := c, world := l } = ((l.act m).1, { cache := c, world := (l.act m).2 })

/-- What follows is done with the library that a quiet computation leaves. -/
lemma Quiet.run_eq {β : Type} {m : SessionM α} (h : Quiet m) (k : α → SessionM β)
    (c : Cache Result) (l : Library) : (m >>= k).run { cache := c, world := l } =
      match l.act m with
      | (.ok a, l) => (k a).run { cache := c, world := l }
      | (.error e, l) => (.error e, { cache := c, world := l }) := by
  rw [run_bind, h]
  rcases l.act m with ⟨e | a, l⟩ <;> rfl

lemma Quiet.bind {β : Type} {m : SessionM α} {k : α → SessionM β} (h : Quiet m)
    (hk : ∀ a, Quiet (k a)) : Quiet (m >>= k) := by
  intro c l
  rw [Library.act, h.run_eq, h.run_eq]
  rcases l.act m with ⟨e | a, l⟩
  · rfl
  · exact hk a c l

lemma quiet_load (id : Int) : Quiet (load id) := by
  refine Quiet.bind (fun c l => ?_) fun p => ?_
  · simp only [load?, Library.act, run_bind, run_library, run_update]
    rcases l.find id with e | p <;> rfl
  · rcases p with _ | p <;> exact fun _ _ => rfl

lemma quiet_resolve (search : Resolver → Loader → Resolution) : Quiet (resolve search) := by
  intro c l
  rw [Library.act, run_resolve, run_resolve]

lemma quiet_programOf (subject : Subject) : Quiet (programOf subject) := by
  cases subject with
  | id n => exact quiet_load n
  | text s =>
    unfold programOf Session.parse
    dsimp only
    rcases Program.parse s "<input>" none with d | p
    · exact fun _ _ => rfl
    · exact Quiet.bind (fun _ _ => rfl) fun _ _ _ => rfl
  | program p => exact fun _ _ => rfl

lemma quiet_vet (subject : Subject) : Quiet (vet subject) :=
  (quiet_programOf subject).bind fun _ => (quiet_resolve _).bind fun _ _ _ => rfl

lemma quiet_enter (q : Query) : Quiet (enter q) :=
  Quiet.bind (fun _ _ => rfl) fun _ => (quiet_load q.program).bind fun _ =>
    (quiet_resolve _).bind fun _ _ _ => rfl

/-- An evaluation is what precedes its run, and the run. -/
lemma run_evaluate (subject : Subject) (input : Int) (c : Cache Result) (l : Library) :
    (evaluate subject input).run { cache := c, world := l } =
      match l.act (vet subject) with
      | (.ok p, l) => (run p input).run { cache := c, world := l }
      | (.error e, l) => (.error e, { cache := c, world := l }) := by
  rw [evaluate_eq, (quiet_vet subject).run_eq]
  rcases l.act (vet subject) with ⟨e | p, l⟩ <;> rfl

lemma keeps_vet (subject : Subject) : Keeps f limits ∅ (vet subject) (Ready f) :=
  (gives_programOf subject).keeps.bind fun p _ =>
    (keeps_preflight p).bind fun _ ready _ hs => ⟨hs, fun _ hp => Except.ok.inj hp ▸ ready⟩

lemma gives_enter {q : Query} {c : List Int} (settled : Settled f q.program c) :
    Gives f limits ∅ (enter q) (Plain.load f q.program) := by
  have loaded : Plain.load f q.program = (Except.ok () >>= fun _ => Plain.load f q.program >>=
      fun p => Except.ok c >>= fun _ => Except.ok p) := by
    rcases Plain.load f q.program with e | p <;> rfl
  rw [loaded]
  exact (gives_note _).bind fun _ _ => (gives_load q.program).bind fun p _ =>
    (gives_transitive settled).bind fun _ _ => gives_pure p

end Session

/-! ### Threads and their runs -/

namespace Shared

open Cache (Reply)
open Machine (Next)
open Schedule (Flight Thread)
open Session (Ready Sound Gives Keeps vet enter)

/-- A run under way: its program, unless that could not be prepared, its input, and the answers
that its calls have had. -/
structure Activation where
  program : Except Failure Program
  input : Int
  answers : List (Except Failure Result) := []

def Activation.next (limits : Limits) (a : Activation) : Next :=
  match a.program with
  | .ok p => Machine.next limits p a.input a.answers
  | .error e => .stop (.error e)

def Activation.answered (a : Activation) (o : Except Failure Result) : Activation :=
  { a with answers := a.answers ++ [o] }

structure State where
  /-- The cache, and how each thread stands with it. -/
  desk : Schedule.State Result := {}
  library : Library
  /-- The runs of each thread, the innermost first. -/
  runs : ℕ → List Activation := fun _ => []

def State.put (s : State) (t : ℕ) (runs : List Activation) : State :=
  { s with runs := Function.update s.runs t runs }

@[simp] lemma State.put_self {s : State} {t : ℕ} (runs : List Activation) :
    (s.put t runs).runs t = runs := Function.update_self ..

@[simp] lemma State.put_of_ne {s : State} {t u : ℕ} (h : u ≠ t) (runs : List Activation) :
    (s.put t runs).runs u = s.runs u := Function.update_of_ne h ..

/-- The state when the call `q` of the innermost run `a` has been answered. A thread that is to
compute the result enters the program. -/
def State.replied (s : State) (t : ℕ) (a : Activation) (rest : List Activation) (q : Query) :
    Reply Result → State
  | .found r => s.put t (a.answered (.ok r) :: rest)
  | .reentered => s.put t (a.answered (.error (Cache.reentry q)) :: rest)
  | .wait _ => s
  | .compute _ =>
    let (program, library) := s.library.act (enter q)
    { s with library }.put t (⟨program, q.input, []⟩ :: a :: rest)

/-- What a thread can do next. -/
inductive Act (t : ℕ) (s : State) : State → Prop
  | began {subject : Subject} {p : Program} {library : Library} (idle : s.runs t = [])
      (passed : s.library.act (vet subject) = (.ok p, library)) (input : Int) :
      Act t s ({ s with library }.put t [⟨.ok p, input, []⟩])
  | refused {subject : Subject} {e : Failure} {library : Library} (idle : s.runs t = [])
      (failed : s.library.act (vet subject) = (.error e, library)) : Act t s { s with library }
  | asked {a : Activation} {rest : List Activation} {q : Query} {reply : Reply Result}
      {desk : Schedule.State Result} (runs : s.runs t = a :: rest)
      (asks : a.next s.library.limits = .ask q)
      (look : Schedule.Step s.desk (.asked t q reply) desk) :
      Act t s ({ s with desk }.replied t a rest q reply)
  | finished {a b : Activation} {rest : List Activation} {c : Flight} {o : Except Failure Result}
      {desk : Schedule.State Result} (runs : s.runs t = a :: b :: rest)
      (stops : a.next s.library.limits = .stop o)
      (ends : Schedule.Step s.desk (.finished t c o) desk) :
      Act t s ({ s with desk }.put t (b :: rest))
  | published {a : Activation} {rest : List Activation} {c : Flight} {o : Except Failure Result}
      {desk : Schedule.State Result} (runs : s.runs t = a :: rest)
      (tells : Schedule.Step s.desk (.published t c o) desk) :
      Act t s ({ s with desk }.put t (a.answered o :: rest))
  | received {a : Activation} {rest : List Activation} {c : Flight} {o : Except Failure Result}
      {desk : Schedule.State Result} (runs : s.runs t = a :: rest)
      (hears : Schedule.Step s.desk (.received t c o) desk) :
      Act t s ({ s with desk }.put t (a.answered o :: rest))
  | again {a : Activation} {o : Except Failure Result} (runs : s.runs t = [a])
      (running : (s.desk.threads t).phase = .running)
      (stops : a.next s.library.limits = .stop o) (input : Int) :
      Act t s (s.put t [⟨a.program, input, []⟩])
  | ended {a : Activation} {o : Except Failure Result} (runs : s.runs t = [a])
      (running : (s.desk.threads t).phase = .running)
      (stops : a.next s.library.limits = .stop o) : Act t s (s.put t [])

/-! ### Threads and sessions -/

/-- The cache and the library, as a session that one thread has for itself. -/
def State.session (s : State) : Session := { cache := s.desk.cache, world := s.library }

/-- A run under way from its start to its end, as a session makes it. -/
def Activation.perform (a : Activation) (depth : ℕ) : SessionM Result := do
  match a.program with
  | .ok p => Session.runWith (Session.callWithin depth) p a.input
  | .error e => throw e

lemma run_callWithin (depth : ℕ) (q : Query) (c : Cache Result) (l : Library) :
    (Session.callWithin (depth + 1) q).run { cache := c, world := l } =
      match c.request 0 q with
      | (.found r, c) => (.ok r, { cache := c, world := l })
      | (.reentered, c) | (.wait _, c) => (.error (Cache.reentry q), { cache := c, world := l })
      | (.compute _, c) =>
        let (program, l) := l.act (enter q)
        let (o, s) := (Activation.perform ⟨program, q.input, []⟩ depth).run
          { cache := c, world := l }
        (o, { s with cache := s.cache.finish q o }) := by
  rw [Session.callWithin_succ]
  change Cached.getOrCompute q _ _ = _
  unfold Cached.getOrCompute
  dsimp only
  rcases c.request 0 q with ⟨r | k | k | -, c⟩
  · rfl
  · dsimp only
    rw [(Session.quiet_enter q).run_eq]
    rcases l.act (enter q) with ⟨e | p, l⟩ <;> rfl
  · rfl
  · rfl

/-- **A thread does with the cache and the library what a session does.** An evaluation in a session
is the step by which a thread begins one, and then the run. A call is the step by which a thread
asks for the result when no other thread computes: it is answered at once, or the program is entered
and run, and the computation ends. -/
theorem act_as_session (s : State) :
    (∀ t subject input, s.runs t = [] → ∃ s', Act t s s' ∧
      ((∃ p, s'.runs t = [⟨.ok p, input, []⟩] ∧
          (Session.evaluate subject input).run s.session = (Session.run p input).run s'.session) ∨
        ∃ e, s'.runs t = [] ∧
          (Session.evaluate subject input).run s.session = (.error e, s'.session))) ∧
    ∀ a rest q depth, s.runs 0 = a :: rest → (s.desk.threads 0).phase = .running →
      a.next s.library.limits = .ask q →
      (∀ (x : Query) (w : Pending), s.desk.cache.pending[x]? = some w → w.thread = 0) →
      ∃ s', Act 0 s s' ∧
        ((∃ o, s'.runs 0 = a.answered o :: rest ∧
            (Session.callWithin (depth + 1) q).run s.session = (o, s'.session)) ∨
          ∃ b, s'.runs 0 = b :: a :: rest ∧ b.input = q.input ∧ b.answers = [] ∧
            (Session.callWithin (depth + 1) q).run s.session =
              let (o, after) := (b.perform depth).run s'.session
              (o, { after with cache := after.cache.finish q o })) := by
  refine ⟨fun t subject input idle => ?_, fun a rest q depth runs running asks own => ?_⟩
  · rcases vetted : s.library.act (vet subject) with ⟨e | p, library⟩
    · refine ⟨_, .refused idle vetted, .inr ⟨e, idle, ?_⟩⟩
      rw [State.session, Session.run_evaluate, vetted]
      rfl
    · refine ⟨_, .began idle vetted input, .inl ⟨p, State.put_self _, ?_⟩⟩
      rw [State.session, Session.run_evaluate, vetted]
      rfl
  · rcases look : s.desk.cache.request 0 q with ⟨reply, cache⟩
    refine ⟨_, .asked runs asks (.asked running look), ?_⟩
    rw [State.session, run_callWithin, look]
    cases reply with
    | found r => exact .inl ⟨.ok r, State.put_self _, rfl⟩
    | reentered => exact .inl ⟨.error (Cache.reentry q), State.put_self _, rfl⟩
    | wait k =>
      cases Cache.looked_of_request look with
      | wait absent taken other => exact absurd (own _ _ taken) other
    | compute k => exact .inr ⟨_, State.put_self _, rfl, rfl, rfl⟩

/-- The states that threads can bring about, starting from a new session. The cache may be cleared
at any time. -/
inductive Reachable (store : Store) (limits : Limits) : State → Prop
  | new : Reachable store limits { library := (Session.new store limits).world }
  | act {s s' : State} {t : ℕ} : Reachable store limits s → Act t s s' → Reachable store limits s'
  | cleared {s : State} {desk : Schedule.State Result} : Reachable store limits s →
      Schedule.Step s.desk .cleared desk → Reachable store limits { s with desk }

variable {f : Finder} {limits : Limits} {s s' : State} {t u : ℕ} {c : Flight} {a b : Activation}
  {rest : List Activation} {stack : List Flight} {p : Program} {id : Int}

/-! ### Runs call what is in order -/

/-- A program calls another. -/
def Names (p : Program) (id : Int) : Prop := ∃ ids, p.dependencies = .ok ids ∧ id ∈ ids

/-- Each computation of a thread is that of a call by the run beneath. -/
inductive Nested (f : Finder) : List Flight → List Activation → Prop
  | idle : Nested f [] []
  | root {a : Activation} {p : Program} (program : a.program = .ok p) (ready : Ready f p) :
      Nested f [] [a]
  | call {c : Flight} {stack : List Flight} {a b : Activation} {rest : List Activation}
      {p p' : Program} (beneath : Nested f stack (b :: rest)) (caller : b.program = .ok p)
      (names : Names p c.query.program) (callee : a.program = .ok p')
      (found : f c.query.program = .ok (some p')) : Nested f (c :: stack) (a :: b :: rest)

lemma Nested.stack_eq_nil {runs : List Activation} (h : Nested f stack runs)
    (short : runs.length ≤ 1) : stack = [] := by
  cases h with
  | idle => rfl
  | root program ready => rfl
  | call beneath caller names callee found => simp at short

lemma Nested.exists_runs {runs : List Activation} (h : Nested f stack runs) (on : c ∈ stack) :
    ∃ a b rest, runs = a :: b :: rest := by
  cases h with
  | idle => cases on
  | root program ready => cases on
  | call beneath caller names callee found => exact ⟨_, _, _, rfl⟩

lemma settled_of_names (ready : Ready f p) (names : Names p id) : ∃ ids, Settled f id ids := by
  obtain ⟨ids, hids, settled⟩ := ready
  obtain ⟨ids', hids', mem⟩ := names
  obtain rfl := Except.ok.inj (hids.symm.trans hids')
  exact settled id mem

lemma ready_of_settled {ids : List Int} (settled : Settled f id ids)
    (found : f id = .ok (some p)) : Ready f p := by
  obtain ⟨called, p', found', hd⟩ := settled.links
  obtain rfl : p = p' := Option.some.inj (Except.ok.inj (found.symm.trans found'))
  exact ⟨called, hd, fun v hv => settled.of_leads (.single ⟨called, ⟨p, found, hd⟩, hv⟩)⟩

/-- The innermost run is that of a program in order. -/
lemma Nested.ready (h : Nested f stack (a :: rest)) : ∃ p, a.program = .ok p ∧ Ready f p := by
  generalize hr : a :: rest = runs at h
  induction h generalizing a rest with
  | idle => cases hr
  | root program ready =>
    cases hr
    exact ⟨_, program, ready⟩
  | call beneath caller names callee found ih =>
    cases hr
    obtain ⟨p, hp, ready⟩ := ih rfl
    obtain rfl := Except.ok.inj (caller.symm.trans hp)
    obtain ⟨ids, settled⟩ := settled_of_names ready names
    exact ⟨_, callee, ready_of_settled settled found⟩

/-- All that a thread computes leads to what its innermost run calls. -/
lemma Nested.reaches (h : Nested f stack (a :: rest)) (on : c ∈ stack) (program : a.program = .ok p)
    (names : Names p id) : Reaches f c.query.program id := by
  generalize hr : a :: rest = runs at h
  induction h generalizing a rest p id with
  | idle => cases hr
  | root program' ready => cases on
  | call beneath caller names' callee found ih =>
    cases hr
    obtain rfl := Except.ok.inj (program.symm.trans callee)
    obtain ⟨ids, hids, mem⟩ := names
    have last : Resolver.Calls f _ id := ⟨ids, ⟨p, found, hids⟩, mem⟩
    rcases List.mem_cons.1 on with rfl | on
    · exact .single last
    · exact .tail (ih on caller names' rfl) last

/-- It does not matter which answers the innermost run has had. -/
lemma Nested.same_program (h : Nested f stack (a :: rest)) (same : b.program = a.program) :
    Nested f stack (b :: rest) := by
  cases h with
  | root program ready => exact .root (same.trans program) ready
  | call beneath caller names callee found =>
    exact .call beneath caller names (same.trans callee) found

/-! ### What holds at all times -/

/-- How a thread stands with the cache fits with its runs. -/
structure AtWork (f : Finder) (th : Thread Result) (runs : List Activation) : Prop where
  nested : Nested f th.stack runs
  waiting {c : Flight} : th.phase = .waiting c →
    ∃ a rest p, runs = a :: rest ∧ a.program = .ok p ∧ Names p c.query.program
  announcing {c : Flight} {o : Except Failure Result} : th.phase = .announcing c o → runs ≠ []

structure Sane (f : Finder) (limits : Limits) (s : State) : Prop where
  library : s.library.Sound f limits
  desk : ∃ es, Schedule.Run es s.desk
  work (t : ℕ) : AtWork f (s.desk.threads t) (s.runs t)

lemma sane_new (store : Store) (limits : Limits) :
    Sane (Plain.find store) limits { library := (Session.new store limits).world } where
  library := (Session.sound_new store limits).world
  desk := ⟨[], .refl⟩
  work _ := ⟨.idle, nofun, nofun⟩

/-- A thread that does something leaves the other threads alone. -/
lemma Sane.act_of (h : Sane f limits s) (library : s'.library.Sound f limits)
    (desk : ∃ es, Schedule.Run es s'.desk)
    (others : ∀ u, u ≠ t → s'.desk.threads u = s.desk.threads u ∧ s'.runs u = s.runs u)
    {th : Thread Result} {runs : List Activation} (thread : s'.desk.threads t = th)
    (own : s'.runs t = runs) (work : AtWork f th runs) : Sane f limits s' := by
  refine ⟨library, desk, fun u => ?_⟩
  obtain rfl | hu := eq_or_ne u t
  · rw [thread, own]
    exact work
  · obtain ⟨same, kept⟩ := others u hu
    rw [same, kept]
    exact h.work u

lemma Sane.step {e : Schedule.Event Result} {desk : Schedule.State Result}
    (h : Sane f limits s) (st : Schedule.Step s.desk e desk) : ∃ es, Schedule.Run es desk := by
  obtain ⟨es, run⟩ := h.desk
  exact ⟨e :: es, run.step st⟩

lemma Sane.asked (h : Sane f limits s) (runs : s.runs t = a :: rest) {q : Query}
    (asks : a.next s.library.limits = .ask q) :
    ∃ p, a.program = .ok p ∧ Names p q.program ∧ ∃ ids, Settled f q.program ids := by
  obtain ⟨p, hp, ready⟩ := (runs ▸ (h.work t).nested).ready
  obtain ⟨ids, hids, settled⟩ := ready
  rw [Activation.next, hp] at asks
  have mem := Machine.mem_of_next hids asks
  exact ⟨p, hp, ⟨ids, hids, mem⟩, settled _ mem⟩

lemma AtWork.answered {th : Thread Result} (h : AtWork f th (a :: rest))
    (o : Except Failure Result) : AtWork f ⟨th.stack, .running⟩ (a.answered o :: rest) :=
  ⟨h.nested.same_program rfl, nofun, nofun⟩

/-- A thread that is answered at once, or is to wait, or begins a computation. -/
lemma Sane.replied (h : Sane f limits s) (runs : s.runs t = a :: rest) {q : Query}
    (asks : a.next s.library.limits = .ask q) {reply : Reply Result}
    {desk : Schedule.State Result} (look : Schedule.Step s.desk (.asked t q reply) desk) :
    Sane f limits ({ s with desk }.replied t a rest q reply) := by
  have reach := h.step look
  obtain ⟨p, program, names, ids, settled⟩ := h.asked runs asks
  have work := runs ▸ h.work t
  cases look with
  | asked running look =>
    rcases hth : s.desk.threads t with ⟨stack, phase⟩
    rw [hth] at work running reach
    obtain rfl : phase = .running := running
    cases reply with
    | found r =>
      exact h.act_of h.library reach
        (fun _ hu => ⟨Schedule.State.move_of_ne hu _, State.put_of_ne hu _⟩)
        (Schedule.State.move_self _) (State.put_self _) (work.answered _)
    | reentered =>
      exact h.act_of h.library reach
        (fun _ hu => ⟨Schedule.State.move_of_ne hu _, State.put_of_ne hu _⟩)
        (Schedule.State.move_self _) (State.put_self _) (work.answered _)
    | wait k =>
      refine h.act_of h.library reach (fun _ hu => ⟨Schedule.State.move_of_ne hu _, rfl⟩)
        (Schedule.State.move_self _) runs ⟨work.nested, fun phase => ?_, nofun⟩
      cases phase
      exact ⟨a, rest, p, rfl, program, names⟩
    | compute k =>
      obtain ⟨entered, sound⟩ := h.library.act_of_gives (Session.gives_enter settled)
      obtain ⟨called, p', found, hd⟩ := settled.links
      rw [Plain.load_eq_ok.2 found] at entered
      exact h.act_of sound reach
        (fun _ hu => ⟨Schedule.State.move_of_ne hu _, State.put_of_ne hu _⟩)
        (Schedule.State.move_self _) (State.put_self _)
        ⟨.call work.nested program names entered found, nofun, nofun⟩

/-- Nothing that a thread does takes a session out of order. -/
lemma Sane.act (h : Sane f limits s) (step : Act t s s') : Sane f limits s' := by
  cases step with
  | @began subject p library idle passed input =>
    obtain ⟨sound, returns⟩ := h.library.act_of_keeps (Session.keeps_vet subject)
    rw [passed] at sound returns
    obtain ⟨nested, waiting, -⟩ := idle ▸ h.work t
    refine h.act_of sound h.desk (fun _ hu => ⟨rfl, State.put_of_ne hu _⟩) rfl (State.put_self _)
      ⟨nested.stack_eq_nil zero_le_one ▸ .root rfl (returns p rfl), fun phase => ?_, nofun⟩
    obtain ⟨a, rest, p, same, -⟩ := waiting phase
    cases same
  | @refused subject e library idle failed =>
    obtain ⟨sound, -⟩ := h.library.act_of_keeps (Session.keeps_vet subject)
    rw [failed] at sound
    exact ⟨sound, h.desk, h.work⟩
  | asked runs asks look => exact h.replied runs asks look
  | finished runs stops ends =>
    have reach := h.step ends
    have work := runs ▸ h.work t
    cases ends with
    | finished thread o =>
      rw [thread] at work
      cases work.nested with
      | call beneath caller names callee found =>
        exact h.act_of h.library reach
          (fun _ hu => ⟨Schedule.State.move_of_ne hu _, State.put_of_ne hu _⟩)
          (Schedule.State.move_self _) (State.put_self _) ⟨beneath, nofun, nofun⟩
  | published runs tells =>
    have reach := h.step tells
    have work := runs ▸ h.work t
    cases tells with
    | published phase =>
      exact h.act_of h.library reach
        (fun _ hu => ⟨Schedule.State.move_of_ne hu _, State.put_of_ne hu _⟩)
        (Schedule.State.move_self _) (State.put_self _) (work.answered _)
  | received runs hears =>
    have reach := h.step hears
    have work := runs ▸ h.work t
    cases hears with
    | received phase out =>
      exact h.act_of h.library reach
        (fun _ hu => ⟨Schedule.State.move_of_ne hu _, State.put_of_ne hu _⟩)
        (Schedule.State.move_self _) (State.put_self _) (work.answered _)
  | again runs running stops input =>
    obtain ⟨nested, -, -⟩ := runs ▸ h.work t
    exact h.act_of h.library h.desk (fun _ hu => ⟨rfl, State.put_of_ne hu _⟩) rfl (State.put_self _)
      ⟨nested.same_program rfl, fun phase => (nomatch running.symm.trans phase), nofun⟩
  | ended runs running stops =>
    obtain ⟨nested, -, -⟩ := runs ▸ h.work t
    exact h.act_of h.library h.desk (fun _ hu => ⟨rfl, State.put_of_ne hu _⟩) rfl (State.put_self _)
      ⟨nested.stack_eq_nil le_rfl ▸ .idle, fun phase => (nomatch running.symm.trans phase),
        fun phase => (nomatch running.symm.trans phase)⟩

lemma Reachable.sane {store : Store} (h : Reachable store limits s) :
    Sane (Plain.find store) limits s := by
  induction h with
  | new => exact sane_new store limits
  | act _ step ih => exact ih.act step
  | cleared _ st ih =>
    refine ⟨ih.library, ih.step st, ?_⟩
    cases st
    exact ih.work

end Shared

end SeqAsm
