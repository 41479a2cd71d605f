import SeqAsm.Proofs.Session.Calls

/-!
Evaluation under watch.

A watched session lists every call of a run, and of the runs that it leads to, before the call is
answered from the cache or by a run of its own. Nothing else changes: what a watched evaluation
gives, and the session it leaves, are those of the evaluation itself.
-/

namespace SeqAsm

/-- A session with a list of calls, the last one first. -/
abbrev Watched := Cached Result (Library × List Query)

abbrev WatchedM := ExceptT Failure (StateM Watched)

namespace Watched

open Session (programOf preflight library load resolve)

def session (w : Watched) : Session := { cache := w.cache, world := w.world.1 }

def calls (w : Watched) : List Query := w.world.2

def new (s : Session) : Watched := { cache := s.cache, world := (s.world, []) }

/-- Does something that calls no program. -/
def quietly {α : Type} (act : SessionM α) : WatchedM α := fun w =>
  let (out, s) := act.run w.session
  (out, { cache := s.cache, world := (s.world, w.calls) })

def record (q : Query) : WatchedM Unit :=
  modify fun w => { w with world := (w.world.1, q :: w.calls) }

/-- Lists the calls of a run and has them answered. -/
def host (call : Query → WatchedM Result) : Host Watched where
  call id n w := (do
    record ⟨id, n⟩
    call ⟨id, n⟩ : WatchedM Result).run w
  stalled line iterations w :=
    { w with world := (w.world.1.note (.loopStalled line iterations), w.calls) }

def runWith (call : Query → WatchedM Result) (p : Program) (input : Int) : WatchedM Result :=
  fun w =>
    let (answer, state) := Machine.run w.world.1.limits (some (host call)) p input w
    (answer, state.world)

def callWithin : (depth : ℕ) → Query → WatchedM Result
  | 0, _ => throw (.crash .searchTooDeep)
  | depth + 1, q =>
    Cached.getOrCompute q <| ExceptT.run do
      quietly (Session.note (.cacheMissed q))
      let p ← quietly (load q.program)
      let _ ← quietly (resolve (·.transitive · q.program))
      runWith (callWithin depth) p q.input

def evaluate (subject : Subject) (input : Int) : WatchedM Result := do
  let p ← quietly (programOf subject)
  let _ ← quietly (preflight p)
  let l ← quietly library
  runWith (callWithin (l.loader.bound + 1)) p input

variable {α β : Type}

/-! ### Watching changes nothing -/

/-- A watched computation does what another one does. -/
def Mirrors (x : WatchedM α) (y : SessionM α) : Prop :=
  ∀ w, (x.run w).1 = (y.run w.session).1 ∧ (x.run w).2.session = (y.run w.session).2

lemma mirrors_quietly (y : SessionM α) : Mirrors (quietly y) y := fun _ => ⟨rfl, rfl⟩

lemma Mirrors.bind {x : WatchedM α} {y : SessionM α} {f : α → WatchedM β} {g : α → SessionM β}
    (h : Mirrors x y) (hf : ∀ a, Mirrors (f a) (g a)) : Mirrors (x >>= f) (y >>= g) := by
  intro w
  obtain ⟨out, session⟩ := h w
  rw [run_bind, run_bind]
  rcases hx : x.run w with ⟨e | a, w'⟩ <;> rcases hy : y.run w.session with ⟨e' | b, s'⟩ <;>
    rw [hx, hy] at out session
  · exact ⟨by rw [Except.error.inj out], session⟩
  · cases out
  · cases out
  · obtain rfl : w'.session = s' := session
    obtain rfl := Except.ok.inj out
    exact hf a w'

lemma mirrors_runWith {call : Query → WatchedM Result} {call' : Query → SessionM Result}
    (h : ∀ q, Mirrors (call q) (call' q)) (p : Program) (input : Int) :
    Mirrors (runWith call p input) (Session.runWith call' p input) := by
  intro w
  have alike : Machine.Alike (fun w s => session w = s) (fun _ => True) (host call)
      (Session.host call') := ⟨fun _ _ hw => hw ▸ h _ _, fun _ _ hw => hw ▸ rfl⟩
  obtain ⟨same, after⟩ := Machine.run_of_alike w.world.1.limits alike p.body.callsIn_true input
    (rfl : w.session = w.session)
  exact ⟨same, after.world⟩

lemma mirrors_getOrCompute (q : Query) {x : WatchedM Result} {y : SessionM Result}
    (h : Mirrors x y) : Mirrors (ExceptT.mk (Cached.getOrCompute q x.run))
      (ExceptT.mk (Cached.getOrCompute q y.run)) := by
  intro w
  change (Cached.getOrCompute q x.run w).1 = (Cached.getOrCompute q y.run w.session).1 ∧
    session (Cached.getOrCompute q x.run w).2 = (Cached.getOrCompute q y.run w.session).2
  have cache : w.session.cache = w.cache := rfl
  unfold Cached.getOrCompute
  rw [cache]
  rcases w.cache.request 0 q with ⟨r | ticket | ticket | _, c⟩
  · exact ⟨rfl, rfl⟩
  · obtain ⟨out, after⟩ := h { w with cache := c }
    exact ⟨out, congrArg₂ (fun out (s : Session) => { s with cache := s.cache.finish q out })
      out after⟩
  · exact ⟨rfl, rfl⟩
  · exact ⟨rfl, rfl⟩

lemma mirrors_callWithin (depth : ℕ) (q : Query) :
    Mirrors (callWithin depth q) (Session.callWithin depth q) := by
  induction depth generalizing q with
  | zero => exact fun _ => ⟨rfl, rfl⟩
  | succ depth ih =>
    exact mirrors_getOrCompute q ((mirrors_quietly _).bind fun _ => (mirrors_quietly _).bind
      fun p => (mirrors_quietly _).bind fun _ => mirrors_runWith ih p q.input)

/-- **A watched evaluation is the evaluation.** -/
theorem mirrors_evaluate (subject : Subject) (input : Int) :
    Mirrors (evaluate subject input) (Session.evaluate subject input) :=
  (mirrors_quietly _).bind fun p => (mirrors_quietly _).bind fun _ => (mirrors_quietly _).bind
    fun _ => mirrors_runWith (mirrors_callWithin _) p input

/-! ### The calls -/

open Resolver (Finder Links Leads Settled Valid)

variable {f : Finder} {limits : Limits} {D : List Int} {post : α → Prop} {w : Watched}

/-- What is known is true, and all calls are to programs of a set, with arguments that are not
negative. -/
structure Obeys (f : Finder) (limits : Limits) (D : List Int) (w : Watched) : Prop where
  library : w.world.1.Sound f limits
  calls {q : Query} : q ∈ w.calls → q.program ∈ D ∧ 0 ≤ q.input

/-- A computation that adds no other calls, and returns what satisfies a condition. -/
def Stays (f : Finder) (limits : Limits) (D : List Int) (x : WatchedM α) (post : α → Prop) :
    Prop :=
  ∀ w, Obeys f limits D w → Obeys f limits D (x.run w).2 ∧ ∀ a, (x.run w).1 = .ok a → post a

lemma Stays.bind {x : WatchedM α} {k : α → WatchedM β} {post' : β → Prop}
    (h : Stays f limits D x post) (hk : ∀ a, post a → Stays f limits D (k a) post') :
    Stays f limits D (x >>= k) post' := by
  intro w hw
  obtain ⟨obeys, returns⟩ := h w hw
  rw [run_bind]
  rcases hx : x.run w with ⟨e | a, w'⟩ <;> rw [hx] at obeys returns
  · exact ⟨obeys, nofun⟩
  · exact hk a (returns a rfl) w' obeys

/-- What a session does without calls, it does knowing its library only. -/
lemma stays_quietly {act : SessionM α} (h : ∀ s : Session, s.world.Sound f limits →
    (act.run s).2.world.Sound f limits ∧ ∀ a, (act.run s).1 = .ok a → post a) :
    Stays f limits D (quietly act) post := by
  intro w hw
  obtain ⟨sound, returns⟩ := h w.session hw.library
  exact ⟨⟨sound, hw.calls⟩, returns⟩

lemma stays_note (e : Event) : Stays f limits D (quietly (Session.note e)) fun _ => True :=
  stays_quietly fun _ hs => ⟨hs.note e, fun _ _ => trivial⟩

lemma stays_load (id : Int) :
    Stays f limits D (quietly (load id)) fun p => Plain.load f id = .ok p := by
  refine stays_quietly fun s hs => ?_
  rw [Session.run_load, hs.find_eq]
  exact ⟨hs.afterLoad id, fun _ hp => hp⟩

lemma stays_programOf (subject : Subject) :
    Stays f limits D (quietly (programOf subject)) fun p => Plain.programOf f subject = .ok p := by
  cases subject with
  | id n => exact stays_load n
  | text t =>
    refine stays_quietly fun s hs => ?_
    unfold programOf Session.parse Plain.programOf
    dsimp only
    rcases Program.parse t "<input>" none with d | p
    · exact ⟨hs, nofun⟩
    · exact ⟨hs.note _, fun _ hp => hp⟩
  | program p => exact stays_quietly fun s hs => ⟨hs, fun _ hp => hp⟩

lemma stays_resolve {search : Resolver → Loader → Resolution} {post : List Int → Prop}
    (kept : ∀ r n, Valid f r → Valid f (search r ⟨f, n⟩).resolver)
    (returns : ∀ r n c, Valid f r → (search r ⟨f, n⟩).answer = .ok c → post c) :
    Stays f limits D (quietly (resolve search)) post := by
  refine stays_quietly fun s hs => ?_
  rw [Session.run_resolve, hs.loader_eq]
  refine ⟨Library.Sound.afterFindings ?_ _, fun c hc => returns _ _ c hs.resolver hc⟩
  exact ⟨hs.limits, hs.store, hs.programs, kept _ _ hs.resolver⟩

/-- What a program calls is in the set. -/
def CallsWithin (D : List Int) (p : Program) : Prop :=
  ∃ ids, p.dependencies = .ok ids ∧ ids ⊆ D

lemma stays_runWith {call : Query → WatchedM Result} {p : Program} (hp : CallsWithin D p)
    (h : ∀ q, q.program ∈ D → Stays f limits D (call q) fun _ => True) (input : Int) :
    Stays f limits D (runWith call p input) fun _ => True := by
  obtain ⟨ids, hd, sub⟩ := hp
  intro w hw
  have alike : Machine.Alike (fun w v => w = v ∧ Obeys f limits D w) (· ∈ ids) (host call)
      (host call) := by
    refine ⟨fun {id n w v} hid hn hw => ?_, fun line iterations hw => ?_⟩
    · obtain ⟨rfl, hw⟩ := hw
      refine ⟨rfl, rfl, ?_⟩
      have listed : Obeys f limits D { w with world := (w.world.1, ⟨id, n⟩ :: w.calls) } := by
        refine ⟨hw.library, fun {q} hq => ?_⟩
        rcases List.mem_cons.1 hq with rfl | hq
        · exact ⟨sub hid, hn⟩
        · exact hw.calls hq
      exact (h ⟨id, n⟩ (sub hid) _ listed).1
    · obtain ⟨rfl, hw⟩ := hw
      exact ⟨rfl, hw.library.note _, hw.calls⟩
  have ran := Machine.run_of_alike w.world.1.limits alike (Program.callsIn_dependencies hd) input
    ⟨rfl, hw⟩
  exact ⟨ran.2.world.2, fun _ _ => trivial⟩

lemma stays_getOrCompute (q : Query) {x : WatchedM Result}
    (h : Stays f limits D x fun _ => True) :
    Stays f limits D (ExceptT.mk (Cached.getOrCompute q x.run)) fun _ => True := by
  intro w hw
  refine ⟨?_, fun _ _ => trivial⟩
  change Obeys f limits D (Cached.getOrCompute q x.run w).2
  unfold Cached.getOrCompute
  rcases w.cache.request 0 q with ⟨r | ticket | ticket | _, c⟩
  · exact ⟨hw.library, hw.calls⟩
  · have after := (h { w with cache := c } ⟨hw.library, hw.calls⟩).1
    exact ⟨after.library, after.calls⟩
  · exact ⟨hw.library, hw.calls⟩
  · exact ⟨hw.library, hw.calls⟩

/-- A set of programs that contains what its programs call. -/
def Closed (f : Finder) (D : List Int) : Prop :=
  ∀ {id ids}, id ∈ D → Links f id ids → ids ⊆ D

lemma stays_callWithin (closed : Closed f D) (depth : ℕ) {q : Query} (hq : q.program ∈ D) :
    Stays f limits D (callWithin depth q) fun _ => True := by
  induction depth generalizing q with
  | zero => exact fun _ hw => ⟨hw, nofun⟩
  | succ depth ih =>
    refine stays_getOrCompute q ((stays_note _).bind fun _ _ => (stays_load _).bind fun p hp => ?_)
    have checked : Stays f limits D (quietly (resolve (·.transitive · q.program)))
        fun c => Settled f q.program c :=
      stays_resolve (fun _ n valid => valid.transitive ⟨f, n⟩ _)
        fun _ _ _ valid h => Resolver.settled_of_transitive valid h
    refine checked.bind fun c settled => ?_
    obtain ⟨ids, links⟩ := settled.links
    obtain ⟨p', hp', hd⟩ := links
    obtain rfl : p = p' := Except.ok.inj (hp.symm.trans (Plain.load_eq_ok.2 hp'))
    exact stays_runWith ⟨ids, hd, closed hq ⟨p, hp', hd⟩⟩ (fun _ hq => ih hq) q.input

/-- **An evaluation calls programs of a closed set only**, if the program that is evaluated does,
and never with a negative argument. -/
theorem stays_evaluate (closed : Closed f D) {subject : Subject} {p : Program}
    (hp : Plain.programOf f subject = .ok p) (within : CallsWithin D p) (input : Int) :
    Stays f limits D (evaluate subject input) fun _ => True := by
  refine (stays_programOf subject).bind fun p' hp' => ?_
  obtain rfl : p = p' := Except.ok.inj (hp.symm.trans hp')
  have checked : Stays f limits D (quietly (preflight p)) fun _ => True :=
    stays_resolve (Session.valid_ofProgram p) fun _ _ _ _ _ => trivial
  have looked : Stays f limits D (quietly library) fun _ => True :=
    stays_quietly fun _ hs => ⟨hs, fun _ _ => trivial⟩
  exact checked.bind fun _ _ => looked.bind fun _ _ =>
    stays_runWith within (fun _ hq => stays_callWithin closed _ hq) input

end Watched

end SeqAsm
