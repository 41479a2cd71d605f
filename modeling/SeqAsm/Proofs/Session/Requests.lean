import SeqAsm.Proofs.Session.Calls

/-!
Requests to a session.

A session stays sound whatever is asked of it, also when a request fails, and when programs with
new ids come into the store.
-/

namespace SeqAsm.Session

open Resolver (Finder Bounds)

variable {f : Finder} {limits : Limits} {busy : QueryMap Pending} {p : Program} {α β : Type}

/-! ### What is asked of a session -/

inductive Request where
  | evaluate (subject : Subject) (input : Int)
  | evaluateRange (subject : Subject) (first count : Int)
  | stepCost (subject : Subject) (count : Int)
  | compare (installed candidate : Subject) (count : Int)
  | load (id : Int)
  | preflight (subject : Subject)
  | directDependencies (subject : Subject)
  | transitiveDependencies (subject : Subject)
  | callGraph (ids : List Int)

def Request.perform (s : Session) : Request → Session
  | evaluate subject input => ((Session.evaluate subject input).run s).2
  | evaluateRange subject first count => ((Session.evaluateRange subject first count).run s).2
  | stepCost subject count => ((Session.stepCost subject count).run s).2
  | compare installed candidate count => ((Session.compare installed candidate count).run s).2
  | load id => ((Session.load id).run s).2
  | preflight subject => ((programOf subject >>= Session.preflight).run s).2
  | directDependencies subject => ((Session.directDependencies subject).run s).2
  | transitiveDependencies subject => ((Session.transitiveDependencies subject).run s).2
  | callGraph ids => ((Session.callGraph ids).run s).2

/-- The sessions that requests and new programs lead to. -/
inductive Reachable (store : Store) (limits : Limits) : Session → Prop
  | new : Reachable store limits (Session.new store limits)
  | request {s : Session} (r : Request) : Reachable store limits s →
      Reachable store limits (r.perform s)
  | add {s : Session} {programs : Std.ExtTreeMap Int String Ord.compare} {id : Int}
      (text : String) : Reachable store limits s →
      s.world.store = .memory programs → programs[id]? = none →
      Reachable store limits { s with world := { s.world with store := s.world.store.add id text } }

/-! ### Requests keep a session sound -/

lemma keeps_pure (a : α) : Keeps f limits busy (pure a : SessionM α) fun _ => True :=
  fun _ h => ⟨h, fun _ _ => trivial⟩

lemma Gives.safe {m : SessionM α} {out : Except Failure α} (h : Gives f limits busy m out) :
    Keeps f limits busy m fun _ => True :=
  h.keeps.mono fun _ _ => trivial

lemma gives_mapM {F : α → SessionM β} {g : α → Except Failure β} {l : List α}
    (h : ∀ a ∈ l, Gives f limits busy (F a) (g a)) :
    Gives f limits busy (l.mapM F) (l.mapM g) := by
  induction l with
  | nil =>
    rw [List.mapM_nil, List.mapM_nil]
    exact gives_pure []
  | cons a l ih =>
    rw [List.mapM_cons, List.mapM_cons]
    refine (h a List.mem_cons_self).bind fun b _ => ?_
    refine (ih fun v hv => h v (List.mem_cons_of_mem _ hv)).bind fun bs _ => ?_
    exact gives_pure (b :: bs)

/-- The results of plain runs on `count` inputs from `first` on. -/
def plainRange (f : Finder) (limits : Limits) (depth : ℕ) (p : Program) (first count : Int) :
    Except Failure (List Result) :=
  (List.range count.toNat).mapM fun (i : ℕ) =>
    Plain.runWith (Plain.call f limits depth) limits p (first + i)

lemma gives_runRange {depth : ℕ} (hp : Ready f p) (hd : Bounds f depth) (first count : Int) :
    Gives f limits ∅ (runRange p first count) (plainRange f limits depth p first count) :=
  gives_mapM fun i _ => gives_run hp hd (first + i)

lemma keeps_programOf (subject : Subject) :
    Keeps f limits busy (programOf subject) fun _ => True :=
  (gives_programOf subject).safe

lemma keeps_note (e : Event) : Keeps f limits busy (note e) fun _ => True := (gives_note e).safe

lemma keeps_runRange (hp : Ready f p) (first count : Int) :
    Keeps f limits ∅ (runRange p first count) fun _ => True :=
  fun s hs => (gives_runRange hp hs.world.bounds first count).safe s hs

lemma keeps_runTerms (p : Program) (count : Int) :
    Keeps f limits ∅ (runTerms p count) fun _ => True :=
  (keeps_preflight p).bind fun _ ready => keeps_runRange ready p.offset count

lemma keeps_attempt {m : SessionM α} {post : α → Prop} (h : Keeps f limits busy m post) :
    Keeps f limits busy (attempt m) fun _ => True := by
  intro s hs
  refine ⟨?_, fun _ _ => trivial⟩
  have sound := (h s hs).1
  change Sound f limits busy (attempt m s).2
  unfold attempt
  rcases hm : m.run s with ⟨e | a, s'⟩ <;> rw [hm] at sound
  · rcases e with d | c
    · exact sound
    · exact sound
  · exact sound

lemma keeps_compare (installed candidate : Subject) (count : Int) :
    Keeps f limits ∅ (compare installed candidate count) fun _ => True := by
  refine (keeps_programOf installed).bind fun old _ => (keeps_programOf candidate).bind
    fun new _ => (keeps_attempt (keeps_runTerms new count)).bind fun outcome _ => ?_
  rcases outcome with d | newResults
  · exact (keeps_note _).bind fun _ _ => keeps_pure _
  refine (keeps_attempt (keeps_runTerms old count)).bind fun outcome _ => ?_
  rcases outcome with d | oldResults
  · exact (keeps_note _).bind fun _ _ => keeps_pure _
  · exact (keeps_note _).bind fun _ _ => keeps_pure _

lemma keeps_callGraph (ids : List Int) : Keeps f limits busy (callGraph ids) fun _ => True := by
  intro s hs
  refine ⟨?_, fun _ _ => trivial⟩
  simp only [callGraph, run_bind, run_library, run_update]
  have sound := hs.world.afterFindings (CallGraph.crawl s.world.loader ids).findings
  rcases (CallGraph.crawl s.world.loader ids).answer with e | g
  · exact ⟨sound, hs.entries, hs.pending⟩
  · exact ⟨sound, hs.entries, hs.pending⟩

lemma keeps_transitive (id : Int) :
    Keeps f limits busy (resolve (·.transitive · id)) fun _ => True :=
  keeps_resolve (fun _ n valid => valid.transitive ⟨f, n⟩ id) fun _ _ _ _ _ => trivial

lemma keeps_transitiveDependencies (subject : Subject) :
    Keeps f limits busy (transitiveDependencies subject) fun _ => True := by
  have checked : Keeps f limits busy (programOf subject >>= preflight) fun _ => True :=
    (keeps_programOf subject).bind fun p _ => (keeps_preflight p).mono fun _ _ => trivial
  cases subject with
  | id n => exact keeps_transitive n
  | text t => exact checked
  | program p => exact checked

/-- **A request keeps a session sound**, whether or not it succeeds. -/
theorem Request.sound {s : Session} (hs : Sound f limits ∅ s) (r : Request) :
    Sound f limits ∅ (r.perform s) := by
  have checked (p : Program) : Keeps f limits ∅ (Session.preflight p) fun _ => Ready f p :=
    keeps_preflight p
  have ran (p : Program) (ready : Ready f p) (input : Int) :
      Keeps f limits ∅ (run p input) fun _ => True :=
    fun s hs => (gives_run ready hs.world.bounds input).safe s hs
  cases r with
  | evaluate subject input =>
    exact ((keeps_programOf subject).bind fun p _ => (checked p).bind fun _ ready =>
      ran p ready input) s hs |>.1
  | evaluateRange subject first count =>
    exact ((keeps_programOf subject).bind fun p _ => (checked p).bind fun _ ready =>
      (keeps_runRange ready first count).bind fun _ _ => keeps_pure _) s hs |>.1
  | stepCost subject count =>
    exact ((keeps_programOf subject).bind fun p _ => (keeps_runTerms p count).bind
      fun _ _ => keeps_pure _) s hs |>.1
  | compare installed candidate count => exact (keeps_compare installed candidate count s hs).1
  | load id => exact (gives_load id s hs).2
  | preflight subject =>
    exact ((keeps_programOf subject).bind fun p _ => (checked p).mono fun _ _ => trivial) s hs |>.1
  | directDependencies subject =>
    have kept : Keeps f limits ∅ (Session.directDependencies subject) fun _ => True := by
      refine (keeps_programOf subject).bind fun p _ => ?_
      rcases p.dependencies with c | ids
      · exact (gives_throw _).safe
      · exact keeps_pure ids
    exact (kept s hs).1
  | transitiveDependencies subject => exact (keeps_transitiveDependencies subject s hs).1
  | callGraph ids => exact (keeps_callGraph ids s hs).1

/-! ### Sessions are sound at all times -/

lemma sound_new (store : Store) (limits : Limits) :
    Sound (Plain.find store) limits ∅ (Session.new store limits) where
  world := ⟨rfl, rfl, fun h => by simp [new] at h, Resolver.valid_empty⟩
  entries h := by simp [new] at h
  pending := rfl

lemma Known.mono {f' : Finder} {q : Query} {r : Result} (h : Known f limits q r)
    (more : ∀ id p, f id = .ok (some p) → f' id = .ok (some p)) : Known f' limits q r := by
  obtain ⟨c, hs, hr⟩ := h
  exact ⟨c, hs.mono more, (Plain.call_congr _ _ more hs (by omega) (by omega)).symm.trans hr⟩

lemma Sound.add {s : Session} {programs : Std.ExtTreeMap Int String Ord.compare} {id : Int}
    (hs : Sound f limits busy s) (text : String) (hm : s.world.store = .memory programs)
    (new : programs[id]? = none) : Sound (Plain.find (s.world.store.add id text)) limits busy
      { s with world := { s.world with store := s.world.store.add id text } } := by
  have more (v : Int) (p : Program) (hv : f v = .ok (some p)) :
      Plain.find (s.world.store.add id text) v = .ok (some p) := by
    rw [← hs.world.store, hm] at hv
    rw [hm]
    have other : v ≠ id := by
      rintro rfl
      simp only [Plain.find, Store.text?, new] at hv
      cases hv
    have same : (programs.insert id text)[v]? = programs[v]? := by
      rw [Std.ExtTreeMap.getElem?_insert, if_neg]
      rw [Std.compare_eq_iff_eq]
      exact other.symm
    unfold Plain.find Store.text? at hv ⊢
    dsimp only [Store.add] at hv ⊢
    rw [same]
    exact hv
  have world := hs.world
  refine ⟨⟨world.limits, rfl, fun hp => more _ _ (world.programs hp), ?_, ?_⟩, ?_, hs.pending⟩
  · exact fun h => (world.resolver.settled h).mono more
  · exact world.resolver.closed
  · exact fun h => Known.mono (hs.entries h) more

/-- **Sessions are sound at all times.** -/
theorem Reachable.sound {store : Store} {s : Session} (h : Reachable store limits s) :
    Sound (Plain.find s.world.store) limits ∅ s := by
  induction h with
  | new => exact sound_new store limits
  | request r _ ih =>
    have after := r.sound ih
    rwa [after.world.store]
  | add text _ hm new ih => exact ih.add text hm new

end SeqAsm.Session
