import SeqAsm.Proofs.Dependency.Exact
import SeqAsm.Proofs.Machine.Trail
import SeqAsm.Proofs.Program.Lines
import SeqAsm.Proofs.Session.Preflight

/-!
Where evaluations fail.

A traced session keeps a trail of the nodes that are being executed, through all runs that an
evaluation leads to, whether they are asked for by a call or by the evaluation itself. Nothing else
changes. An evaluation that fails as a run does has passed the check before, so its failure has
arisen in a node: no text is at fault, and neither is the call graph. It points at the node with
which the trail begins.
-/

namespace SeqAsm

open Resolver (Finder Links Settled Valid Bounds)

variable {f : Finder} {limits : Limits} {known : Program → Prop} {e : Failure}

/-! ### Failures that are not those of runs -/

lemma Cause.isEvaluation_of_isParsing {c : Cause} (h : c.isParsing = true) :
    c.isEvaluation = false := by
  cases c with
  | parsing | unknownMnemonic | operandCount | malformedOperand | unbalancedLoop => rfl
  | _ => cases h

/-- Looking for programs fails in other ways than runs. -/
def Plain.Unlike (f : Finder) : Prop := ∀ id e, f id = .error e → ¬ e.IsEvaluation

lemma Program.not_isEvaluation_of_parse {text file : String} {id : Option Int} {d : Diagnostic}
    (h : parse text file id = .error d) : ¬ (Failure.diagnostic d).IsEvaluation :=
  fun evaluation => Bool.false_ne_true <|
    (Cause.isEvaluation_of_isParsing (isParsing_of_parse h)).symm.trans evaluation

namespace Plain

lemma unlike_find (store : Store) : Unlike (find store) := by
  intro id e h
  unfold find at h
  split at h
  · obtain rfl := Except.error.inj h
    exact fun h => h
  · cases h
  · split at h
    · cases h
    · obtain rfl := Except.error.inj h
      exact Program.not_isEvaluation_of_parse ‹_›

lemma Unlike.load (unlike : Unlike f) {id : Int} (h : load f id = .error e) :
    ¬ e.IsEvaluation := by
  unfold Plain.load at h
  rcases hf : f id with e' | _ | p <;> rw [hf] at h
  · obtain rfl := Except.error.inj h
    exact unlike id _ hf
  · obtain rfl := Except.error.inj h
    exact Bool.false_ne_true
  · cases h

lemma Unlike.programOf (unlike : Unlike f) {subject : Subject}
    (h : programOf f subject = .error e) : ¬ e.IsEvaluation := by
  cases subject with
  | id n => exact unlike.load h
  | text t =>
    unfold Plain.programOf at h
    dsimp only at h
    split at h
    · cases h
    · obtain rfl := Except.error.inj h
      exact Program.not_isEvaluation_of_parse ‹_›
  | program p => cases h

def Lined (f : Finder) : Prop := ∀ id p, f id = .ok (some p) → p.Lined

lemma lined_find (store : Store) : Lined (find store) := by
  intro id p h
  obtain ⟨text, read⟩ := text_of_find h
  exact Program.lined_of_parse read

lemma lined_of_programOf {subject : Subject} (named : ∀ p, subject ≠ .program p) (lined : Lined f)
    {p : Program} (hp : programOf f subject = .ok p) : p.Lined := by
  obtain ⟨id, found⟩ | ⟨text, read⟩ := origin_of_programOf named hp
  · exact lined id p found
  · exact Program.lined_of_parse read

end Plain

namespace Resolver

variable {r : Resolver} {id : Int} {n : ℕ}

lemma not_isEvaluation_of_calleesOf (unlike : Plain.Unlike f) {referrer : Option Int}
    (h : calleesOf f id referrer = .error e) : ¬ e.IsEvaluation := by
  unfold calleesOf at h
  rcases hf : f id with e' | _ | p <;> rw [hf] at h
  · obtain rfl := Except.error.inj h
    exact unlike id _ hf
  · obtain rfl := Except.error.inj h
    exact Bool.false_ne_true
  · dsimp only at h
    rcases hd : p.dependencies with c | ids <;> rw [hd] at h
    · obtain rfl := Except.error.inj h
      exact fun h => h
    · cases h

lemma Fault.not_isEvaluation (unlike : Plain.Unlike f) (h : Fault f id e) : ¬ e.IsEvaluation := by
  cases h with
  | cycle => exact Bool.false_ne_true
  | absent => exact Bool.false_ne_true
  | unreadable _ he => exact unlike _ _ he
  | illFormed => exact fun h => h

lemma not_isEvaluation_of_transitive (unlike : Plain.Unlike f) (valid : Valid f r)
    (bounds : Bounds f n) (h : (r.transitive ⟨f, n⟩ id).answer = .error e) : ¬ e.IsEvaluation :=
  (fault_of_transitive valid (bounds.covers [id]) h).not_isEvaluation unlike

lemma not_isEvaluation_of_transitiveAll (unlike : Plain.Unlike f) (valid : Valid f r)
    (bounds : Bounds f n) {closure ids : List Int}
    (h : (r.transitiveAll ⟨f, n⟩ closure ids).answer = .error e) : ¬ e.IsEvaluation := by
  induction ids generalizing r closure with
  | nil => cases h
  | cons id ids ih =>
    unfold Resolver.transitiveAll at h
    dsimp only at h
    rcases ha : (r.transitive ⟨f, n⟩ id).answer with e' | c <;> rw [ha] at h
    · obtain rfl := Except.error.inj h
      exact not_isEvaluation_of_transitive unlike valid bounds ha
    · exact ih (valid.transitive ⟨f, n⟩ id) h

lemma not_isEvaluation_of_ofProgram (unlike : Plain.Unlike f) (valid : Valid f r)
    (bounds : Bounds f n) {p : Program} (h : (r.ofProgram ⟨f, n⟩ p).answer = .error e) :
    ¬ e.IsEvaluation := by
  rcases hp : p.id with _ | root
  · unfold Resolver.ofProgram at h
    rw [hp] at h
    rcases hd : p.dependencies with c | called <;> rw [hd] at h
    · obtain rfl := Except.error.inj h
      exact fun h => h
    · exact not_isEvaluation_of_transitiveAll unlike valid bounds h
  · rw [ofProgram_answer hp] at h
    rcases hd : p.dependencies with c | called <;> rw [hd] at h
    · obtain rfl := Except.error.inj h
      exact fun h => h
    · rcases reason_of_searchFrom root (bounds.covers called) valid h with
        ⟨_, _, _, _, _, rfl⟩ | ⟨_, _, _, lacking⟩
      · exact Bool.false_ne_true
      · exact not_isEvaluation_of_calleesOf unlike lacking

end Resolver

lemma Session.programOf_eq {s : Session} (hs : s.world.Sound f limits) (subject : Subject) :
    ((programOf subject).run s).1 = Plain.programOf f subject := by
  cases subject with
  | id n =>
    unfold programOf
    rw [run_load, hs.find_eq]
    rfl
  | text t =>
    unfold programOf Session.parse Plain.programOf
    dsimp only
    rcases Program.parse t "<input>" none with d | p
    · rfl
    · rfl
  | program p => rfl

/-! ### The traced session -/

abbrev TracedM := ExceptT Failure (StateM (Session × List Frame))

namespace Traced

open Session (programOf preflight library load resolve)

/-- Does something in which no program runs. -/
def quietly {α : Type} (act : SessionM α) : TracedM α := fun w =>
  let (out, s) := act.run w.1
  (out, (s, w.2))

def host (call : Query → TracedM Result) : Host (Session × List Frame) where
  call id n w := (call ⟨id, n⟩).run w
  stalled line iterations w :=
    ({ w.1 with world := w.1.world.note (.loopStalled line iterations) }, w.2)

def runWith (call : Query → TracedM Result) (p : Program) (input : Int) : TracedM Result := fun w =>
  let (answer, state) := Machine.trace w.1.world.limits (some (host call)) p input w
  (answer, state.world)

/-- A cache beside all else, the trail included. -/
def pack (w : Session × List Frame) : Cached Result (Library × List Frame) :=
  ⟨w.1.cache, w.1.world, w.2⟩

def unpack (c : Cached Result (Library × List Frame)) : Session × List Frame :=
  (⟨c.cache, c.world.1⟩, c.world.2)

def getOrCompute (q : Query) (compute : TracedM Result) : TracedM Result := fun w =>
  let packed : StateM (Cached Result (Library × List Frame)) (Except Failure Result) := fun c =>
    let (out, w) := compute.run (unpack c)
    (out, pack w)
  let (out, c) := Cached.getOrCompute q packed (pack w)
  (out, unpack c)

def callWithin : (depth : ℕ) → Query → TracedM Result
  | 0, _ => throw (.crash .searchTooDeep)
  | depth + 1, q => getOrCompute q do
      quietly (Session.note (.cacheMissed q))
      let p ← quietly (load q.program)
      let _ ← quietly (resolve (·.transitive · q.program))
      runWith (callWithin depth) p q.input

def evaluate (subject : Subject) (input : Int) : TracedM Result := do
  let p ← quietly (programOf subject)
  let _ ← quietly (preflight p)
  let l ← quietly library
  runWith (callWithin (l.loader.bound + 1)) p input

variable {α β : Type} {post : α → Prop} {D : List Int} {p : Program}

/-! ### Tracing changes nothing, and failures point where the trail begins -/

/-- How a traced computation that began with a trail ends beside the computation itself. A result
leaves the trail as it was, and a failure of a run points at the node with which it begins. -/
structure Ends (f : Finder) (limits : Limits) (known : Program → Prop) (l : List Frame)
    (post : α → Prop) (u : Except Failure α × Session × List Frame)
    (v : Except Failure α × Session) : Prop where
  same : u.1 = v.1
  session : u.2.1 = v.2
  sound : v.2.world.Sound f limits
  returned {a : α} : v.1 = .ok a → u.2.2 = l ∧ post a
  failed {e : Failure} : v.1 = .error e → e.Blames known u.2.2

/-- A traced computation does what another one does. -/
def Follows (f : Finder) (limits : Limits) (known : Program → Prop) (x : TracedM α)
    (y : SessionM α) (post : α → Prop) : Prop :=
  ∀ s l, s.world.Sound f limits → Ends f limits known l post (x.run (s, l)) (y.run s)

lemma Follows.bind {x : TracedM α} {y : SessionM α} {g : α → TracedM β} {k : α → SessionM β}
    {post' : β → Prop} (h : Follows f limits known x y post)
    (hk : ∀ a, post a → Follows f limits known (g a) (k a) post') :
    Follows f limits known (x >>= g) (y >>= k) post' := by
  intro s l hs
  have first := h s l hs
  rw [run_bind, run_bind]
  rcases hx : x.run (s, l) with ⟨e | a, s', l'⟩ <;> rcases hy : y.run s with ⟨e' | b, t⟩ <;>
    rw [hx, hy] at first
  · obtain rfl : e = e' := Except.error.inj first.same
    refine ⟨rfl, first.session, first.sound, nofun, fun he => ?_⟩
    obtain rfl := Except.error.inj he
    exact first.failed rfl
  · exact nomatch first.same
  · exact nomatch first.same
  · obtain rfl : a = b := Except.ok.inj first.same
    obtain rfl : s' = t := first.session
    obtain ⟨rfl, ha⟩ := first.returned rfl
    exact hk a ha s' _ first.sound

/-- What runs no program leaves the trail alone, and fails in other ways than runs. -/
lemma follows_quietly {act : SessionM α}
    (stays : Watched.Stays f limits D (Watched.quietly act) post)
    (unlike : ∀ s : Session, s.world.Sound f limits → ∀ e, (act.run s).1 = .error e →
      ¬ e.IsEvaluation) : Follows f limits known (quietly act) act post := by
  intro s l hs
  obtain ⟨obeys, returns⟩ := stays (Watched.new s) ⟨hs, nofun⟩
  exact ⟨rfl, rfl, obeys.library, fun ha => ⟨rfl, returns _ ha⟩,
    fun he => Failure.blames_of_not_isEvaluation (unlike s hs _ he)⟩

lemma follows_note (e : Event) :
    Follows f limits known (quietly (Session.note e)) (Session.note e) fun _ => True :=
  follows_quietly (D := []) (Watched.stays_note e) fun _ _ _ he => nomatch he

lemma follows_load (unlike : Plain.Unlike f) (id : Int) :
    Follows f limits known (quietly (load id)) (load id) fun p => Plain.load f id = .ok p := by
  refine follows_quietly (D := []) (Watched.stays_load id) fun s hs e he => ?_
  rw [Session.run_load, hs.find_eq] at he
  exact unlike.load he

lemma follows_programOf (unlike : Plain.Unlike f) (subject : Subject) :
    Follows f limits known (quietly (programOf subject)) (programOf subject)
      fun p => Plain.programOf f subject = .ok p :=
  follows_quietly (D := []) (Watched.stays_programOf subject) fun _ hs _ he =>
    unlike.programOf ((Session.programOf_eq hs subject).symm.trans he)

lemma follows_resolve {search : Resolver → Loader → Resolution} {post : List Int → Prop}
    (kept : ∀ r n, Valid f r → Valid f (search r ⟨f, n⟩).resolver)
    (returns : ∀ r n c, Valid f r → (search r ⟨f, n⟩).answer = .ok c → post c)
    (unlike : ∀ r n e, Valid f r → Bounds f n → (search r ⟨f, n⟩).answer = .error e →
      ¬ e.IsEvaluation) :
    Follows f limits known (quietly (resolve search)) (resolve search) post := by
  refine follows_quietly (D := []) (Watched.stays_resolve kept returns) fun s hs e he => ?_
  rw [Session.run_resolve, hs.loader_eq] at he
  exact unlike _ _ e hs.resolver (hs.bounds.mono (Nat.le_add_left _ _)) he

lemma follows_getOrCompute (q : Query) {x : TracedM Result} {y : SessionM Result}
    (h : Follows f limits known x y fun _ => True) :
    Follows f limits known (getOrCompute q x) (ExceptT.mk (Cached.getOrCompute q y.run))
      fun _ => True := by
  intro s l hs
  change Ends f limits known l _ (getOrCompute q x (s, l)) (Cached.getOrCompute q y.run s)
  unfold getOrCompute Cached.getOrCompute
  dsimp only [pack]
  rcases s.cache.request 0 q with ⟨r | ticket | ticket | _, c⟩
  · exact ⟨rfl, rfl, hs, fun _ => ⟨rfl, trivial⟩, nofun⟩
  · have inner := h { s with cache := c } l hs
    refine ⟨inner.same, ?_, inner.sound, fun ha => inner.returned ha, fun he => inner.failed he⟩
    exact congrArg₂ (fun out (s : Session) => { s with cache := s.cache.finish q out })
      inner.same inner.session
  · refine ⟨rfl, rfl, hs, nofun, fun he => ?_⟩
    obtain rfl := Except.error.inj he
    exact nofun
  · refine ⟨rfl, rfl, hs, nofun, fun he => ?_⟩
    obtain rfl := Except.error.inj he
    exact nofun

/-- The program that is evaluated and those that may be called. -/
def InReach (f : Finder) (D : List Int) (root p : Program) : Prop :=
  p = root ∨ ∃ id ∈ D, f id = .ok (some p)

/-- One session, in which what is known is true. -/
def Same (f : Finder) (limits : Limits) (s t : Session) : Prop :=
  s = t ∧ t.world.Sound f limits

/-- A host that keeps a trail answers as one that keeps none. -/
lemma agree_host {call : Query → TracedM Result} {call' : Query → SessionM Result}
    {calls : Int → Prop} (h : ∀ q, calls q.program →
      Follows f limits known (call q) (call' q) fun _ => True) (program : Option Int)
    (l : List Frame) : Machine.Agree ⟨limits, program, some (host call)⟩
      (Machine.On (Same f limits) l) (Machine.Arising known (Same f limits) program l) calls
      (host call) (Session.host call') := by
  constructor
  case call =>
    rintro id n ⟨s, l⟩ _ hid - ⟨⟨rfl, hs⟩, rfl⟩
    exact (h ⟨id, n⟩ hid s l hs).same
  case answered =>
    rintro id n ⟨s, l⟩ _ r hid - ⟨⟨rfl, hs⟩, rfl⟩ hr
    have ends := h ⟨id, n⟩ hid s l hs
    exact ⟨⟨ends.session, ends.sound⟩, (ends.returned (ends.same ▸ hr)).1⟩
  case failed =>
    rintro id n ⟨s, l⟩ _ e hid - ⟨⟨rfl, hs⟩, rfl⟩ he
    have ends := h ⟨id, n⟩ hid s l hs
    exact ⟨⟨ends.session, ends.sound⟩, (ends.failed (ends.same ▸ he)).arises⟩
  case stalled =>
    rintro ⟨s, l⟩ _ line iterations ⟨⟨rfl, hs⟩, rfl⟩
    exact ⟨⟨rfl, hs.note _⟩, rfl⟩
  case raised =>
    rintro e ⟨s, l⟩ _ raised ⟨same, rfl⟩
    exact ⟨same, raised.arises⟩

lemma follows_runWith (hc : 0 < limits.capacity) {call : Query → TracedM Result}
    {call' : Query → SessionM Result} (hp : known p) (lined : p.Lined)
    (within : Watched.CallsWithin D p)
    (h : ∀ q, q.program ∈ D → Follows f limits known (call q) (call' q) fun _ => True)
    (input : Int) : Follows f limits known (runWith call p input) (Session.runWith call' p input)
      fun _ => True := by
  obtain ⟨ids, hd, sub⟩ := within
  intro s l hs
  obtain rfl := hs.limits
  have agree (l : List Frame) : Machine.Agree ⟨s.world.limits, p.id, some (host call)⟩ _ _ (· ∈ ids)
      (host call) (Session.host call') := agree_host (fun q hq => h q (sub hq)) p.id l
  obtain ⟨same, ⟨session, sound⟩, returned, failed⟩ := Machine.trace_spec agree hc hp lined
    (Program.callsIn_dependencies hd) input (⟨rfl, hs⟩ : Same f s.world.limits s s) l
  exact ⟨same, session, sound, fun ha => ⟨returned _ (same.trans ha), trivial⟩,
    fun he => failed _ (same.trans he)⟩

section

variable (unlike : Plain.Unlike f) (lined : Plain.Lined f) (hc : 0 < limits.capacity)
  (closed : Watched.Closed f D)

include unlike lined hc closed

lemma follows_callWithin (hk : ∀ id ∈ D, ∀ p, f id = .ok (some p) → known p) (depth : ℕ)
    {q : Query} (hq : q.program ∈ D) : Follows f limits known (callWithin depth q)
      (Session.callWithin depth q) fun _ => True := by
  induction depth generalizing q with
  | zero =>
    refine fun s l hs => ⟨rfl, rfl, hs, nofun, fun he => ?_⟩
    obtain rfl := Except.error.inj he
    trivial
  | succ depth ih =>
    refine follows_getOrCompute q ((follows_note _).bind fun _ _ =>
      (follows_load unlike q.program).bind fun p hp => ?_)
    have found := Plain.load_eq_ok.1 hp
    have checked : Follows f limits known (quietly (resolve (·.transitive · q.program)))
        (resolve (·.transitive · q.program)) fun c => Settled f q.program c :=
      follows_resolve (fun _ n valid => valid.transitive ⟨f, n⟩ _)
        (fun _ _ _ valid h => Resolver.settled_of_transitive valid h)
        fun _ _ _ valid bounds h => Resolver.not_isEvaluation_of_transitive unlike valid bounds h
    refine checked.bind fun c settled => ?_
    obtain ⟨ids, p', hp', hd⟩ := settled.links
    obtain rfl : p = p' := Option.some.inj (Except.ok.inj (found.symm.trans hp'))
    exact follows_runWith hc (hk _ hq p found) (lined _ p found)
      ⟨ids, hd, closed hq ⟨p, found, hd⟩⟩ (fun _ hq => ih hq) q.input

/-- **Tracing changes nothing.** A traced evaluation of a program whose calls stay in a closed set
gives what the evaluation gives and leaves the same session; if it fails as a run does, its failure
points at the node with which the trail begins. -/
theorem follows_evaluate {subject : Subject} {root : Program}
    (hp : Plain.programOf f subject = .ok root) (hr : root.Lined)
    (within : Watched.CallsWithin D root) (input : Int) :
    Follows f limits (InReach f D root) (evaluate subject input) (Session.evaluate subject input)
      fun _ => True := by
  refine (follows_programOf unlike subject).bind fun p hp' => ?_
  obtain rfl : root = p := Except.ok.inj (hp.symm.trans hp')
  have checked : Follows f limits (InReach f D root) (quietly (preflight root)) (preflight root)
      fun _ => True :=
    follows_resolve (Session.valid_ofProgram root) (fun _ _ _ _ _ => trivial)
      fun _ _ _ valid bounds h => Resolver.not_isEvaluation_of_ofProgram unlike valid bounds h
  have looked : Follows f limits (InReach f D root) (quietly library) library fun _ => True :=
    follows_quietly (D := []) (Watched.stays_quietly fun _ hs => ⟨hs, fun _ _ => trivial⟩)
      fun _ _ _ he => nomatch he
  exact checked.bind fun _ _ => looked.bind fun _ _ => follows_runWith hc (.inl rfl) hr within
    (fun _ hq => follows_callWithin unlike lined hc closed (fun id hid _ hp => .inr ⟨id, hid, hp⟩)
      _ hq) input

end

end Traced

/-! ### Where an evaluation fails -/

/-- The id that a subject goes by. -/
def Subject.id? : Subject → Option Int
  | .id n => some n
  | .text _ => none
  | .program p => p.id

lemma Plain.id_of_programOf {store : Store} {subject : Subject} {p : Program}
    (h : programOf (find store) subject = .ok p) : p.id = subject.id? := by
  cases subject with
  | id n => exact find_eq_ok (load_eq_ok.1 h)
  | text t =>
    unfold programOf at h
    dsimp only at h
    split at h
    · obtain rfl := Except.ok.inj h
      exact Program.id_of_parse ‹_›
    · cases h
  | program q =>
    obtain rfl := Except.ok.inj h
    rfl

namespace Session

/-- An evaluation that fails as a run does has passed the check. -/
lemma passed_of_isEvaluation (unlike : Plain.Unlike f) {s : Session} (hs : s.world.Sound f limits)
    {subject : Subject} {input : Int} (he : ((evaluate subject input).run s).1 = .error e)
    (evaluation : e.IsEvaluation) :
    ∃ D, ((programOf subject >>= preflight).run s).1 = .ok D := by
  have denoted := programOf_eq hs subject
  have quiet : Traced.Follows f limits (fun _ => True) _ (programOf subject) _ :=
    Traced.follows_programOf unlike subject
  have sound := (quiet s [] hs).sound
  unfold evaluate at he
  rw [run_bind] at he ⊢
  rcases hr : (programOf subject).run s with ⟨e' | p, s'⟩ <;> rw [hr] at he denoted sound
  · obtain rfl := Except.error.inj he
    exact absurd evaluation (unlike.programOf denoted.symm)
  · dsimp only at he sound ⊢
    rw [run_bind] at he
    rcases hq : (preflight p).run s' with ⟨e' | D, s''⟩ <;> rw [hq] at he
    · obtain rfl := Except.error.inj he
      have answer := congrArg Prod.fst hq
      rw [preflight, run_resolve, sound.loader_eq] at answer
      exact absurd evaluation (Resolver.not_isEvaluation_of_ofProgram unlike sound.resolver
        (sound.bounds.mono (Nat.le_add_left _ _)) answer)
    · exact ⟨D, rfl⟩

/-- **An error of a run points at the instruction that caused it.** If the evaluation of a stored
program or of a text fails as a run does, its diagnostic has the file, the line and the text of a
node, and the id of the program of that node, if it has one. The program is the one that is
evaluated or one that the check before the run has named, and the node is the innermost one that
was being executed: it is the first on the trail that the evaluation leaves when it is traced,
which changes neither what it gives nor the session it leaves. -/
theorem evaluate_points_at_node {store : Store} {s : Session} (h : Reachable store limits s)
    (registers : 1 ≤ limits.capacity) {subject : Subject} (named : ∀ p, subject ≠ .program p)
    {input : Int} {d : Diagnostic}
    (failed : ((evaluate subject input).run s).1 = .error (.diagnostic d))
    (evaluation : d.cause.isEvaluation = true) :
    ∃ root D f outer,
      ((programOf subject).run s).1 = .ok root ∧ root.id = subject.id? ∧
      ((programOf subject >>= preflight).run s).1 = .ok D ∧
      (Traced.evaluate subject input).run (s, []) =
        (.error (.diagnostic d), ((evaluate subject input).run s).2, f :: outer) ∧
      (f.program = root ∨
        ∃ id ∈ D, ((load id).run s).1 = .ok f.program ∧ f.program.id = some id) ∧
      f.node ∈ f.program.nodes ∧ d.PointsAt f := by
  have unlike := Plain.unlike_find s.world.store
  have lined := Plain.lined_find s.world.store
  have sound : s.world.Sound (Plain.find s.world.store) limits := h.sound.world
  obtain ⟨D, checked⟩ := passed_of_isEvaluation unlike sound failed evaluation
  obtain ⟨root, hp, hD⟩ := passed_of_preflight h.sound named checked
  obtain ⟨closed, within⟩ := closed_of_check hD
  have ends := Traced.follows_evaluate unlike lined registers closed hp
    (Plain.lined_of_programOf named lined hp) within input s [] sound
  obtain ⟨f, outer, trail, reach, hn, points⟩ := ends.failed failed evaluation
  refine ⟨root, D, f, outer, (programOf_eq sound subject).trans hp,
    Plain.id_of_programOf hp, checked, ?_, ?_, hn, points⟩
  · exact Prod.ext (ends.same.trans failed) (Prod.ext ends.session trail)
  · refine reach.imp_right fun ⟨id, hid, found⟩ => ⟨id, hid, ?_, Plain.find_eq_ok found⟩
    rw [(gives_load id s h.sound).1]
    exact Plain.load_eq_ok.2 found

/-- A session with a program that divides by zero in a loop, and one that calls it in a loop. -/
def loops : Session :=
  Session.new (((Store.memory ∅).add 1 "lpb $0\n  div $0,$1\nlpe").add 2
    "lpb $0\n  sub $0,1\n  seq $0,1\nlpe") {}

def loopsError : Diagnostic where
  cause := .divisionByZero "Division by zero"
  span := { file := "A000001.asm", line := 2 }
  sourceLine := "div $0,$1"
  details := [("program_id", .int 1)]

/-- The division is at fault, and neither the loops nor the call around it. -/
theorem evaluate_points_at_node_loops :
    let plain := (evaluate (.id 2) 3).run loops
    let traced := (Traced.evaluate (.id 2) 3).run (loops, [])
    plain.1 = .error (.diagnostic loopsError) ∧ loopsError.cause.isEvaluation = true ∧
      traced.2.2.map (fun f => (f.program.id, f.node.line)) =
        [(some 1, 2), (some 1, 1), (some 2, 3), (some 2, 1)] ∧
      ∃ f outer, traced = (.error (.diagnostic loopsError), plain.2, f :: outer) ∧
        f.node ∈ f.program.nodes ∧ loopsError.PointsAt f := by
  have named : ∀ p, Subject.id 2 ≠ .program p := fun _ h => nomatch h
  have failed : ((evaluate (.id 2) 3).run loops).1 = .error (.diagnostic loopsError) := by cbv
  refine ⟨failed, rfl, by cbv, ?_⟩
  obtain ⟨_, _, f, outer, -, -, -, trail, -, hn, points⟩ :=
    evaluate_points_at_node .new (by decide) named failed rfl
  exact ⟨f, outer, trail, hn, points⟩

end Session

end SeqAsm
