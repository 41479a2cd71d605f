import SeqAsm.Proofs.Dependency.Resolution
import SeqAsm.Proofs.Machine.Hosts
import SeqAsm.Proofs.Program.Calls
import SeqAsm.Proofs.Store
import SeqAsm.Session

/-!
Plain evaluation.

Nothing is kept: a program is read from its text each time it is called, the search for its
dependencies knows nothing beforehand, and every call is a run of its own with a budget of its
own. How deep searches and calls may go is a parameter. As many levels as there are programs are
enough, because a called program does not call its caller.
-/

namespace SeqAsm

open Resolver (Finder Reaches Settled Bounds)

/-! ### The calls of a program -/

/-- The calls of a program are to its dependencies. -/
lemma Program.callsIn_dependencies {p : Program} {ids : List Int} (h : p.dependencies = .ok ids) :
    p.body.CallsIn (· ∈ ids) := by
  rw [Block.callsIn_iff]
  intro i line hi id hc
  exact (mem_dependencies h).2 ⟨_, hi, _, Node.call?_of_callee hc line, rfl⟩

lemma Program.id_of_parse {text file : String} {id : Option Int} {p : Program}
    (h : parse text file id = .ok p) : p.id = id := by
  unfold parse at h
  split at h
  · obtain rfl := Except.ok.inj h
    rfl
  · cases h

/-! ### Evaluation without memory -/

namespace Plain

def find (store : Store) : Finder := fun id =>
  match store.text? id with
  | .error c => .error (.crash c)
  | .ok none => .ok none
  | .ok (some text) =>
    match Program.parse text (programFile id) (some id) with
    | .ok p => .ok (some p)
    | .error d => .error (.diagnostic d)

def load (find : Finder) (id : Int) : Except Failure Program :=
  match find id with
  | .error e => .error e
  | .ok none => .error (.of (.unresolvedDependency id none) [])
  | .ok (some p) => .ok p

def host (answer : Query → Except Failure Result) : Host Unit where
  call id n _ := (answer ⟨id, n⟩, ())
  stalled _ _ _ := ()

def runWith (answer : Query → Except Failure Result) (limits : Limits) (p : Program)
    (input : Int) : Except Failure Result :=
  (Machine.run limits (some (host answer)) p input ()).1

/-- Answers a call by a run in which calls nest less than `depth` deep. -/
def call (find : Finder) (limits : Limits) : (depth : ℕ) → Query → Except Failure Result
  | 0, _ => .error (.crash .searchTooDeep)
  | depth + 1, q => do
    let p ← load find q.program
    runWith (call find limits depth) limits p q.input

def programOf (find : Finder) : Subject → Except Failure Program
  | .id n => load find n
  | .text s =>
    match Program.parse s "<input>" none with
    | .ok p => .ok p
    | .error d => .error (.diagnostic d)
  | .program p => .ok p

def check (find : Finder) (depth : ℕ) (p : Program) : Except Failure Unit :=
  match p.dependencies with
  | .error c => .error (.crash c)
  | .ok called =>
    match p.id with
    | some id => do
      let _ ← (Resolver.transitiveFrom ⟨find, depth⟩ {} id called).answer
    | none => called.forM fun id => do
      let _ ← (Resolver.transitive ⟨find, depth⟩ {} id).answer

/-- The program that a subject denotes, if it and all that it may call are in order. -/
def prepare (store : Store) (depth : ℕ) (subject : Subject) : Except Failure Program := do
  let p ← programOf (find store) subject
  check (find store) depth p
  return p

def evaluate (store : Store) (limits : Limits) (depth : ℕ) (subject : Subject) (input : Int) :
    Except Failure Result := do
  let p ← prepare store depth subject
  runWith (call (find store) limits depth) limits p input

variable {f f' : Finder} {limits : Limits} {id : Int} {p : Program} {q : Query}

lemma text_of_find {store : Store} (h : find store id = .ok (some p)) :
    ∃ text, Program.parse text (programFile id) (some id) = .ok p := by
  unfold find at h
  split at h
  · cases h
  · cases h
  · split at h
    · cases h
      exact ⟨_, ‹_›⟩
    · cases h

lemma find_eq_ok {store : Store} (h : find store id = .ok (some p)) : p.id = some id := by
  obtain ⟨text, read⟩ := text_of_find h
  exact Program.id_of_parse read

lemma load_eq_ok : load f id = .ok p ↔ f id = .ok (some p) := by
  unfold load
  rcases f id with e | _ | p <;> simp

/-- What a subject denotes is found or read, unless it is a program at hand. -/
lemma origin_of_programOf {subject : Subject} (named : ∀ p, subject ≠ .program p)
    (h : programOf f subject = .ok p) : (∃ id, f id = .ok (some p)) ∨
      ∃ text, Program.parse text "<input>" none = .ok p := by
  cases subject with
  | id n => exact .inl ⟨n, load_eq_ok.1 h⟩
  | text t =>
    unfold programOf at h
    dsimp only at h
    split at h
    · obtain rfl := Except.ok.inj h
      exact .inr ⟨t, ‹_›⟩
    · cases h
  | program p => exact absurd rfl (named p)

/-- The programs that can be found are no more than the bound of the store. -/
lemma bounds_find (store : Store) : Bounds (find store) store.bound := by
  refine fun ids nodup h => store.length_le_bound nodup fun id hid => ?_
  obtain ⟨_, p, hp, -⟩ := h id hid
  unfold find at hp
  split at hp
  · cases hp
  · cases hp
  · exact ⟨_, ‹_›⟩

lemma forM_transitive {n : ℕ} (hn : Bounds f n) {r : Resolver} (valid : Resolver.Valid f r)
    (closure ids : List Int) :
    (ids.forM fun id => do
      let _ ← (Resolver.transitive ⟨f, n⟩ {} id).answer : Except Failure Unit) =
      (r.transitiveAll ⟨f, n⟩ closure ids).answer.map fun _ => () := by
  induction ids generalizing r closure with
  | nil => rfl
  | cons id ids ih =>
    have same := Resolver.transitive_answer valid hn hn id
    unfold Resolver.transitiveAll
    dsimp only
    rw [List.forM_eq_forM, List.forM_cons, ← same]
    rcases (r.transitive ⟨f, n⟩ id).answer with e | c
    · rfl
    · exact ih (valid.transitive ⟨f, n⟩ id) _

lemma check_eq {n : ℕ} (hn : Bounds f n) :
    check f n p = (Resolver.ofProgram ⟨f, n⟩ {} p).answer.map fun _ => () := by
  unfold check Resolver.ofProgram
  rcases p.dependencies with c | called
  · rfl
  rcases p.id with _ | id
  · exact forM_transitive hn Resolver.valid_empty called called
  · rfl

lemma alike_host {answer answer' : Query → Except Failure Result} {calls : Int → Prop}
    (h : ∀ id n, calls id → answer ⟨id, n⟩ = answer' ⟨id, n⟩) :
    Machine.Alike (fun _ _ => True) calls (host answer) (host answer') where
  call hid _ _ := ⟨h _ _ hid, trivial⟩
  stalled _ _ _ := trivial

/-- A run depends on the answers to the calls of its program only. -/
lemma runWith_congr {answer answer' : Query → Except Failure Result} {ids : List Int}
    (hd : p.dependencies = .ok ids) (h : ∀ id ∈ ids, ∀ n, answer ⟨id, n⟩ = answer' ⟨id, n⟩)
    (input : Int) : runWith answer limits p input = runWith answer' limits p input :=
  (Machine.run_of_alike limits (alike_host fun id n hid => h id hid n)
    (Program.callsIn_dependencies hd) input trivial).1

/-- **Depth does not show.** A call of a settled program has the same answer at every depth that is
larger than its closure, also when more programs can be found. -/
theorem call_congr (d d' : ℕ) (more : ∀ id p, f id = .ok (some p) → f' id = .ok (some p))
    {c : List Int} (hs : Settled f q.program c) (hd : c.length < d)
    (hd' : c.length < d') : call f limits d q = call f' limits d' q := by
  induction d generalizing d' q c with
  | zero => omega
  | succ d ih =>
    obtain ⟨d', rfl⟩ : ∃ n, d' = n + 1 := ⟨d' - 1, by omega⟩
    obtain ⟨ids, p, hp, hids⟩ := hs.links
    unfold call
    rw [load_eq_ok.2 hp, load_eq_ok.2 (more _ _ hp)]
    refine runWith_congr hids (fun id hid n => ?_) q.input
    have reach : Reaches f q.program id := .single ⟨ids, ⟨p, hp, hids⟩, hid⟩
    obtain ⟨e, he⟩ := hs.of_leads reach.to_reflTransGen
    have := hs.length_lt reach he
    exact ih d' he (by omega) (by omega)

end Plain

end SeqAsm
