import SeqAsm.Cache
import SeqAsm.CallGraph.Crawl
import SeqAsm.Dependency
import SeqAsm.Machine
import SeqAsm.Program.Parser
import SeqAsm.Store

/-!
Sessions. A session has a store of programs, keeps the programs it has read and the dependencies
it has found, and answers calls between programs from its cache, so that a called program is run
at most once for each input. Before a program runs, all programs that it may call are checked:
they exist, and none is called by what it calls.
-/

namespace SeqAsm

structure Library where
  limits : Limits
  store : Store
  /-- The programs read so far. -/
  programs : Std.ExtTreeMap Int Program := ∅
  resolver : Resolver := {}
  /-- The events in reverse order. -/
  log : List Event := []

abbrev Session := Cached Result Library

abbrev SessionM := ExceptT Failure (StateM Session)

/-- A program by its id, as a text, or at hand. -/
inductive Subject where
  | id (n : Int)
  | text (s : String)
  | program (p : Program)

structure Comparison where
  candidateWins : Bool
  installedSteps : Option Nat := none
  candidateSteps : Option Nat := none
  termsMatch : Bool := false
  reason : String

def Comparison.winner (c : Comparison) : String :=
  if c.candidateWins then "candidate" else "installed"

namespace Library

def note (l : Library) (e : Event) : Library := { l with log := e :: l.log }

/-- The program with an id, as the next load will give it. -/
def find (l : Library) (id : Int) : Except Failure (Option Program) :=
  match l.programs[id]? with
  | some p => .ok (some p)
  | none =>
    match l.store.text? id with
    | .error c => .error (.crash c)
    | .ok none => .ok none
    | .ok (some text) =>
      match Program.parse text (programFile id) (some id) with
      | .ok p => .ok (some p)
      | .error d => .error (.diagnostic d)

def afterLoad (l : Library) (id : Int) : Library :=
  if l.programs.contains id then l
  else
    let reading := l.store.load id
    let l := { l with store := reading.store, log := reading.events.reverse ++ l.log }
    match reading.answer with
    | .ok (some text) =>
      match Program.parse text (programFile id) (some id) with
      | .ok p =>
        { l with programs := l.programs.insert id p }.note
          (.parsed (programName id) p.size p.offset)
      | .error _ => l
    | _ => l

def loader (l : Library) : Loader := ⟨l.find, l.programs.size + l.store.bound⟩

def afterFinding (l : Library) : Finding → Library
  | .sought id => l.afterLoad id
  | .known id => l.note (.dependenciesKnown id)
  | .cycle path => l.note (.cycleFound path)
  | .absent id => l.note (.programMissing id)

end Library

namespace Session

def new (store : Store) (limits : Limits) : Session where
  cache := {}
  world :=
    { limits, store
      log := .opened limits.stepBudget limits.loopPolicy
        :: (limits.warnings.map Event.limitWarning).reverse }

def update (f : Library → Library) : SessionM Unit := modify fun s => { s with world := f s.world }

def library : SessionM Library := return (← get).world

def note (e : Event) : SessionM Unit := update (·.note e)

def load? (id : Int) : SessionM (Option Program) := do
  let l ← library
  update (·.afterLoad id)
  match l.find id with
  | .ok p => return p
  | .error e => throw e

def load (id : Int) : SessionM Program := do
  match ← load? id with
  | some p => return p
  | none => throw (.of (.unresolvedDependency id none) [])

def parse (text : String) : SessionM Program := do
  match Program.parse text "<input>" none with
  | .ok p =>
    note (.parsed "<input>" p.size p.offset)
    return p
  | .error d => throw (.diagnostic d)

def programOf : Subject → SessionM Program
  | .id n => load n
  | .text s => parse s
  | .program p => return p

def resolve (search : Resolver → Loader → Resolution) : SessionM (List Int) := do
  let l ← library
  let found := search l.resolver l.loader
  update fun l => found.findings.foldl (·.afterFinding) { l with resolver := found.resolver }
  match found.answer with
  | .ok ids => return ids
  | .error e => throw e

def runWith (call : Query → SessionM Result) (p : Program) (input : Int) : SessionM Result :=
  fun s =>
    let host : Host Session :=
      { call := fun id n s => (call ⟨id, n⟩).run s
        stalled := fun line iterations s =>
          { s with world := s.world.note (.loopStalled line iterations) } }
    let (answer, state) := Machine.run s.world.limits (some host) p input s
    (answer, state.world)

/-- Answers a call from the cache, or else by a run in which calls nest at most `depth` deep. -/
def callWithin : (depth : Nat) → Query → SessionM Result
  | 0, _ => throw (.crash .searchTooDeep)
  | depth + 1, q =>
    Cached.getOrCompute q <| ExceptT.run do
      note (.cacheMissed q)
      let p ← load q.program
      let _ ← resolve (·.transitive · q.program)
      runWith (callWithin depth) p q.input

/-- Runs a program on an input. Called programs do not call themselves, so that calls nest no
deeper than there are programs. -/
def run (p : Program) (input : Int) : SessionM Result := do
  let l ← library
  runWith (callWithin (l.loader.bound + 1)) p input

/-- Checks all programs that a program may call, and gives their ids. -/
def preflight (p : Program) : SessionM (List Int) := resolve (·.ofProgram · p)

def evaluate (subject : Subject) (input : Int) : SessionM Result := do
  let p ← programOf subject
  let _ ← preflight p
  run p input

def runRange (p : Program) (first count : Int) : SessionM (List Result) :=
  (List.range count.toNat).mapM fun (i : Nat) => run p (first + i)

/-- The terms for `count` inputs from `first` on. -/
def evaluateRange (subject : Subject) (first count : Int) : SessionM (List Int) := do
  let p ← programOf subject
  let _ ← preflight p
  return (← runRange p first count).map (·.value)

def runTerms (p : Program) (count : Int) : SessionM (List Result) := do
  let _ ← preflight p
  runRange p p.offset count

def totalSteps (results : List Result) : Nat := (results.map (·.steps)).foldr (· + ·) 0

def stepCost (subject : Subject) (count : Int) : SessionM Nat := do
  return totalSteps (← runTerms (← programOf subject) count)

/-- Does something that may fail with a diagnostic. A crash goes on. -/
def attempt (act : SessionM α) : SessionM (Except Diagnostic α) := fun s =>
  match act.run s with
  | (.ok a, s) => (.ok (.ok a), s)
  | (.error (.diagnostic d), s) => (.ok (.error d), s)
  | (.error e, s) => (.error e, s)

/-- Compares two programs by the steps that their first `count` terms take. The candidate wins
when it takes fewer; a candidate that fails loses to any program, and an installed program that
fails loses to one that does not. -/
def compare (installed candidate : Subject) (count : Int) : SessionM Comparison := do
  let installed ← programOf installed
  let candidate ← programOf candidate
  match ← attempt (runTerms candidate count) with
  | .error d =>
    note (.candidateRejected d.summary)
    return { candidateWins := false, reason := "candidate failed: " ++ d.summary }
  | .ok new =>
    let newSteps := totalSteps new
    match ← attempt (runTerms installed count) with
    | .error d =>
      note (.installedFailed d.summary)
      return { candidateWins := true, candidateSteps := some newSteps,
               reason := "installed failed: " ++ d.summary }
    | .ok old =>
      let oldSteps := totalSteps old
      let result : Comparison :=
        { candidateWins := newSteps < oldSteps
          installedSteps := some oldSteps
          candidateSteps := some newSteps
          termsMatch := old.map (·.value) = new.map (·.value)
          reason :=
            if newSteps < oldSteps then "candidate is faster"
            else if newSteps = oldSteps then "tie"
            else "installed is faster" }
      note (.compared oldSteps newSteps result.winner)
      return result

def directDependencies (subject : Subject) : SessionM (List Int) := do
  match (← programOf subject).dependencies with
  | .ok ids => return ids
  | .error c => throw (.crash c)

def transitiveDependencies : Subject → SessionM (List Int)
  | .id n => resolve (·.transitive · n)
  | subject => do preflight (← programOf subject)

def callGraph (ids : List Int) : SessionM CallGraph := do
  let l ← library
  let found := CallGraph.crawl l.loader ids
  update fun l => found.findings.foldl (·.afterFinding) l
  match found.answer with
  | .ok g => return g
  | .error e => throw e

end Session

end SeqAsm
