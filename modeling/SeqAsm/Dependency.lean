import Std.Data.ExtTreeMap
import SeqAsm.Loader

/-!
Transitive dependencies. A depth-first search follows the calls of a program in ascending order
of ids. It fails at the first program that cannot be found and at the first call that leads back
to a program on the path. The dependencies of every program that a successful search has
finished are kept for later searches; a failed search leaves nothing behind.
-/

namespace SeqAsm

/-- Programs by id with their transitive dependencies. -/
structure Resolver where
  closures : Std.ExtTreeMap Int (List Int) := ∅

structure Resolution where
  answer : Except Failure (List Int)
  resolver : Resolver
  findings : List Finding

namespace Resolver

/-- Whether a program is known to depend on existing programs only, and on no cycle. -/
def isValidated (r : Resolver) (id : Int) : Bool := r.closures.contains id

structure Search where
  /-- The programs that this search has finished. -/
  finished : Std.ExtTreeMap Int (List Int) := ∅
  /-- The findings in reverse order. -/
  findings : List Finding := []

abbrev SearchM := ExceptT Failure (StateM Search)

def take (f : Finding) : SearchM Unit := modify fun s => { s with findings := f :: s.findings }

def children (loader : Loader) (id : Int) (referrer : Option Int) : SearchM (List Int) := do
  take (.sought id)
  match loader.find id with
  | .error e => throw e
  | .ok none => throw (.of (.unresolvedDependency id referrer) [])
  | .ok (some p) =>
    match p.dependencies with
    | .ok ids => return ids
    | .error c => throw (.crash c)

def closureOf (finished : Std.ExtTreeMap Int (List Int)) (called : List Int) : List Int :=
  called.foldl (fun s id => Ids.union (Ids.insert id s) (finished[id]?.getD [])) []

/-- Searches the programs that the last program of a path calls. The path is given from its last
program to its first. -/
def explore (loader : Loader) (r : Resolver) :
    (fuel : Nat) → (path : List Int) → (called : List Int) → SearchM (List Int)
  | 0, _, _ => throw (.crash .searchTooDeep)
  | fuel + 1, path, called => do
    called.forM fun id => do
      if path.contains id then
        let cycle := id :: ((path.takeWhile (· != id)).reverse ++ [id])
        take (.cycle cycle)
        throw (.of (.cyclicDependency cycle) [])
      if (← get).finished.contains id then return
      match r.closures[id]? with
      | some closure => modify fun s => { s with finished := s.finished.insert id closure }
      | none =>
        let next ← children loader id path.head?
        let closure ← explore loader r fuel (id :: path) next
        modify fun s => { s with finished := s.finished.insert id closure }
    return closureOf (← get).finished called

/-- Runs a search; on success the programs it has finished are kept. -/
def settle (r : Resolver) (search : SearchM (List Int)) : Resolution :=
  match search.run {} with
  | (.ok closure, s) =>
    ⟨.ok closure, ⟨s.finished.foldl (fun m id c => m.insert id c) r.closures⟩, s.findings.reverse⟩
  | (.error e, s) => ⟨.error e, r, s.findings.reverse⟩

def transitive (loader : Loader) (r : Resolver) (id : Int) : Resolution :=
  match r.closures[id]? with
  | some closure => ⟨.ok closure, r, [.known id]⟩
  | none =>
    r.settle do
      let called ← children loader id none
      let closure ← explore loader r (loader.bound + 1) [id] called
      modify fun s => { s with finished := s.finished.insert id closure }
      return closure

/-- The transitive dependencies of a program with an id that calls the given programs, whatever
the program stored under that id calls. -/
def transitiveFrom (loader : Loader) (r : Resolver) (id : Int) (called : List Int) : Resolution :=
  r.settle (explore loader r (loader.bound + 1) [id] (Ids.ofList called))

def transitiveAll (loader : Loader) (r : Resolver) (closure : List Int) :
    List Int → Resolution
  | [] => ⟨.ok closure, r, []⟩
  | id :: ids =>
    let first := r.transitive loader id
    match first.answer with
    | .error e => ⟨.error e, first.resolver, first.findings⟩
    | .ok c =>
      let rest := transitiveAll loader first.resolver (Ids.union closure c) ids
      { rest with findings := first.findings ++ rest.findings }

/-- The transitive dependencies of a program at hand. A program with an id must not be called
again by what it calls. -/
def ofProgram (loader : Loader) (r : Resolver) (p : Program) : Resolution :=
  match p.dependencies with
  | .error c => ⟨.error (.crash c), r, []⟩
  | .ok called =>
    match p.id with
    | some id => r.transitiveFrom loader id called
    | none => r.transitiveAll loader called called

end Resolver

end SeqAsm
