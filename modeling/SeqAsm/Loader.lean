import SeqAsm.Program.Basic

/-!
Where searches through programs get their programs from, and what they take note of.
-/

namespace SeqAsm

/-- A finite collection of programs by id. Looking for a program can fail in other ways than by
not finding it. -/
structure Loader where
  find : Int → Except Failure (Option Program)
  /-- No fewer than the ids for which there is a program. -/
  bound : Nat

inductive Finding where
  /-- A program was looked for. -/
  | sought (id : Int)
  /-- The dependencies of a program were known from an earlier search. -/
  | known (id : Int)
  /-- Calls lead back to a program; the path starts and ends with it. -/
  | cycle (path : List Int)
  /-- There is no program with this id. -/
  | absent (id : Int)
  deriving DecidableEq, Repr

def Finding.soughtIds (fs : List Finding) : List Int :=
  fs.filterMap fun
    | .sought id => some id
    | _ => none

end SeqAsm
