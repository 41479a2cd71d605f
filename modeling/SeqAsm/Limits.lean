/-!
The limits of a run: how many steps it may take, what a loop does when it stops making progress,
how often a loop may repeat, how large values may become and how many registers there are.
-/

namespace SeqAsm

/-- What a loop does when an iteration fails to decrease its range. -/
inductive LoopPolicy where
  /-- Restore the registers and leave the loop, but fail when the loop could never end on its
  own. -/
  | guarded
  /-- Always restore the registers and leave the loop. -/
  | rollback
  deriving DecidableEq, Repr

namespace LoopPolicy

def all : List LoopPolicy := [.guarded, .rollback]

def word : LoopPolicy → String
  | .guarded => "guarded"
  | .rollback => "rollback"

def ofWord? (w : String) : Option LoopPolicy := all.find? fun p => p.word == w

end LoopPolicy

structure Limits where
  stepBudget : Int := 5000000
  loopPolicy : LoopPolicy := .guarded
  maxLoopIterations : Option Int := none
  maxValueBits : Option Int := none
  /-- The number of registers. -/
  capacity : Int := 10000
  deriving DecidableEq, Repr

/-- What is wrong with the limits; they can be used all the same. -/
def Limits.warnings (l : Limits) : List String :=
  (if l.stepBudget ≤ 0 then ["step_budget must be positive"] else [])
    ++ (if l.maxLoopIterations.any (· ≤ 0) then ["max_loop_iterations must be positive"] else [])
    ++ (if l.maxValueBits.any (· ≤ 0) then ["max_value_bits must be positive"] else [])
    ++ (if l.capacity ≤ 0 then ["max_register_index must be positive"] else [])

end SeqAsm
