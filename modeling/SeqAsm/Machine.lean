import SeqAsm.Arith.Report
import SeqAsm.Limits
import SeqAsm.Program.Basic
import SeqAsm.Registers

/-!
The machine. A run works on a register file of its own; register zero holds the input at first
and the result at last. Each instruction and each iteration of a loop costs one step, and a call
costs the steps of the called program besides. A run fails when its steps exceed the budget.

Calls are handed to a host, which has a state of its own. Registers, steps and the host's state
outlive a failure.

A loop repeats its body while the range of registers that it names gets smaller. It always ends:
every iteration costs a step, so there are never more iterations than the budget has steps left,
plus the one that exceeds it.
-/

namespace SeqAsm

/-- What a run returns: the value of register zero and the steps it took. -/
structure Result where
  value : Int
  steps : Nat
  deriving DecidableEq, Repr

structure Host (σ : Type) where
  /-- Runs the program with an id on an input. -/
  call : Int → Int → σ → Except Failure Result × σ
  /-- Takes note of a loop, by its line, that made no progress after some iterations. -/
  stalled : Nat → Nat → σ → σ

namespace Machine

/-- What stays fixed during a run. Without a host no program can be called. -/
structure Env (σ : Type) where
  limits : Limits
  program : Option Int
  host : Option (Host σ)

structure State (σ : Type) where
  registers : Registers
  steps : Nat
  world : σ

abbrev Exec (σ : Type) (α : Type) := ExceptT Failure (StateM (State σ)) α

variable {σ : Type}

/-- The fact of which program is running. -/
def runner (env : Env σ) : List (String × Datum) := [("program_id", env.program.elim .null .int)]

/-- Fails for good reason to believe that the run would never end. -/
def giveUp (env : Env σ) (message : String) (steps : Nat) : Failure :=
  .of (.nonTerminating message steps) (runner env)

def charge (env : Env σ) (n : Nat) : Exec σ Unit := do
  modify fun s => { s with steps := s.steps + n }
  let s ← get
  if env.limits.stepBudget < s.steps then
    throw (giveUp env ("Step budget of " ++ toString env.limits.stepBudget ++ " exceeded") s.steps)

def ask (f : Registers → Except Failure α) : Exec σ α := do
  match f (← get).registers with
  | .ok a => return a
  | .error e => throw e

def change (f : Registers → Except Failure Registers) : Exec σ Unit := do
  let r ← ask f
  modify fun s => { s with registers := r }

def address : Operand → Exec σ Int
  | .reg i => do
    ask (·.check i)
    return i
  | .ind i => do
    let a ← ask (·.get i)
    ask (·.check a)
    return a
  | .const v =>
    throw (.of (.engine ("constant " ++ toString v ++ " used as a register address")) [])

def read : Operand → Exec σ Int
  | .const v => return v
  | o => do
    let a ← address o
    ask (·.get a)

def call (env : Env σ) (target id : Int) : Exec σ Unit := do
  let argument ← ask (·.get target)
  if argument < 0 then
    throw (.of
      (.domain ("Program " ++ toString id ++ " called with negative input " ++ toString argument))
      (runner env))
  match env.host with
  | none => throw (.of (.unresolvedDependency id env.program) [])
  | some host =>
    let s ← get
    let (answer, world) := host.call id argument s.world
    modify fun s => { s with world }
    match answer with
    | .error e => throw e
    | .ok result =>
      change (·.set target result.value)
      charge env result.steps

def execute (env : Env σ) (i : Instruction) : Exec σ Unit := do
  charge env 1
  match i.operands with
  | [] => throw (.crash .missingOperand)
  | t :: sources =>
    let target ← address t
    match i.opcode, sources with
    | .seq, _ | .cal, _ =>
      match i.callee with
      | .error c => throw (.crash c)
      | .ok none => throw (.of (.engine "call instruction without a program id") [])
      | .ok (some id) => call env target id
    | _, [] => throw (.crash .missingOperand)
    | .clr, s :: _ =>
      let count ← read s
      change (·.clearRange target count)
    | .op o, s :: _ =>
      let source ← read s
      let old ← ask (·.get target)
      match Arith.compute env.limits.maxValueBits o old source with
      | .error f => throw f.failure
      | .ok value => change (·.set target value)

def place (env : Env σ) (line : Nat) : Span :=
  { file := env.program.elim "<input>" programFile, line }

/-- Gives the place of a node to errors of a run that have none. -/
def locate (env : Env σ) (n : Node) : Failure → Failure
  | .diagnostic d =>
    .diagnostic (if d.cause.isEvaluation then d.locate (place env n.line) n.text env.program else d)
  | f => f

def visit (env : Env σ) (n : Node) (act : Exec σ Unit) : Exec σ Unit :=
  ExceptT.adapt (locate env n) act

/-- The length of the range of a loop. A negative length counts as zero. -/
def rangeLength (env : Env σ) (h : LoopHeader) : Exec σ Nat := do
  let n ← read h.length
  if maxLoopRange < n then throw (.of (.loopRangeLength n maxLoopRange) (runner env))
  return n.toNat

/-- Repeats a loop for at most `fuel` iterations, and fails then. The range that is compared is
the shortest one so far; `done` counts the iterations that made it smaller. -/
def iterate (env : Env σ) (h : LoopHeader) (line : Nat) (body : Exec σ Unit) :
    (fuel shortest done : Nat) → Exec σ Unit
  | 0, _, _ => charge env 1
  | fuel + 1, shortest, done => do
    let before := (← get).registers
    charge env 1
    body
    let start ← address h.target
    let length := min (← rangeLength env h) shortest
    let s ← get
    if s.registers.isLess before start length then
      match env.limits.maxLoopIterations with
      | some limit =>
        if limit < done + 1 then
          throw (giveUp env
            ("Loop at line " ++ toString line ++ " exceeded " ++ toString limit ++ " iterations")
            s.steps)
        else iterate env h line body fuel length (done + 1)
      | none => iterate env h line body fuel length (done + 1)
    else if env.limits.loopPolicy = .guarded ∧ before.hasPositive start length
        ∧ ¬ s.registers.hasNegative start length then
      match env.host with
      | some host => modify fun s => { s with world := host.stalled line done s.world }
      | none => pure ()
      throw (giveUp env ("Loop at line " ++ toString line ++ " made no progress") s.steps)
    else modify fun s => { s with registers := before }

/-- Runs a loop whose body is given as what it does. -/
def repeatBody (env : Env σ) (h : LoopHeader) (line : Nat) (body : Exec σ Unit) :
    Exec σ Unit := do
  let shortest ← rangeLength env h
  let s ← get
  iterate env h line body (env.limits.stepBudget + 1 - s.steps).toNat shortest 0

def runBlock (env : Env σ) : Block → Exec σ Unit
  | .nil => pure ()
  | .instr i line rest => do
    visit env (.instr i line) (execute env i)
    runBlock env rest
  | .loop h line body rest => do
    visit env (.loop h line) (repeatBody env h line (runBlock env body))
    runBlock env rest

def exec (env : Env σ) (body : Block) (input : Int) : Exec σ Result := do
  change (·.set 0 input)
  runBlock env body
  let value ← ask (·.get 0)
  return ⟨value, (← get).steps⟩

def start (limits : Limits) (world : σ) : State σ := ⟨.empty limits.capacity, 0, world⟩

/-- Runs a program on an input. The state is that at the end or at the moment of failure. -/
def run (limits : Limits) (host : Option (Host σ)) (p : Program) (input : Int) (world : σ) :
    Except Failure Result × State σ :=
  (exec ⟨limits, p.id, host⟩ p.body input).run (start limits world)

end Machine

end SeqAsm
