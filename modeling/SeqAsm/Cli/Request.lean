import SeqAsm.Cli.Arguments
import SeqAsm.Cli.Help
import SeqAsm.Limits

/-!
Requests: what a command line asks for. Every command can send its output to a file, can be given
a directory of programs and can set the limits of a run.
-/

namespace SeqAsm.Cli

inductive ProgramFormat where
  | assembly | form | document
  deriving DecidableEq, Repr

namespace ProgramFormat

def all : List ProgramFormat := [.assembly, .form, .document]

def word : ProgramFormat → String
  | .assembly => "asm"
  | .form => "sexp"
  | .document => "json"

def ofWord? (w : String) : Option ProgramFormat := all.find? fun f => f.word == w

end ProgramFormat

inductive GraphFormat where
  | dot | summary
  deriving DecidableEq, Repr

namespace GraphFormat

def all : List GraphFormat := [.dot, .summary]

def word : GraphFormat → String
  | .dot => "dot"
  | .summary => "summary"

def ofWord? (w : String) : Option GraphFormat := all.find? fun f => f.word == w

end GraphFormat

/-- What to do. Programs are given by a file or an id. -/
inductive Task where
  | eval (program : String) (start : Option Int) (terms : Int)
  | steps (program : String) (terms : Int)
  | parse (program : String) (format : ProgramFormat)
  | deps (program : String) (transitive : Bool)
  | graph (programs : List String) (format : GraphFormat) (title : String)
  /-- The candidate is `none` when its operand is a second `--`. -/
  | compare (installed : String) (candidate : Option String) (terms : Int)
  deriving DecidableEq, Repr

structure Request where
  task : Task
  /-- Where the output goes. -/
  output : Option String
  /-- The directory of programs. -/
  directory : Option String
  limits : Limits
  deriving DecidableEq, Repr

structure Settings where
  operands : List (Option String) := []
  terms : Int := 10
  start : Option Int := none
  programFormat : ProgramFormat := .assembly
  graphFormat : GraphFormat := .summary
  transitive : Bool := false
  title : String := ""
  output : Option String := none
  directory : Option String := none
  limits : Limits := {}

/-- A whole command line: how much of the log to show, and a request if there is one. -/
structure Line where
  verbosity : Nat := 0
  request : Option Request := none
  deriving DecidableEq, Repr

/-- An option whose value goes into the settings as it is. -/
def textOption (names : List String) (set : String → Settings → Settings) : Opt Settings :=
  ⟨names, .valued fun text s => .ok (set text s)⟩

/-- An option whose value is read first. -/
def readOption (names : List String) (read : String → Option α) (set : α → Settings → Settings) :
    Opt Settings :=
  ⟨names, .valued fun text s =>
    match read text with
    | some a => .ok (set a s)
    | none => .error .misuse⟩

def intOption (names : List String) (set : Int → Settings → Settings) : Opt Settings :=
  readOption names (fun text => Text.int? text.toList) set

def helpFlag (text : String) : Opt σ := ⟨["-h", "--help"], .flag fun _ => .error (.shown text)⟩

def termsOption : Opt Settings := intOption ["-t", "--terms"] fun n s => { s with terms := n }

def commonOptions : List (Opt Settings) :=
  [textOption ["-o", "--output"] fun w s => { s with output := some w },
    textOption ["-d", "--programs-dir"] fun w s => { s with directory := some w },
    intOption ["--step-budget"] fun n s => { s with limits.stepBudget := n },
    readOption ["--loop-policy"] LoopPolicy.ofWord? fun p s => { s with limits.loopPolicy := p },
    intOption ["--max-loop-iterations"] fun n s =>
      { s with limits.maxLoopIterations := some n },
    intOption ["--max-bits"] fun n s => { s with limits.maxValueBits := some n }]

def addOperand (w : Option String) (s : Settings) : Except Ending Settings :=
  .ok { s with operands := s.operands ++ [w] }

structure Command where
  name : String
  help : String
  options : List (Opt Settings)
  slots : List (Slot Settings)
  task : Settings → Option Task

namespace Command

def grammar (c : Command) : Grammar Settings :=
  ⟨helpFlag c.help :: c.options ++ commonOptions, c.slots⟩

def read (c : Command) (words : List String) : Except Ending Request := do
  let s ← c.grammar.read {} words
  match c.task s with
  | some task => return { task, output := s.output, directory := s.directory, limits := s.limits }
  | none => throw .misuse

end Command

def onProgram (name help : String) (options : List (Opt Settings))
    (task : String → Settings → Task) : Command where
  name
  help
  options
  slots := [.one addOperand]
  task s :=
    match s.operands with
    | [some program] => some (task program s)
    | _ => none

def commands : List Command :=
  [onProgram "eval" Help.eval
      [termsOption, intOption ["--start"] fun n s => { s with start := some n }]
      fun program s => .eval program s.start s.terms,
    onProgram "steps" Help.steps [termsOption] fun program s => .steps program s.terms,
    onProgram "parse" Help.parse
      [readOption ["-f", "--format"] ProgramFormat.ofWord? fun f s => { s with programFormat := f }]
      fun program s => .parse program s.programFormat,
    onProgram "deps" Help.deps
      [⟨["--transitive"], .flag fun s => .ok { s with transitive := true }⟩]
      fun program s => .deps program s.transitive,
    { name := "graph"
      help := Help.graph
      options :=
        [readOption ["-f", "--format"] GraphFormat.ofWord? fun f s => { s with graphFormat := f },
          textOption ["--title"] fun w s => { s with title := w }]
      slots := [.some fun w => addOperand (some w)]
      task s := some (.graph (s.operands.filterMap id) s.graphFormat s.title) },
    { name := "compare"
      help := Help.compare
      options := [termsOption]
      slots := [.one addOperand, .one addOperand]
      task s :=
        match s.operands with
        | [some installed, candidate] => some (.compare installed candidate s.terms)
        | _ => none }]

def readCommand (words : List String) (l : Line) : Except Ending Line := do
  match words with
  | [] => throw .misuse
  | name :: words =>
    match commands.find? (·.name == name) with
    | none => throw .misuse
    | some c => return { l with request := some (← c.read words) }

def lineGrammar : Grammar Line where
  options :=
    [helpFlag Help.program,
      ⟨["--version"], .flag fun _ => .error (.shown Help.version)⟩,
      ⟨["-v", "--verbose"], .flag fun l => .ok { l with verbosity := l.verbosity + 1 }⟩]
  slots := [.rest readCommand]

def Line.read (words : List String) : Except Ending Line := lineGrammar.read {} words

end SeqAsm.Cli
