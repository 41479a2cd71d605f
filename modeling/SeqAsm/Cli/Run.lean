import SeqAsm.CallGraph.Dot
import SeqAsm.CallGraph.Summary
import SeqAsm.Cli.Request
import SeqAsm.Program.Form
import SeqAsm.Program.Printer
import SeqAsm.Session

/-!
Runs of the program: from a command line and the files around it to what is printed, what is
written and how it ends. A run ends with 0 when it did what it was asked for, with 1 when a program
is at fault and with 2 when the command line, a file or the host is.
-/

namespace SeqAsm.Cli

/-- Where a run takes place. Paths start at the root. -/
structure Place where
  files : Files
  /-- The directory that relative paths start from. -/
  working : List String

structure Outcome where
  exit : Nat
  output : String := ""
  /-- The lines of the log and of reports. -/
  messages : List String := []
  /-- The file that was written. -/
  written : Option (List String × String) := none
  deriving DecidableEq, Repr

inductive Stop where
  | report (d : Diagnostic)
  | refused (reason : String)

/-- What the log says about a fault of the host that it has no words for. -/
def unhandled : String := "Unhandled exception"

def crashReason : Crash → String
  | .isDirectory path => "[Errno 21] Is a directory: " ++ Text.literal path
  | .notDirectory path => "[Errno 20] Not a directory: " ++ Text.literal path
  | .isFile path => "[Errno 17] File exists: " ++ Text.literal path
  | .missingOperand | .countOverflow | .searchTooDeep => unhandled

def Stop.ofFailure : Failure → Stop
  | .diagnostic d => .report d
  | .crash c => .refused (crashReason c)

/-- The id that a program's name or number denotes. A line feed may follow it. -/
def programId? (text : String) : Option Int :=
  let cs := text.toList
  let cs := if cs.getLast? = some '\n' then cs.dropLast else cs
  let digits := match cs with
    | 'A' :: ds => ds
    | ds => ds
  if !digits.isEmpty && digits.all Text.isDigit then some (Text.natValue digits) else none

/-- The name of a file without its last extension. -/
def stem (name : String) : String :=
  let reversed := name.toList.reverse
  match reversed.dropWhile (· != '.') with
  | _ :: c :: cs => if reversed.head? = some '.' then name else String.ofList (c :: cs).reverse
  | _ => name

namespace Place

/-- The path that a text denotes; `none` for a home directory and for a text that no path can
hold. -/
def path? (p : Place) (text : String) : Option (List String) :=
  if text.startsWith "~" || text.contains '\x00' then none else some (Files.follow p.working text)

def existing (p : Place) (label text : String) : Except Stop (List String) :=
  match p.path? text with
  | none => .error (.refused unhandled)
  | some path =>
    if p.files.exists? path then .ok path
    else .error (.refused (label ++ " not found: " ++ Files.pathText "" path))

/-- The store that a run uses: the programs of a directory, or none. -/
def store (p : Place) (directory : Option String) : Except Stop Store :=
  match directory.getD "" with
  | "" => .ok (.memory ∅)
  | text => do return .directory ⟨p.files, "", ← p.existing "programs directory" text, 0, 0⟩

def save (p : Place) (name text : String) : Except Stop (List String) :=
  match p.path? name with
  | none => .error (.refused unhandled)
  | some path =>
    match p.files.save "" path text with
    | .ok _ => .ok path
    | .error c => .error (.refused (crashReason c))

end Place

abbrev RunM := ExceptT Stop (StateM Session)

def ask (act : SessionM α) : RunM α := fun s =>
  match act.run s with
  | (.ok a, s) => (.ok a, s)
  | (.error e, s) => (.error (.ofFailure e), s)

/-- The program in a file. The name of the file may give its id. -/
def programInFile (p : Place) (text : String) : RunM Program := do
  let path ← MonadExcept.ofExcept (p.existing "program file" text)
  let name := Files.pathText "" path
  match p.files.read? "" path with
  | .error c => throw (.refused (crashReason c))
  | .ok none => throw (.refused unhandled)
  | .ok (some source) =>
    let id := programId? (stem (path.getLastD ""))
    match Program.parse source name id with
    | .error d => throw (.report d)
    | .ok program =>
      ask (Session.note (.parsed (id.elim name programName) program.size program.offset))
      return program

/-- The program that an operand denotes: by id when it looks like one and no file has that name,
else by file. -/
def programAt (p : Place) (hasDirectory : Bool) (text : String) : RunM Program :=
  match programId? text with
  | none => programInFile p text
  | some id =>
    if ((p.path? text).map p.files.exists?).getD false then programInFile p text
    else if hasDirectory then ask (Session.load id)
    else throw (.refused ("program id " ++ text ++ " given without --programs-dir"))

def programIds : List String → Except Stop (List Int)
  | [] => .ok []
  | text :: texts =>
    match programId? text with
    | none => .error (.refused ("not a program id: " ++ text))
    | some id => (id :: ·) <$> programIds texts

def ProgramFormat.print : ProgramFormat → Program → String
  | .assembly, p => p.text
  | .form, p => p.formText
  | .document, p => p.datum.document

def GraphFormat.print (title : String) : GraphFormat → CallGraph → String
  | .dot, g => g.dot title
  | .summary, g => g.summary 5

def comparisonText (c : Comparison) : String :=
  let steps (n : Option Nat) : String := n.elim "None" toString
  "\n".intercalate
    ["winner: " ++ c.winner,
      "reason: " ++ c.reason,
      "installed steps: " ++ steps c.installedSteps,
      "candidate steps: " ++ steps c.candidateSteps,
      "terms match: " ++ if c.termsMatch then "yes" else "no"]

def Task.perform (p : Place) (hasDirectory : Bool) : Task → RunM String
  | .eval program start terms => do
    let program ← programAt p hasDirectory program
    let values ← ask (Session.evaluateRange (.program program) (start.getD program.offset) terms)
    return ",".intercalate (values.map toString)
  | .steps program terms => do
    let program ← programAt p hasDirectory program
    return toString (← ask (Session.stepCost (.program program) terms))
  | .parse program format => do
    return format.print (← programAt p hasDirectory program)
  | .deps program transitive => do
    let subject := Subject.program (← programAt p hasDirectory program)
    let ids ← ask <|
      if transitive then Session.transitiveDependencies subject
      else Session.directDependencies subject
    return "\n".intercalate (ids.map programName)
  | .graph programs format title => do
    let ids ← MonadExcept.ofExcept (programIds programs)
    return format.print title (← ask (Session.callGraph ids))
  | .compare installed candidate terms => do
    let installed ← programAt p hasDirectory installed
    match candidate with
    | none => throw (.refused unhandled)
    | some candidate =>
      let candidate ← programAt p hasDirectory candidate
      return comparisonText
        (← ask (Session.compare (.program installed) (.program candidate) terms))

def textLines (text : String) : List String := (Text.lines text.toList).map String.ofList

def endLine (text : String) : String := if text.endsWith "\n" then text else text ++ "\n"

def shownLines (verbosity : Nat) (log : List Event) : List String :=
  (log.filter fun e => 2 - verbosity ≤ e.level.weight).flatMap fun e => textLines e.line

def Outcome.stopped (verbosity : Nat) (log : List Event) : Stop → Outcome
  | .report d =>
    { exit := 1
      messages :=
        shownLines verbosity (log ++ [.reported d.datum.inline]) ++ textLines d.report }
  | .refused reason => { exit := 2, messages := shownLines verbosity (log ++ [.refused reason]) }

def Request.perform (p : Place) (verbosity : Nat) (r : Request) : Outcome :=
  match p.store r.directory with
  | .error e => .stopped verbosity [] e
  | .ok store =>
    let hasDirectory := (r.directory.getD "") != ""
    let (answer, session) := (r.task.perform p hasDirectory).run (Session.new store r.limits)
    let log := session.world.log.reverse
    let messages := shownLines verbosity log
    match answer with
    | .error e => .stopped verbosity log e
    | .ok text =>
      let text := endLine text
      match r.output with
      | none | some "-" => { exit := 0, output := text, messages }
      | some name =>
        match p.save name text with
        | .ok path => { exit := 0, messages, written := some (path, text) }
        | .error e => .stopped verbosity log e

def run (p : Place) (words : List String) : Outcome :=
  match Line.read words with
  | .error (.shown text) => { exit := 0, output := text }
  | .error .misuse => { exit := 2, messages := Help.usage }
  | .ok { request := none, .. } => { exit := 2, messages := textLines Help.program }
  | .ok { request := some r, verbosity } => r.perform p verbosity

end SeqAsm.Cli
