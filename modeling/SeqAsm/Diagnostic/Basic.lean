import SeqAsm.Diagnostic.Cause
import SeqAsm.Diagnostic.Span

/-!
Diagnostics: errors with the place they arose at. A diagnostic that has a line is located and
keeps its place; one without is given the place of the instruction that was being executed.

A `Failure` is a diagnostic or a `Crash`, which is a fault of the host that no report describes.
-/

namespace SeqAsm

structure Diagnostic where
  cause : Cause
  span : Span := {}
  hint : String := ""
  /-- The line or instruction at fault; empty when unknown. -/
  sourceLine : String := ""
  /-- Named facts beyond those of the cause. -/
  details : List (String × Datum) := []

namespace Diagnostic

def message (d : Diagnostic) : String := d.cause.message

def code (d : Diagnostic) : Code := d.cause.code

def context (d : Diagnostic) : List (String × Datum) := d.cause.context ++ d.details

def isLocated (d : Diagnostic) : Bool := 0 < d.span.line

def withHint (d : Diagnostic) (hint : String) : Diagnostic := { d with hint }

def withSource (d : Diagnostic) (line : String) : Diagnostic := { d with sourceLine := line }

/-- Adds a named fact unless the context already has one of that name. -/
def addDetail (d : Diagnostic) (name : String) (value : Datum) : Diagnostic :=
  if (d.context.lookup name).isSome then d else { d with details := d.details ++ [(name, value)] }

/-- Gives a place to a diagnostic that has none. -/
def locate (d : Diagnostic) (span : Span) (line : String) (program : Option Int) : Diagnostic :=
  if d.isLocated then d
  else
    let placed := { d with span, sourceLine := line }
    match program with
    | none => placed
    | some id => placed.addDetail "program_id" (.int id)

/-- A report over several lines: place, message and code, then the source line with a mark under
the column, then the hint. -/
def report (d : Diagnostic) : String :=
  let head := d.span.text ++ ": error: " ++ d.message ++ " [" ++ d.code.text ++ "]"
  let source :=
    if d.sourceLine.isEmpty then []
    else
      ("    " ++ d.sourceLine) ::
        if 0 < d.span.column then
          ["    " ++ String.ofList (List.replicate (d.span.column - 1).toNat ' ') ++ "^"]
        else []
  let hint := if d.hint.isEmpty then [] else ["hint: " ++ d.hint]
  "\n".intercalate (head :: source ++ hint)

def summary (d : Diagnostic) : String :=
  let text := d.message ++ " [" ++ d.code.text ++ "]"
  if d.span.line ≠ 0 ∨ d.span.file ≠ "" then d.span.text ++ ": " ++ text else text

def datum (d : Diagnostic) : Datum :=
  .record
    [("code", .str d.code.text),
      ("message", .str d.message),
      ("location", .record
        [("file", .str d.span.file), ("line", .int d.span.line), ("column", .int d.span.column)]),
      ("phase", .str d.code.phase.word),
      ("category", .str d.code.category.word),
      ("context", .record d.context),
      ("hint", .str d.hint),
      ("kind", .str d.cause.kind.word)]

theorem locate_of_isLocated {d : Diagnostic} (h : d.isLocated = true) (span : Span)
    (line : String) (program : Option Int) : d.locate span line program = d := by
  simp [locate, h]

end Diagnostic

inductive Crash where
  /-- An instruction has fewer operands than it uses. -/
  | missingOperand
  /-- A binomial coefficient has more factors than can be counted. -/
  | countOverflow
  /-- A path names a directory where a file is wanted. -/
  | isDirectory (path : String)
  /-- A path leads through a file. -/
  | notDirectory (path : String)
  /-- A path names a file where a directory is wanted. -/
  | isFile (path : String)
  /-- A search went deeper than there are programs. -/
  | searchTooDeep
  deriving DecidableEq, Repr

inductive Failure where
  | diagnostic (d : Diagnostic)
  | crash (c : Crash)

/-- A failure with a given cause and no place yet. -/
def Failure.of (cause : Cause) (details : List (String × Datum)) : Failure :=
  .diagnostic { cause, details }

end SeqAsm
