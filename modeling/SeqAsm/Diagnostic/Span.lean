/-!
Places in a source text.
-/

namespace SeqAsm

/-- A place in a source. A line or column that is not positive is unknown; the text of a place
stops at the first unknown part. -/
structure Span where
  file : String := ""
  line : Int := 0
  column : Int := 0
  deriving DecidableEq, Repr

def Span.text (s : Span) : String :=
  if s.file.isEmpty && s.line == 0 then "<unknown location>"
  else
    let file := if s.file.isEmpty then [] else [s.file]
    let line := if 0 < s.line then [toString s.line] else []
    let column := if 0 < s.line ∧ 0 < s.column then [toString s.column] else []
    ":".intercalate (file ++ line ++ column)

end SeqAsm
