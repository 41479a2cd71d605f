/-!
Lines of a text. A line ends at a line feed, a carriage return, the pair of both, or one of the
other separators of Unicode; the last line need not end.
-/

namespace SeqAsm.Text

def isLineEnd (c : Char) : Bool :=
  let n := c.toNat
  (10 ≤ n && n ≤ 13) || (0x1C ≤ n && n ≤ 0x1E) || n == 0x85 || n == 0x2028 || n == 0x2029

/-- Splits what follows `line`, the line under construction, last character first. -/
def linesFrom (line : List Char) : List Char → List (List Char)
  | [] => if line.isEmpty then [] else [line.reverse]
  | '\r' :: '\n' :: rest => line.reverse :: linesFrom [] rest
  | c :: rest =>
    if isLineEnd c then line.reverse :: linesFrom [] rest else linesFrom (c :: line) rest

def lines (cs : List Char) : List (List Char) := linesFrom [] cs

/-- Puts a line feed for each carriage return and for each pair of both after `done`, the text
already passed, last character first. -/
def unifyFrom (done : List Char) : List Char → List Char
  | [] => done.reverse
  | '\r' :: '\n' :: rest => unifyFrom ('\n' :: done) rest
  | '\r' :: rest => unifyFrom ('\n' :: done) rest
  | c :: rest => unifyFrom (c :: done) rest

/-- A text file as it is read: every line end is a line feed. -/
def unifyNewlines (s : String) : String := String.ofList (unifyFrom [] s.toList)

end SeqAsm.Text
