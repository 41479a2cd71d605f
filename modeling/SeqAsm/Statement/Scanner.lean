import SeqAsm.Statement.Basic

/-!
Reading one line. A line is white space, at most one statement, white space and at most one
comment, which starts with a semicolon. A statement is `#offset` with an integer, or a word with
operands: blanks must stand before the first operand, and white space may stand around the
commas between operands. Whatever is left over makes the line unreadable from there on.
-/

namespace SeqAsm.Statement

open SeqAsm.Text

def isTokenChar (c : Char) : Bool := c != ',' && c != ';' && !isSpace c

def isWordChar (c : Char) : Bool := c.isAlphanum || c == '_'

/-- Reads as many further operands as there are: each is a comma and a token. A comma without a
token is left unread, together with the white space before it. Gives the operands, the rest and
the column of the rest. -/
def moreOperands (column : Nat) (cs : List Char) : List Token × List Char × Nat :=
  let gap := cs.takeWhile isSpace
  match _h : cs.dropWhile isSpace with
  | ',' :: r =>
    let gap' := r.takeWhile isSpace
    let token := (r.dropWhile isSpace).takeWhile isTokenChar
    let rest := (r.dropWhile isSpace).dropWhile isTokenChar
    if token.isEmpty then ([], cs, column)
    else
      let start := column + gap.length + 1 + gap'.length
      let (tokens, rest', column') := moreOperands (start + token.length) rest
      (⟨token, start⟩ :: tokens, rest', column')
  | _ => ([], cs, column)
termination_by cs.length
decreasing_by
  have h₁ : ((r.dropWhile isSpace).dropWhile isTokenChar).length ≤ (r.dropWhile isSpace).length :=
    (List.dropWhile_sublist _).length_le
  have h₂ : (r.dropWhile isSpace).length ≤ r.length := (List.dropWhile_sublist _).length_le
  have h₃ : (cs.dropWhile isSpace).length ≤ cs.length := (List.dropWhile_sublist _).length_le
  simp only [_h, List.length_cons] at h₃
  omega

/-- Reads the operands after a word, if blanks and a token follow it. -/
def operands (column : Nat) (cs : List Char) : List Token × List Char :=
  let gap := cs.takeWhile isBlank
  let token := (cs.dropWhile isBlank).takeWhile isTokenChar
  let rest := (cs.dropWhile isBlank).dropWhile isTokenChar
  if gap.isEmpty || token.isEmpty then ([], cs)
  else
    let start := column + gap.length
    let (tokens, rest', _) := moreOperands (start + token.length) rest
    (⟨token, start⟩ :: tokens, rest')

/-- Reads the integer of a directive, which must follow blanks. -/
def offsetValue? (cs : List Char) : Option (Int × List Char) :=
  let gap := cs.takeWhile isBlank
  let numeral := cs.dropWhile isBlank
  let unsigned := (takeSign numeral).2
  let digits := unsigned.takeWhile isDigit
  if gap.isEmpty || digits.isEmpty then none
  else
    let n : Int := natValue digits
    some (if (takeSign numeral).1 then -n else n, unsigned.dropWhile isDigit)

def front (column : Nat) : List Char → Option Statement × List Char
  | '#' :: 'o' :: 'f' :: 'f' :: 's' :: 'e' :: 't' :: cs =>
    match offsetValue? cs with
    | some (value, rest) => (some (.offset value column), rest)
    | none => (none, '#' :: 'o' :: 'f' :: 'f' :: 's' :: 'e' :: 't' :: cs)
  | c :: cs =>
    if c.isAlpha then
      let word := c :: cs.takeWhile isWordChar
      let (tokens, rest) := operands (column + word.length) (cs.dropWhile isWordChar)
      (some (.instruction (String.ofList word) column tokens), rest)
    else (none, c :: cs)
  | [] => (none, [])

/-- Drops white space and a comment, which ends before a line feed. -/
def dropComment (cs : List Char) : List Char :=
  match cs.dropWhile isSpace with
  | ';' :: r => r.dropWhile (· != '\n')
  | r => r

def scan (cs : List Char) : Except Unreadable (Option Statement) :=
  let (statement, rest) := front ((cs.takeWhile isSpace).length + 1) (cs.dropWhile isSpace)
  let left := dropComment rest
  if left.isEmpty then .ok statement
  else
    let fragment := if (trim left).isEmpty then trim cs else trim left
    .error ⟨String.ofList fragment, cs.length - left.length + 1⟩

end SeqAsm.Statement
