import SeqAsm.Sexp.Basic

/-!
The lexemes of S-expressions. A text is cut into brackets, quotes, strings and atoms; white space
is ASCII, and a comment runs from a semicolon to the end of its line. A text that ends inside a
string or after a backslash ends with a lexeme that says so.
-/

namespace SeqAsm.Sexp

inductive Fault where
  /-- A quote with nothing to quote. -/
  | missingForm
  /-- A bracket that is not closed, or closed by one of the other kind. -/
  | missingClosing
  /-- A closing bracket that was never opened. -/
  | extraClosing
  | unclosedString
  | loneBackslash
  /-- Not exactly one form. -/
  | formCount
  deriving DecidableEq, Repr

inductive Shape where
  | round | square
  deriving DecidableEq, Repr

inductive Lexeme where
  | opening (s : Shape)
  | closing (s : Shape)
  | quote
  | str (chars : List Char)
  | atom (chars : List Char)
  | fault (f : Fault)
  deriving DecidableEq, Repr

namespace Lexeme

def isWhite (c : Char) : Bool :=
  c == ' ' || c == '\t' || c == '\n' || c == '\r' || c == '\x0b' || c == '\x0c'

def endsAtom (c : Char) : Bool :=
  isWhite c || c == '(' || c == ')' || c == '[' || c == ']' || c == '"' || c == ';'

/-- A character after a backslash in an atom; before most characters the backslash stays. -/
def unescapeAtom (c : Char) : List Char :=
  if "\\'\x60\"()[] ,?;#".toList.contains c then [c] else ['\\', c]

def unescapeString (c : Char) : List Char :=
  match c with
  | '\\' | '"' => [c]
  | 'b' => ['\x08']
  | 'f' => ['\x0c']
  | 'n' => ['\n']
  | 'r' => ['\r']
  | 't' => ['\t']
  | c => ['\\', c]

/-- What a scan is inside of; texts under construction have their last character first. -/
inductive Mode where
  | between
  | comment
  | atom (done : List Char)
  | atomEscape (done : List Char)
  | str (done : List Char)
  | strEscape (done : List Char)

/-- A character between lexemes: the lexemes it completes, and what it begins. -/
def start (c : Char) : List Lexeme × Mode :=
  if isWhite c then ([], .between)
  else match c with
    | '(' => ([.opening .round], .between)
    | '[' => ([.opening .square], .between)
    | ')' => ([.closing .round], .between)
    | ']' => ([.closing .square], .between)
    | '\'' => ([.quote], .between)
    | '"' => ([], .str [])
    | ';' => ([], .comment)
    | '\\' => ([], .atomEscape [])
    | c => ([], .atom [c])

def next (c : Char) : Mode → List Lexeme × Mode
  | .between => start c
  | .comment => ([], if c = '\n' then .between else .comment)
  | .atom done =>
    if endsAtom c then
      let (lexemes, mode) := start c
      (.atom done.reverse :: lexemes, mode)
    else if c = '\\' then ([], .atomEscape done)
    else ([], .atom (c :: done))
  | .atomEscape done => ([], .atom ((unescapeAtom c).reverse ++ done))
  | .str done =>
    if c = '"' then ([.str done.reverse], .between)
    else if c = '\\' then ([], .strEscape done)
    else ([], .str (c :: done))
  | .strEscape done => ([], .str ((unescapeString c).reverse ++ done))

def last : Mode → List Lexeme
  | .between | .comment => []
  | .atom done => [.atom done.reverse]
  | .str _ => [.fault .unclosedString]
  | .atomEscape _ | .strEscape _ => [.fault .loneBackslash]

/-- The lexemes of a text, put in reverse order before `done`. -/
def scanFrom (done : List Lexeme) (mode : Mode) : List Char → List Lexeme
  | [] => done.reverse ++ last mode
  | c :: cs =>
    let (lexemes, mode) := next c mode
    scanFrom (lexemes.reverse ++ done) mode cs

def scan (cs : List Char) : List Lexeme := scanFrom [] .between cs

end Lexeme

end SeqAsm.Sexp
