import SeqAsm.Diagnostic.Basic
import SeqAsm.Text.Lines

/-!
Trees of text files. A path is the list of its names from the top of the tree; a directory is
there because a file is below it or because it is listed, and the top is always there.
-/

namespace SeqAsm

structure Files where
  entries : List (List String × String) := []
  /-- Directories that may have no file below them. -/
  folders : List (List String) := []

namespace Files

inductive Entry where
  | file (text : String)
  | directory
  | absent
  /-- The path goes through a file. -/
  | blocked
  deriving DecidableEq, Repr

/-- Whether one path leads to another or to something below it. -/
def leadsTo (path below : List String) : Bool := path.isPrefixOf below

def entry (f : Files) (path : List String) : Entry :=
  match f.entries.lookup path with
  | some text => .file text
  | none =>
    if path.isEmpty || f.folders.any (leadsTo path) || f.entries.any fun e => leadsTo path e.1 then
      .directory
    else if f.entries.any fun e => leadsTo e.1 path then .blocked
    else .absent

def exists? (f : Files) (path : List String) : Bool :=
  match f.entry path with
  | .file _ | .directory => true
  | _ => false

/-- The path as text, below the text of the top; a top without text is the root. -/
def pathText (top : String) (path : List String) : String :=
  if top.isEmpty && path.isEmpty then "/" else "/".intercalate (top :: path)

/-- Reads a file with every line end as a line feed; `none` when there is none. -/
def read? (f : Files) (top : String) (path : List String) : Except Crash (Option String) :=
  match f.entry path with
  | .file text => .ok (some (Text.unifyNewlines text))
  | .directory => .error (.isDirectory (pathText top path))
  | .blocked => .error (.notDirectory (pathText top path))
  | .absent => .ok none

def write (f : Files) (path : List String) (text : String) : Files :=
  { f with entries := (path, text) :: f.entries.filter (·.1 != path) }

/-- Writes a file and makes the directories on the way to it. -/
def save (f : Files) (top : String) (path : List String) (text : String) : Except Crash Files :=
  let parent := path.dropLast
  match f.entry parent with
  | .file _ => .error (.isFile (pathText top parent))
  | .blocked => .error (.notDirectory (pathText top parent))
  | .directory | .absent =>
    match f.entry path with
    | .directory => .error (.isDirectory (pathText top path))
    | _ => .ok (f.write path text)

/-- Follows a path text from a directory: an empty name or `.` stays, `..` goes up, and a text
that starts with `/` starts at the top. -/
def follow (start : List String) (text : String) : List String :=
  let start := if text.startsWith "/" then [] else start
  (text.splitOn "/").foldl (fun path name =>
    if name = "" ∨ name = "." then path
    else if name = ".." then path.dropLast
    else path ++ [name]) start

/-- The files and directories two levels below a path, each by its names there. -/
def grandchildren (f : Files) (path : List String) : List (String × String) :=
  (f.entries.filterMap fun e =>
    if leadsTo path e.1 then
      match e.1.drop path.length with
      | a :: b :: _ => some (a, b)
      | _ => none
    else none).eraseDups

end Files

end SeqAsm
