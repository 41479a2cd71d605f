import Std.Data.ExtTreeMap
import SeqAsm.Event
import SeqAsm.Files
import SeqAsm.Text.Digit

/-!
Program stores: texts by id, in memory or in a directory. In a directory the program with an id
is a file named after it, in a folder for each thousand ids.
-/

namespace SeqAsm

structure Directory where
  files : Files
  /-- The text of the top of the files. -/
  top : String
  /-- The path of the directory below the top. -/
  path : List String
  readSuccess : Nat := 0
  readError : Nat := 0

inductive Store where
  | memory (programs : Std.ExtTreeMap Int String)
  | directory (d : Directory)

namespace Directory

def pathFor (id : Int) : List String := [Text.padded 3 (id / 1000), programFile id]

/-- A folder name of three digits. -/
def isFolderName (name : String) : Bool :=
  let cs := name.toList
  cs.length == 3 && cs.all Char.isDigit

/-- The part of a program file's name that stands for the id, if the name fits. -/
def idPart? (name : String) : Option (List Char) :=
  match name.toList with
  | 'A' :: cs =>
    if ".asm".toList.isSuffixOf cs then some (cs.take (cs.length - 4)) else none
  | _ => none

/-- The ids of the programs in a directory, ascending; `none` when the name of a file holds digit
characters that no numeral may hold. -/
def ids? (d : Directory) : Option (List Int) :=
  let parts := (d.files.grandchildren d.path).filterMap fun (folder, name) =>
    if isFolderName folder then idPart? name else none
  let numerals := parts.filter fun cs => !cs.isEmpty && cs.all Text.isDigitLike
  if numerals.all fun cs => cs.all Text.isDigit then
    some ((numerals.map fun cs => (Text.natValue cs : Int)).mergeSort (fun a b => a ≤ b))
  else none

end Directory

namespace Store

structure Reading where
  answer : Except Crash (Option String)
  store : Store
  events : List Event := []

def text? (s : Store) (id : Int) : Except Crash (Option String) :=
  match s with
  | .memory programs => .ok programs[id]?
  | .directory d => d.files.read? d.top (d.path ++ Directory.pathFor id)

/-- Reads a program; a directory counts its reads. -/
def load (s : Store) (id : Int) : Reading :=
  let answer := s.text? id
  match s with
  | .memory _ => { answer, store := s }
  | .directory d =>
    let path := Files.pathText d.top (d.path ++ Directory.pathFor id)
    match answer with
    | .ok (some text) =>
      { answer
        store := .directory { d with readSuccess := d.readSuccess + 1 }
        events := [.fileRead path text.length] }
    | .ok none =>
      { answer
        store := .directory { d with readError := d.readError + 1 }
        events := [.fileMissing path] }
    | .error _ => { answer, store := s }

/-- No fewer than the programs of a store. -/
def bound : Store → Nat
  | .memory programs => programs.size
  | .directory d => d.files.entries.length

def add (s : Store) (id : Int) (text : String) : Store :=
  match s with
  | .memory programs => .memory (programs.insert id text)
  | .directory d => .directory d

/-- The ids of a store, ascending; `none` when a file name cannot be read as an id. -/
def ids? : Store → Option (List Int)
  | .memory programs => some programs.keys
  | .directory d => d.ids?

end Store

end SeqAsm
