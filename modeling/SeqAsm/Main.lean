import SeqAsm.Cli.Run

/-!
The program as a shell starts it: the files that a command line names are gathered, the run is
carried out on them, and what comes out of it is printed and written.
-/

namespace SeqAsm.Cli

def Task.programs : Task → List String
  | .eval program .. | .steps program .. | .parse program .. | .deps program .. => [program]
  | .graph .. => []
  | .compare installed candidate _ => installed :: candidate.toList

/-- Adds what stands on the way to a path and at its end; the text of a file only if it is to be
read. -/
def gather (toRead : Bool) (files : Files) (path : List String) : IO Files := do
  let start ← IO.currentDir
  let mut files := files
  for n in List.range (path.length + 1) do
    let part := path.take n
    let place := start / Files.pathText "" part
    if ← place.isDir then
      files := { files with folders := part :: files.folders }
    else if ← place.pathExists then
      let text ← if toRead && n == path.length then IO.FS.readFile place else pure ""
      files := { files with entries := (part, text) :: files.entries }
  return files

def gatherPrograms (files : Files) (path : List String) : IO Files := do
  let place := (← IO.currentDir) / Files.pathText "" path
  let mut files := files
  if ← place.isDir then
    for folder in ← place.readDir do
      if ← folder.path.isDir then
        for file in ← folder.path.readDir do
          unless ← file.path.isDir do
            let text ← IO.FS.readFile file.path
            files :=
              { files with
                entries := (path ++ [folder.fileName, file.fileName], text) :: files.entries }
  return files

def Request.files (r : Request) (working : List String) : IO Files := do
  let mut files : Files := { folders := [working] }
  for name in r.output.toList do
    files ← gather false files (Files.follow working name)
  for name in r.task.programs do
    files ← gather true files (Files.follow working name)
  for name in r.directory.toList do
    let path := Files.follow working name
    files ← gatherPrograms (← gather false files path) path
  return files

def Outcome.publish (o : Outcome) : IO UInt32 := do
  for (path, text) in o.written.toList do
    let start ← IO.currentDir
    IO.FS.createDirAll (start / Files.pathText "" path.dropLast)
    IO.FS.writeFile (start / Files.pathText "" path) text
  IO.print o.output
  for message in o.messages do
    IO.eprintln message
  return o.exit.toUInt32

end SeqAsm.Cli

def main (words : List String) : IO UInt32 := do
  let working := SeqAsm.Files.follow [] (← IO.currentDir).toString
  let files ←
    match SeqAsm.Cli.Line.read words with
    | .ok { request := some r, .. } => r.files working
    | _ => pure {}
  (SeqAsm.Cli.run ⟨files, working⟩ words).publish
