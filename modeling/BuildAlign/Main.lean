import BuildAlign.CommandLine

/-! # The program

The files below the project, and the file of properties, are read first.  Then the command works on
their texts, and the texts it has changed are written. -/
open BuildAlign

namespace BuildAlign.Main

def pathOf (location : Location) : String := "/" ++ "/".intercalate location

/-- Reads a file; one that is no text, or cannot be read, is left out. -/
def readText (location : Location) : IO (List (Location × String)) := do
  try return [(location, ← IO.FS.readFile (pathOf location))]
  catch _ => return []

/-- The text files at a place and below it.  Links are not followed. -/
partial def textsBelow (location : Location) : IO (List (Location × String)) := do
  try
    let here ← IO.FS.realPath (pathOf location)
    if ← here.isDir then
      let entries ← here.readDir
      let below ← entries.toList.mapM fun entry => do
        match (← entry.path.symlinkMetadata).type with
        | .dir | .file => textsBelow (location ++ [entry.fileName])
        | _ => return []
      return below.flatten
    else readText location
  catch _ => return []

/-- The disk as far as the arguments tell that it matters. -/
def diskFor (arguments : List String) : IO Disk := do
  let home := (ProjectPath.ofText (← IO.currentDir).toString).names
  let start : Disk := ⟨home, ∅⟩
  match CommandArguments.parse arguments with
  | .error _ => return start
  | .ok parsed =>
    let places := [parsed.project, parsed.properties].filterMap id
    let texts ← places.mapM fun place => textsBelow (start.resolve (ProjectPath.ofText place))
    return { start with files := OrderedMap.ofList texts.flatten }

/-- Writes the files whose texts are not what they were. -/
def writeChanges (before after : Disk) : IO Unit :=
  after.files.entries.forM fun (location, text) =>
    if before.files.get? location = some text then pure ()
    else IO.FS.writeFile (pathOf location) text

end BuildAlign.Main

def main (arguments : List String) : IO UInt32 := do
  let disk ← Main.diskFor arguments
  let outcome := CommandLine.execute disk arguments
  Main.writeChanges disk outcome.final.disk
  IO.print outcome.final.printed
  IO.eprint outcome.final.reported
  outcome.brokenBy.forM fun fault => IO.eprintln fault.message
  return UInt32.ofNat outcome.status
