import BuildAlign.BuildPass
import BuildAlign.CommandArguments

/-! # The command

Reads the arguments and the properties, runs a pass, and says how it ended. -/
namespace BuildAlign.CommandLine

/-- How the command ended: its exit status, the files and texts it leaves, and the fault that broke
it off, if any. -/
structure Outcome where
  status : Nat
  final : PassState
  brokenBy : Option PassFault

def programName : String := "manip"

def helpText : String :=
  "usage: " ++ programName ++
    " [-h] [-D KEY=VALUE] [--properties PROPERTIES] [--dry-run] [--verbose] " ++
    "project\n"

/-- The properties defined one by one.  A value that is a mere separator is none. -/
def definitions : List String → Except PassFault (List (String × String))
  | [] => .ok []
  | text :: rest =>
    if text = "--" then .error (.separatorValue .define)
    else match BuildProperties.parseDefinition text with
      | some entry => do return entry :: (← definitions rest)
      | none => .error (.usage (.definition text))

/-- The properties of a file. -/
def fileProperties (path : String) : Pass BuildProperties.Entries := do
  if path = "--" then throw (.separatorValue .properties)
  let path := ProjectPath.ofText path
  return BuildProperties.ofText (← BuildPass.readFile path (.noProperties path.text))

/-- Runs a pass as the arguments ask for, single definitions overriding those of the file. -/
def perform (arguments : List String) : Pass Unit := do
  match CommandArguments.parse arguments with
  | .error cause => throw (.usage cause)
  | .ok a =>
    if a.help then BuildPass.print (.ofString helpText)
    else
      let defined ← definitions a.definitions
      let fromFile ← match a.properties with
        | none => pure ∅
        | some path => fileProperties path
      let props := fromFile.insertAll (OrderedMap.ofList defined).entries
      let options : PassOptions :=
        { project := .ofText (a.project.getD "")
          dryRun := a.dryRun
          verbose := a.verbose }
      let _ ← BuildPass.run options (props.mapValues some)

def report (final : PassState) (line : String) : PassState :=
  { final with reported := final.reported ++ line ++ "\n" }

def ended (result : Except PassFault Unit) (final : PassState) : Outcome :=
  match result with
  | .ok _ => ⟨0, final, none⟩
  | .error (.usage cause) => ⟨2, report final s!"{programName}: error: {cause.message}", none⟩
  | .error fault =>
    if fault.isReported then ⟨1, report final s!"ERROR: {fault.message}", none⟩
    else ⟨1, final, some fault⟩

/-- Runs the command on the files of a disk. -/
def execute (disk : Disk) (arguments : List String) : Outcome :=
  let (result, final) := (perform arguments).run.run ⟨disk, "", ""⟩
  ended result final

end BuildAlign.CommandLine
