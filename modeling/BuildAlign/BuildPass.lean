import BuildAlign.JsonPrinter
import BuildAlign.JsonReader
import BuildAlign.ModuleAlignment
import BuildAlign.ModuleDiscovery
import BuildAlign.PassFault
import BuildAlign.XmlPrinter

/-! # A build pass

The settings are read first, so that a malformed one ends the pass before any document is touched.
Then the JSON documents are edited one after the other, and then the POMs of all modules are aligned
and written together.  A dry run prints what would be written. -/
namespace BuildAlign

/-- What a pass works on: the files, what it has printed, and what it has reported. -/
structure PassState where
  disk : Disk
  printed : String
  reported : String

structure PassOptions where
  project : ProjectPath
  dryRun : Bool
  verbose : Bool

abbrev Pass := ExceptT PassFault (StateM PassState)

namespace BuildPass

/-- The text as it is put out, unless it holds halves of surrogate pairs. -/
def encoded (text : LooseText) : Pass String :=
  match text.encode with
  | .ok written => return written
  | .error halves => throw (.unwritable halves)

def print (text : LooseText) : Pass Unit := do
  let written ← encoded text
  modify fun s => { s with printed := s.printed ++ written }

def report (line : String) : Pass Unit :=
  modify fun s => { s with reported := s.reported ++ line ++ "\n" }

/-- Reports the warnings of a log, and all of it when asked to. -/
def reportLog (options : PassOptions) (log : PassLog) : Pass Unit :=
  (log.filter fun e => options.verbose || e.level = .warning).forM fun e => report e.line

def ruler : String := String.ofList (List.replicate 60 '=')

def heading (title : String) : String := ruler ++ "\n" ++ title ++ "\n" ++ ruler ++ "\n"

/-- Prints a text under its title. -/
def printSection (title : String) (content : LooseText) : Pass Unit := do
  print (.ofString (heading title))
  print content
  print (.ofString "\n\n")

/-- The text of a file that has to be there. -/
def readFile (path : ProjectPath) (absent : PassFault) : Pass String := do
  match (← get).disk.lookup path with
  | .file text => return text
  | .directory => throw (.directory path.text)
  | .absent => throw absent
  | .tooLong => throw (.tooLong path.text)

/-- Writes a file, which is left empty when its text cannot be put out. -/
def writeFile (path : ProjectPath) (text : LooseText) : Pass Unit := do
  let written := (text.encode.toOption).getD ""
  modify fun s => { s with disk := s.disk.write path written }
  discard (encoded text)

/-- Writes the new text of a target, or shows what would be written. -/
def put (options : PassOptions) (target : String) (shown written : LooseText) : Pass Unit := do
  if options.dryRun then printSection target shown
  else
    let path := options.project.child target
    writeFile path written
    print (.ofString s!"  ✓ {path.text}\n")

/-- Applies operations to a document, which is lost when one of them fails. -/
def applyAll {δ : Type} (options : PassOptions) (editor : Editor δ)
    (ops : List Operation) (doc : δ) :
    Pass δ := do
  let batch := editor.applyAll (ops.map Operation.edit) doc
  reportLog options batch.log
  match batch.failure with
  | some cause => throw (.edit cause)
  | none => return batch.document

section JsonPhase

def updateJson (options : PassOptions) (target : String) (ops : List Operation) : Pass Unit := do
  let path := options.project.child target
  let text ← readFile path (.noJson path.text)
  match JsonReader.read text with
  | .error cause => throw (.json cause)
  | .ok doc =>
    match DocumentEdits.editorFor doc with
    | .error cause => throw (.edit cause)
    | .ok editor =>
      let content := JsonPrinter.print (← applyAll options editor ops doc) ++ .ofString "\n"
      put options target content content

/-- Updates the documents one after the other and returns their targets. -/
def updateAllJson (options : PassOptions) (settings : JsonSettings) : Pass (List String) :=
  settings.byTarget.entries.mapM fun (target, ops) => do
    updateJson options target ops
    return target

end JsonPhase

section PomPhase

/-- The root module and all that are found from it. -/
def loadModules (options : PassOptions) : Pass (List LoadedModule) := do
  let path := options.project.child ModuleDiscovery.pomFile
  let text ← readFile path (.noPom path.text)
  match LoadedModule.load "." text with
  | .error cause => throw (.xml cause)
  | .ok root =>
    let search := ModuleDiscovery.discover (← get).disk options.project [] root.module.modules
    search.skipped.forM fun directory =>
      report s!"WARNING: Module '{directory}' has no pom.xml, skipping"
    match search.fault with
    | some fault => throw fault
    | none => return root :: search.found

/-- Merges the alignments of modules into a result.  Only the first of all receives the candidates
that it does not declare. -/
def alignModules (options : PassOptions) (settings : AlignmentSettings) (reactor : Reactor) :
    Bool → List PomModule → AlignmentResult → Pass AlignmentResult
  | _, [], result => return result
  | isRoot, m :: ms, result => do
    let inherited := InheritedProperties.inherited reactor m
    let (outcome, log) := ModuleAlignment.align settings m isRoot inherited
    reportLog options log
    match outcome with
    | .error violation => throw (.policy violation)
    | .ok aligned => alignModules options settings reactor false ms (result.merge aligned)

/-- The POMs of a project by their targets. -/
abbrev PomTrees := OrderedMap String XmlNode

/-- Makes the changes that a result has for one POM. -/
def editPom (options : PassOptions) (result : AlignmentResult) (target : String) (root : XmlNode) :
    Pass XmlNode := do
  let ops := result.operations.filter fun op => op.target = target
  let root ← applyAll options DocumentEdits.pomEditor ops root
  let root := match result.newProperties.get? target with
    | some props => PomSections.addProperties props.entries root
    | none => root
  return match result.injected.get? target with
    | some entries => PomSections.addManaged entries root
    | none => root

def isChanged (result : AlignmentResult) (target : String) : Bool :=
  result.operations.any (fun op => op.target = target) || result.newProperties.contains target ||
    result.injected.contains target

def editPoms (options : PassOptions) (result : AlignmentResult) :
    List String → PomTrees → Pass PomTrees
  | [], trees => return trees
  | target :: targets, trees => do
    match trees.get? target with
    | none => editPoms options result targets trees
    | some root =>
      let root ← editPom options result target root
      editPoms options result targets (trees.insert target root)

def putPom (options : PassOptions) (trees : PomTrees) (target : String) : Pass Unit :=
  match trees.get? target with
  | none => return
  | some root =>
    put options target (.ofString (XmlPrinter.print root)) (.ofString (XmlPrinter.printFile root))

def alignProject (options : PassOptions) (settings : AlignmentSettings) : Pass AlignmentResult := do
  let loaded ← loadModules options
  let modules := loaded.map LoadedModule.module
  let reactor := InheritedProperties.reactorOf modules
  let result ← alignModules options settings reactor true modules ∅
  let targets := modules.map PomModule.target
  let trees := OrderedMap.ofList (loaded.map fun l => (l.module.target, l.tree))
  let trees ← editPoms options result targets trees
  (targets.filter (isChanged result)).forM (putPom options trees)
  return result

end PomPhase

def summary (result : AlignmentResult) : String :=
  if result.updates.isEmpty then "No version properties changed.\n"
  else
    let sorted := result.updates.entries.mergeSort fun (n, _) (n', _) => decide (n ≤ n')
    "Version property updates:\n" ++ String.join (sorted.map fun (n, v) => s!"  {n} -> {v}\n")

/-- Runs a pass; without candidates there is no result. -/
def run (options : PassOptions) (props : PropertyMap) : Pass (Option AlignmentResult) := do
  let json ← match JsonSettings.ofProperties props with
    | .ok json => pure json
    | .error cause => throw (.operation cause)
  let alignment ← match AlignmentSettings.ofProperties props with
    | .ok alignment => pure alignment
    | .error cause => throw (.settings cause)
  if !json.isEnabled && !alignment.isEnabled then
    print (.ofString "Nothing to do: neither jsonUpdate nor dependencyManagement is set.\n")
    return none
  if json.isEnabled then discard (updateAllJson options json)
  if !alignment.isEnabled then return none
  let result ← alignProject options alignment
  result.warnings.forM fun warning => report s!"WARNING: {warning}"
  print (.ofString (summary result))
  return some result

end BuildPass
end BuildAlign
