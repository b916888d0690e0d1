import BuildAlign.BuildProperties
import BuildAlign.DependencyCoordinates
import BuildAlign.EditOperation

/-! # Settings of a build pass

What is to be aligned, and which documents are to be edited, is read from the build properties once
and does not change during the pass. -/
namespace BuildAlign
open DependencyCoordinates

/-- How the property is named that takes the place of a literal version: by its group, by group and
artifact, or not at all. -/
inductive VersionPropertyFormat | byGroup | byArtifact | literal
deriving DecidableEq, Repr

namespace VersionPropertyFormat

def label : VersionPropertyFormat → String
  | byGroup => "VG"
  | byArtifact => "VGA"
  | literal => "NONE"

def all : List VersionPropertyFormat := [byGroup, byArtifact, literal]

def ofLabel? (text : String) : Option VersionPropertyFormat :=
  all.find? fun format => format.label.toList = (BlankText.trim text.toList).map Char.toUpper

def propertyName? (format : VersionPropertyFormat) (group artifact : String) : Option String :=
  match format with
  | byGroup => some s!"version.{group}"
  | byArtifact => some s!"version.{group}.{artifact}"
  | literal => none

end VersionPropertyFormat

/-- A version forced for one dependency, in the module of that key or in every module (`*`).  An
empty version leaves the dependency alone. -/
structure Exclusion where
  group : String
  artifact : String
  module : String
  version : String
deriving DecidableEq, Repr

def Exclusion.ga (e : Exclusion) : String := coordinateKey e.group e.artifact

inductive SettingsError
  | coordinate (cause : CoordinateError)
  | versionFormat (value : String)
deriving DecidableEq, Repr

def SettingsError.message : SettingsError → String
  | coordinate cause => cause.message
  | versionFormat value =>
    s!"Unknown versionPropertyFormat '{value}', expected one of VG, VGA, NONE"

structure AlignmentSettings where
  candidates : List VersionReference
  overrideTransitive : Bool
  overrideDependencies : Bool
  strict : Bool
  violationFails : Bool
  format : VersionPropertyFormat
  exclusions : List Exclusion
deriving DecidableEq, Repr

namespace AlignmentSettings

def exclusionKey : String := "dependencyExclusion."

/-- What a key says behind `start`. -/
def behind? (start key : List Char) : Option (List Char) :=
  if start.isPrefixOf key then some (key.drop start.length) else none

/-- The exclusion that a property states, if its key is that of one: `group:artifact@module` behind
the common beginning of all such keys, the module being optional. -/
def exclusion? (key : String) (value : Option String) : Except CoordinateError (Option Exclusion) :=
  match behind? exclusionKey.toList key.toList with
  | none => .ok none
  | some entry => do
    let (dependency, module) := (DelimitedText.cut? '@' entry).getD (entry, [])
    let (group, artifact) ← parseKey (String.ofList dependency)
    let module := if module = [] then ['*'] else module
    return some ⟨group, artifact, String.ofList (BlankText.trim module),
      BlankText.trimmed (value.getD "")⟩

def exclusionsOf (props : PropertyMap) : Except CoordinateError (List Exclusion) := do
  return (← props.entries.mapM fun (key, value) => exclusion? key value).filterMap id

def formatOf (value : Option String) : Except SettingsError VersionPropertyFormat :=
  match value with
  | none => .ok .literal
  | some text =>
    if text = "" then .ok .literal
    else match VersionPropertyFormat.ofLabel? text with
      | some format => .ok format
      | none => .error (.versionFormat text)

def ofProperties (props : PropertyMap) : Except SettingsError AlignmentSettings := do
  let flag key absent := BuildProperties.isTrue (props.value? key) absent
  let candidates ← (parseList ((props.value? "dependencyManagement").getD "")).mapError .coordinate
  let format ← formatOf (props.value? "versionPropertyFormat")
  let exclusions ← (exclusionsOf props).mapError .coordinate
  return {
    candidates, format, exclusions
    overrideTransitive := flag "overrideTransitive" true
    overrideDependencies := flag "overrideDependencies" true
    strict := flag "strictAlignment" false
    violationFails := flag "strictViolationFails" false }

/-- Alignment takes place when there is a candidate. -/
def isEnabled (settings : AlignmentSettings) : Bool := !settings.candidates.isEmpty

/-- The version that each dependency is to have: the first candidate of its key. -/
def managed (settings : AlignmentSettings) : OrderedMap String VersionReference :=
  settings.candidates.foldl (fun m reference => m.insertIfNew reference.ga reference) ∅

/-- The exclusion of a dependency in a module: the first one for just that module, else the last one
for every module. -/
def exclusionFor (settings : AlignmentSettings) (ga module : String) : Option Exclusion :=
  let own := settings.exclusions.filter fun e => e.ga = ga
  own.find? (fun e => e.module = module) <|> own.reverse.find? (fun e => e.module = "*")

end AlignmentSettings

/-- The edits of JSON documents. -/
structure JsonSettings where
  operations : List Operation
deriving DecidableEq, Repr

namespace JsonSettings

def ofProperties (props : PropertyMap) : Except OperationError JsonSettings := do
  let operations ← EditOperation.parse ((props.value? "jsonUpdate").getD "")
  match operations.find? fun op => op.path.toList.head? ≠ some '$' with
  | some op => .error ⟨.relativePath, EditOperation.render op⟩
  | none => return ⟨operations⟩

def isEnabled (settings : JsonSettings) : Bool := !settings.operations.isEmpty

/-- The operations of each target, targets in the order of their first operation. -/
def byTarget (settings : JsonSettings) : OrderedMap String (List Operation) :=
  settings.operations.foldl
    (fun m op => m.insert op.target ((m.get? op.target).getD [] ++ [op])) ∅

end JsonSettings
end BuildAlign
