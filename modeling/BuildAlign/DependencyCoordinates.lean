import BuildAlign.CharacterClasses
import BuildAlign.DelimitedText

/-! # Coordinates of dependencies

`group:artifact:version` names a version of a dependency and `group:artifact` the dependency itself.
Blanks around a coordinate and around its parts are ignored. -/
namespace BuildAlign

def coordinateKey (group artifact : String) : String := group ++ ":" ++ artifact

/-- A version that a dependency is to have. -/
structure VersionReference where
  group : String
  artifact : String
  version : String
deriving DecidableEq, Repr

def VersionReference.ga (r : VersionReference) : String := coordinateKey r.group r.artifact
def VersionReference.text (r : VersionReference) : String := r.ga ++ ":" ++ r.version

inductive CoordinateShape | groupArtifactVersion | groupArtifact
deriving DecidableEq, Repr

def CoordinateShape.text : CoordinateShape → String
  | groupArtifactVersion => "group:artifact:version"
  | groupArtifact => "group:artifact"

/-- An entry, as written, that does not have the expected parts. -/
structure CoordinateError where
  coordinate : String
  expected : CoordinateShape
deriving DecidableEq, Repr

def CoordinateError.message (e : CoordinateError) : String :=
  s!"Malformed coordinate '{e.coordinate}', expected {e.expected.text}"

namespace DependencyCoordinates
open BlankText DelimitedText

/-- The trimmed parts between the colons, none of them empty. -/
def parts? (raw : List Char) : Option (List String) :=
  let parts := (split ':' (trim raw)).map trim
  if parts.any List.isEmpty then none else some (parts.map String.ofList)

def parseReference (raw : String) : Except CoordinateError VersionReference :=
  match parts? raw.toList with
  | some [group, artifact, version] => .ok ⟨group, artifact, version⟩
  | _ => .error ⟨raw, .groupArtifactVersion⟩

def parseKey (raw : String) : Except CoordinateError (String × String) :=
  match parts? raw.toList with
  | some [group, artifact] => .ok (group, artifact)
  | _ => .error ⟨raw, .groupArtifact⟩

/-- The references of a list with commas; a blank text lists none. -/
def parseList (text : String) : Except CoordinateError (List VersionReference) :=
  if trim text.toList = [] then .ok []
  else (split ',' text.toList).mapM fun raw => parseReference (String.ofList raw)

end DependencyCoordinates
end BuildAlign
