import BuildAlign.CharacterClasses
import BuildAlign.DependencyCoordinates
import BuildAlign.OrderedMap
import BuildAlign.PomElements

/-! # What alignment reads of a POM

Coordinates, parent, properties, dependencies and modules.  A dependency remembers the path of its
element. -/
namespace BuildAlign

structure Dependency where
  group : String
  artifact : String
  version : Option String
  scope : String
  type : Option String
  location : Option String
deriving DecidableEq, Repr

namespace Dependency

def ga (d : Dependency) : String := coordinateKey d.group d.artifact

def managementSection : String := "dependencyManagement/"

/-- Whether the element is in the dependency management. -/
def isManaged (d : Dependency) : Bool :=
  d.location.any fun location => managementSection.toList.isPrefixOf location.toList

/-- An import takes over the dependency management of another POM. -/
def isImport (d : Dependency) : Bool := d.type = some "pom" && d.scope = "import"

end Dependency

structure PomModule where
  group : String
  artifact : String
  version : Option String
  parentGroup : Option String
  parentArtifact : Option String
  properties : OrderedMap String String
  dependencies : List Dependency
  management : List Dependency
  modules : List String
  directory : Option String
deriving DecidableEq

namespace PomModule

def ga (m : PomModule) : String := coordinateKey m.group m.artifact

/-- The POM as it is named in operations: by its path from the root of the project. -/
def target (m : PomModule) : String :=
  match m.directory with
  | none | some "" | some "." => "pom.xml"
  | some directory => directory ++ "/pom.xml"

end PomModule

namespace PomModule
open PomNamespace

def trimmedText? (node : XmlNode) : Option String :=
  if node.text = "" then none else some (BlankText.trimmed node.text)

/-- The text of the first child of that name, without the blanks around it. -/
def textOf (label : String) (node : XmlNode) : Option String :=
  (firstNamed? label node).bind trimmedText?

/-- The first text unless it is empty or absent. -/
def orText (first second : Option String) : Option String :=
  if first.any (· ≠ "") then first else second

def dependencyAt (node : XmlNode) (location : String) : Dependency where
  group := (textOf "groupId" node).getD ""
  artifact := (textOf "artifactId" node).getD ""
  version := textOf "version" node
  scope := (orText (textOf "scope" node) (some "compile")).getD ""
  type := textOf "type" node
  location := some location

/-- The dependencies of a section with their paths, `path` being that of the section. -/
def dependenciesIn (path : String) (node : Option XmlNode) : List Dependency :=
  match node with
  | none => []
  | some node => (named "dependency" node).zipIdx.map fun (d, i) =>
    dependencyAt d s!"{path}/dependency[{i}]"

/-- The properties of a section: its children with a name and a text. -/
def propertiesIn (node : XmlNode) : OrderedMap String String :=
  OrderedMap.ofList <| node.children.filterMap fun (child, _) =>
    if child.localName = "" then none else (trimmedText? child).map (child.localName, ·)

def modulesIn (node : XmlNode) : List String := (named "module" node).filterMap trimmedText?

def ofRoot (root : XmlNode) : PomModule :=
  let parent := firstNamed? "parent" root
  let parentText label := parent.bind (textOf label)
  { group := (orText (textOf "groupId" root) (parentText "groupId")).getD ""
    artifact := (textOf "artifactId" root).getD ""
    version := orText (textOf "version" root) (parentText "version")
    parentGroup := parentText "groupId"
    parentArtifact := parentText "artifactId"
    properties := ((firstNamed? "properties" root).map propertiesIn).getD ∅
    dependencies := dependenciesIn "dependencies" (firstNamed? "dependencies" root)
    management := dependenciesIn "dependencyManagement/dependencies"
      ((firstNamed? "dependencyManagement" root).bind (firstNamed? "dependencies"))
    modules := ((firstNamed? "modules" root).map modulesIn).getD []
    directory := none }

end PomModule
end BuildAlign
