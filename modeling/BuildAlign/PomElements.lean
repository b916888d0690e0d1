import BuildAlign.OrderedMap
import BuildAlign.XmlTree

/-! # Elements of POMs

The elements of a POM are in its namespace or in none, and are looked up by name. -/
namespace BuildAlign.PomNamespace

def pomSpace : String := "http://maven.apache.org/POM/4.0.0"

def isPomName (label : String) (child : XmlChild) : Bool :=
  child.1.name? = some ⟨some pomSpace, label⟩

def isPlainName (label : String) (child : XmlChild) : Bool :=
  child.1.name? = some ⟨none, label⟩

/-- The children of that name, those in the namespace first. -/
def named (label : String) (node : XmlNode) : List XmlNode :=
  (node.children.filter (isPomName label) ++ node.children.filter (isPlainName label)).map Prod.fst

def firstNamed? (label : String) (node : XmlNode) : Option XmlNode := (named label node).head?

end BuildAlign.PomNamespace

/-! ## Additions

Properties and managed dependencies are put into the sections they belong to, which are created
where they are missing.  A new element is in the namespace of the root. -/
namespace BuildAlign

/-- An entry of a dependency management section. -/
structure ManagedEntry where
  group : String
  artifact : String
  version : Option String
deriving DecidableEq, Repr

namespace PomSections

def emptyElement (name : XmlName) : XmlNode := .element name [] "" []

def isNamed (name : String) (child : XmlChild) : Bool := child.1.localName = name

/-- Changes the first child of that name, which is appended when there is none. -/
def updateSection (space : XmlName) (name : String) (f : XmlNode → XmlNode)
    (node : XmlNode) : XmlNode :=
  node.updateChildren fun children =>
    match children.findIdx? (isNamed name) with
    | some i => children.modify i fun (child, tail) => (f child, tail)
    | none => children ++ [(f (emptyElement (space.sibling name)), "")]

def rootNameOf (root : XmlNode) : XmlName := root.name?.getD ⟨none, ""⟩

def addProperties (properties : List (String × String)) (root : XmlNode) : XmlNode :=
  let space := rootNameOf root
  updateSection space "properties"
    (fun entries => properties.foldl
      (fun entries (name, value) =>
        updateSection space name (XmlNode.setText value) entries) entries)
    root

def entryElement (space : XmlName) (entry : ManagedEntry) : XmlNode :=
  let field name value := ((emptyElement (space.sibling name)).setText value, "")
  .element (space.sibling "dependency") [] ""
    [field "groupId" entry.group, field "artifactId" entry.artifact,
     field "version" (entry.version.getD "")]

def addManaged (entries : List ManagedEntry) (root : XmlNode) : XmlNode :=
  let space := rootNameOf root
  updateSection space "dependencyManagement"
    (updateSection space "dependencies"
      (XmlNode.updateChildren (· ++ entries.map fun entry => (entryElement space entry, ""))))
    root

end PomSections
end BuildAlign
