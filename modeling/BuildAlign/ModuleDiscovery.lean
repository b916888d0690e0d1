import BuildAlign.PassFault
import BuildAlign.PomModule
import BuildAlign.ProjectFiles
import BuildAlign.InheritedProperties
import BuildAlign.XmlReader

/-! # The modules of a project

Starting from the modules that the root POM names, every directory is looked into once, depth first.
The search ends because each POM that leads on is in a directory of its own. -/
namespace BuildAlign

/-- A module with the tree of its POM. -/
structure LoadedModule where
  module : PomModule
  tree : XmlNode

/-- The POM of a directory, named relative to the root of the project. -/
def LoadedModule.load (directory text : String) : Except XmlFault LoadedModule :=
  (XmlReader.read text).map fun tree =>
    ⟨{ PomModule.ofRoot tree with directory := some directory }, tree⟩

/-- What a search has found: modules, directories without a POM, and what ended it early. -/
structure Discovery where
  found : List LoadedModule
  skipped : List String
  fault : Option PassFault

namespace ModuleDiscovery
open RemainingElements

def pomFile : String := "pom.xml"

/-- A module directory as seen from the root of the project. -/
def relative (parent name : String) : String := if parent = "" then name else parent ++ "/" ++ name

/-- The directories that hold a POM. -/
def pomDirectories (disk : Disk) : List Location :=
  (disk.files.keys.filter fun file => file.getLast? = some pomFile).map List.dropLast

private theorem mem_pomDirectories {disk : Disk} {path : ProjectPath} {text : String}
    (h : disk.lookup (path.child pomFile) = .file text) :
    disk.resolve path ∈ pomDirectories disk := by
  have hr : disk.resolve (path.child pomFile) = disk.resolve path ++ [pomFile] := by
    have ho : ProjectPath.ofText pomFile = ⟨"", [pomFile]⟩ := by decide +kernel
    have hs : disk.start ⟨path.anchor, path.names ++ [pomFile]⟩ = disk.start path := rfl
    have hw : ∀ location, Disk.walk location pomFile = location ++ [pomFile] := fun _ => rfl
    simp [ProjectPath.child, ho, ProjectPath.join, Disk.resolve, hs, hw]
  have hg := Disk.get?_of_lookup h
  rw [hr] at hg
  have hk := OrderedMap.mem_keys_of_get? hg
  simp only [pomDirectories, List.mem_map, List.mem_filter]
  exact ⟨_, ⟨hk, by simp⟩, by simp⟩

/-- Looks into the pending directories, given relative to the project.  Those that a module names
come before the ones that are already waiting. -/
def discover (disk : Disk) (project : ProjectPath) (visited : List Location)
    (pending : List String) :
    Discovery :=
  match pending with
  | [] => ⟨[], [], none⟩
  | directory :: rest =>
    let path := project.child directory
    let pom := path.child pomFile
    let location := disk.resolve path
    if location ∈ visited then discover disk project visited rest
    else match _h : disk.lookup pom with
      | .absent =>
        let later := discover disk project (location :: visited) rest
        { later with skipped := directory :: later.skipped }
      | .directory => ⟨[], [], some (.directory pom.text)⟩
      | .tooLong => ⟨[], [], some (.tooLong pom.text)⟩
      | .file text =>
        match LoadedModule.load directory text with
        | .error cause => ⟨[], [], some (.xml cause)⟩
        | .ok loaded =>
          let named := loaded.module.modules.map (relative directory)
          let later := discover disk project (location :: visited) (named ++ rest)
          { later with found := loaded :: later.found }
termination_by ((remaining (pomDirectories disk) visited).length, pending.length)
decreasing_by
  · exact lex_of_le (Nat.le_refl _) (by simp)
  · exact lex_of_le (length_remaining_cons_le ..) (by simp)
  · exact Prod.Lex.left _ _ (length_remaining_cons_lt (mem_pomDirectories ‹_›) ‹_›)

end ModuleDiscovery
end BuildAlign
