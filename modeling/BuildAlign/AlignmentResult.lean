import BuildAlign.EditOperation
import BuildAlign.OrderedMap
import BuildAlign.MessageTexts
import BuildAlign.PomElements

/-! # Results of alignment and how they are merged

The first decision about a property or an element wins, later ones are reported, and an edit that is
decided on twice is kept once. -/
namespace BuildAlign

structure AlignmentResult where
  /-- The properties that hold versions, with their new versions. -/
  updates : OrderedMap String String
  operations : List Operation
  /-- The properties to be added to each POM. -/
  newProperties : OrderedMap String (OrderedMap String String)
  /-- The entries to be added to the dependency management of each POM. -/
  injected : OrderedMap String (List ManagedEntry)
  warnings : List String
deriving DecidableEq

namespace AlignmentResult

def empty : AlignmentResult := ⟨∅, [], ∅, ∅, []⟩
instance : EmptyCollection AlignmentResult := ⟨empty⟩
instance : Inhabited AlignmentResult := ⟨empty⟩

def warn (r : AlignmentResult) (message : String) : AlignmentResult :=
  { r with warnings := r.warnings ++ [message] }

def hasChanges (r : AlignmentResult) : Bool :=
  !(r.operations.isEmpty && r.newProperties.isEmpty && r.injected.isEmpty)

def mergeUpdate (r : AlignmentResult) (name version : String) : AlignmentResult :=
  match r.updates.get? name with
  | none => { r with updates := r.updates.insert name version }
  | some previous =>
    if previous = version then r
    else r.warn
      s!"Property '{name}' aligned to both '{previous}' and '{version}'; keeping '{previous}'"

/-- The edit of the same element that is already there. -/
def rival? (operations : List Operation) (op : Operation) : Option Operation :=
  operations.reverse.find? fun o => o.target = op.target && o.path = op.path

def mergeOperation (r : AlignmentResult) (op : Operation) : AlignmentResult :=
  match rival? r.operations op with
  | none => { r with operations := r.operations ++ [op] }
  | some rival =>
    if rival.value = op.value then r
    else r.warn
      s!"Conflicting edit of {op.path} in {op.target}: keeping '{optionText rival.value}'"

def mergeProperties (r : AlignmentResult) (target : String) (props : OrderedMap String String) :
    AlignmentResult :=
  let known := (r.newProperties.get? target).getD ∅
  { r with newProperties := r.newProperties.insert target (known.insertAll props.entries) }

def mergeInjected (r : AlignmentResult) (target : String) (entries : List ManagedEntry) :
    AlignmentResult :=
  let known := (r.injected.get? target).getD []
  { r with injected := r.injected.insert target (known ++ entries) }

def merge (r s : AlignmentResult) : AlignmentResult :=
  let r := { r with warnings := r.warnings ++ s.warnings }
  let r := s.updates.entries.foldl (fun r (name, version) => r.mergeUpdate name version) r
  let r := s.operations.foldl mergeOperation r
  let r := s.newProperties.entries.foldl (fun r (target, props) => r.mergeProperties target props) r
  s.injected.entries.foldl (fun r (target, entries) => r.mergeInjected target entries) r

end AlignmentResult
end BuildAlign
