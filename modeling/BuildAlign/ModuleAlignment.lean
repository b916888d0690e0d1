import BuildAlign.AlignmentResult
import BuildAlign.AlignmentSettings
import BuildAlign.InheritedProperties
import BuildAlign.PropertyReferences
import BuildAlign.VersionPolicy

/-! # Alignment of one module

For every dependency of a module it is decided, from the settings and the properties in scope alone,
what is to become of its version.  The decisions are then written down as edits, in the order of the
dependencies: a version that is a reference is changed in the property that holds it, and a literal
one in its element. -/
namespace BuildAlign

/-- What is to become of the version of a dependency. -/
inductive Verdict
  /-- No candidate is for it, or it has no version of its own. -/
  | unmanaged
  | imported
  | excluded
  | unresolved (version : String)
  | upToDate
  | incompatible (decided current : String)
  | change (decided current : String)
deriving DecidableEq, Repr

namespace ModuleAlignment
open PropertyReferences

/-- Whether the text refers to a property that is not in scope. -/
def refersOutside (scope : PropertyScope) (text : String) : Bool :=
  (resolveName scope.values text).any fun name => !scope.contains name

/-- The version decided on, and whether the policy has a say; `none` when the dependency is
excluded. -/
def decided? (settings : AlignmentSettings) (m : PomModule) (reference : VersionReference)
    (d : Dependency) : Option (String × Bool) :=
  match settings.exclusionFor d.ga m.ga with
  | none => some (reference.version, settings.strict)
  | some exclusion => if exclusion.version = "" then none else some (exclusion.version, false)

def verdict (settings : AlignmentSettings) (m : PomModule)
    (scope : PropertyScope) (d : Dependency) :
    Verdict :=
  match settings.managed.get? d.ga, d.version with
  | none, _ | _, none | _, some "" => .unmanaged
  | some reference, some version =>
    if d.isImport then .imported
    else match decided? settings m reference d with
      | none => .excluded
      | some (decided, strict) =>
        let current := (resolve scope.values version).getD version
        if mentionsReference current.toList || refersOutside scope version then .unresolved version
        else if current = decided then .upToDate
        else if strict && !VersionPolicy.accepts true decided
          current then .incompatible decided current
        else .change decided current

/-- Notes an edit of the element of a dependency. -/
def editVersion (m : PomModule) (d : Dependency) (value : String) (r : AlignmentResult) :
    AlignmentResult :=
  let path := s!"{optionText d.location}/version"
  { r with operations := r.operations ++ [⟨m.target, path, some value⟩] }

/-- Notes the new version of a property, unless it already has another one. -/
def changeProperty (d : Dependency) (name owner decided : String) (r : AlignmentResult) :
    AlignmentResult × PassLog :=
  match r.updates.get? name with
  | some previous =>
    if previous = decided then (r, [])
    else
      let message := s!"Property '{name}' is shared by dependencies aligned to different versions "
        ++ s!"('{previous}' and '{decided}' for {d.ga}); keeping '{previous}'"
      (r.warn message, warned message)
  | none =>
    ({ r with
        updates := r.updates.insert name decided
        operations := r.operations ++ [⟨owner, s!"properties/{name}", some decided⟩] }, [])

/-- Notes the new version of a dependency whose version is literal. -/
def changeLiteral (settings : AlignmentSettings) (m : PomModule) (d : Dependency) (decided : String)
    (r : AlignmentResult) : AlignmentResult :=
  match settings.format.propertyName? d.group d.artifact with
  | none => editVersion m d decided r
  | some name =>
    let known := (r.newProperties.get? m.target).getD ∅
    { editVersion m d ("$\x7b" ++ name ++ "\x7d") r with
      newProperties := r.newProperties.insert m.target (known.insert name decided) }

def changeVersion (settings : AlignmentSettings) (m : PomModule) (scope : PropertyScope)
    (d : Dependency) (decided : String) (r : AlignmentResult) : AlignmentResult × PassLog :=
  match d.version.bind (resolveName scope.values) with
  | some name =>
    let owner := ((scope.get? name).map Definition.owner).getD m.target
    changeProperty d name owner decided r
  | none => (changeLiteral settings m d decided r, [])

/-- Writes down what was decided about a dependency. -/
def record (settings : AlignmentSettings) (m : PomModule) (scope : PropertyScope) (d : Dependency)
    (r : AlignmentResult) : Verdict → AlignmentResult × PassLog
  | .unmanaged | .upToDate => (r, [])
  | .imported => (r, [⟨.debug, s!"Skipping BOM import {d.ga} in {m.target}"⟩])
  | .excluded => (r, [⟨.debug, s!"Excluded {d.ga} from alignment in {m.ga}"⟩])
  | .unresolved version =>
    let message := s!"{d.ga}: cannot resolve version '{version}' in {m.target}; not aligning"
    (r.warn message, warned message)
  | .incompatible decided current =>
    (r.warn s!"{d.ga}: '{decided}' is not compatible with '{current}' in {m.target}",
      PolicyViolation.warning ⟨decided, current, some d.ga⟩)
  | .change decided current =>
    let (r, log) := changeVersion settings m scope d decided r
    (r, ⟨.info, s!"Aligning {d.ga} in {m.target}: {current} -> {decided}"⟩ :: log)

/-- The violation that a verdict is, when violations are fatal. -/
def violation? (settings : AlignmentSettings) (d : Dependency) : Verdict → Option PolicyViolation
  | .incompatible decided current =>
    if settings.violationFails then some ⟨decided, current, some d.ga⟩ else none
  | _ => none

/-- The dependencies that are aligned: the managed ones first, direct ones only if asked for. -/
def considered (settings : AlignmentSettings) (m : PomModule) : List Dependency :=
  m.management ++ if settings.overrideDependencies then m.dependencies else []

/-- Decides on dependencies one after the other, up to the first fatal violation. -/
def alignAll (settings : AlignmentSettings) (m : PomModule) (scope : PropertyScope) :
    List Dependency → AlignmentResult → Except PolicyViolation AlignmentResult × PassLog
  | [], r => (.ok r, [])
  | d :: ds, r =>
    let v := verdict settings m scope d
    match violation? settings d v with
    | some violation => (.error violation, [])
    | none =>
      let (r, log) := record settings m scope d r v
      let (outcome, rest) := alignAll settings m scope ds r
      (outcome, log ++ rest)

/-- The candidates for dependencies that the module does not declare. -/
def undeclared (settings : AlignmentSettings) (m : PomModule) : List ManagedEntry :=
  let declared := (considered settings m).map Dependency.ga
  (settings.managed.entries.filter fun (ga, _) => !declared.contains ga).map fun (_, reference) =>
    ⟨reference.group, reference.artifact, some reference.version⟩

def inject (settings : AlignmentSettings) (m : PomModule) (r : AlignmentResult) : AlignmentResult :=
  match undeclared settings m with
  | [] => r
  | entries => { r with injected := r.injected.insert m.target entries }

/-- The edits that align a module.  `injects` tells whether it receives the candidates it does not
declare, and `inherited` are the properties of its parents. -/
def align (settings : AlignmentSettings) (m : PomModule) (injects : Bool)
    (inherited : PropertyScope) :
    Except PolicyViolation AlignmentResult × PassLog :=
  if !settings.isEnabled then (.ok ∅, [])
  else
    let (outcome, log) := alignAll settings m (inherited.define m) (considered settings m) ∅
    (outcome.map fun r => if injects &&
      settings.overrideTransitive then inject settings m r else r, log)

end ModuleAlignment
end BuildAlign
