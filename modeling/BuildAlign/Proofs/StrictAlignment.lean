import BuildAlign.Proofs.DecisionSurvival
import BuildAlign.Proofs.ReactorEdits

/-! # What strict alignment lets through

The policy compares a new version with the one that the declaration stands for, after all references
are followed.  The edit is made elsewhere: at the last property of the chain, or at the declaration
if it is no reference.  The two never come apart.  What is edited is what the new version was
compared with, so in strict mode no edit puts a version where the policy does not accept it. -/
namespace BuildAlign.ModuleAlignment
open PropertyReferences

variable {settings : AlignmentSettings} {m : PomModule} {scope : PropertyScope} {d : Dependency}
  {r : AlignmentResult} {version decided name : String}

/-- The version of the first candidate for a dependency. -/
def candidateVersion? (settings : AlignmentSettings) (d : Dependency) : Option String :=
  (settings.candidates.find? fun c => c.ga = d.ga).map VersionReference.version

/-- The value of a property where a module's own properties come before inherited ones. -/
def valueIn (inherited : PropertyScope) (m : PomModule) (name : String) : Option String :=
  (m.properties.get? name).or ((inherited.get? name).map Definition.value)

/-- In strict mode, the candidate for the dependency may take the place of the current version. -/
structure Permitted (settings : AlignmentSettings) (d : Dependency) (version current : String) :
    Prop where
  candidate : candidateVersion? settings d = some version
  accepted : VersionPolicy.accepts true version current = true

theorem valueIn_eq (inherited : PropertyScope) (m : PomModule) (name : String) :
    valueIn inherited m name = ((inherited.define m).get? name).map Definition.value := by
  rw [InheritedProperties.get?_define, InheritedProperties.ownDefinition?, valueIn]
  cases m.properties.get? name <;> rfl

/-- Without exclusions, the candidate is decided on, and the policy has a say if the mode is
strict. -/
theorem decided?_of_no_exclusions (h : settings.exclusions = []) (m : PomModule)
    (reference : VersionReference) (d : Dependency) :
    decided? settings m reference d = some (reference.version, settings.strict) := by
  have hn : settings.exclusionFor d.ga m.ga = none := by simp [AlignmentSettings.exclusionFor, h]
  rw [decided?, hn]

/-- A version that is to change is compared with the new one. -/
theorem Changes.permitted {edited : Option String} (strict : settings.strict = true)
    (exclusions : settings.exclusions = []) (h : Changes settings m scope d edited decided) :
    ∃ version, d.version = some version ∧
      Permitted settings d decided (currentVersion scope version) := by
  obtain ⟨current, hv⟩ := h.decision
  obtain ⟨reference, version, mode, hc, hd, hcur, -, -, -, haccepts⟩ := change_spec hv
  rw [decided?_of_no_exclusions exclusions, strict] at hd
  cases hd
  have hm := hc.managed
  rw [get?_managed] at hm
  refine ⟨version, hc.declared, ?_, hcur ▸ haccepts rfl⟩
  rw [candidateVersion?, hm]
  rfl

/-- The property that is edited has the version that was compared. -/
theorem Changes.permitted_property (strict : settings.strict = true)
    (exclusions : settings.exclusions = [])
    (h : Changes settings m scope d (some name) decided) :
    ∃ definition, scope.get? name = some definition ∧
      Permitted settings d decided definition.value := by
  obtain ⟨version, hv, hp⟩ := h.permitted strict exclusions
  obtain ⟨version', definition, hv', hg, hcur⟩ := h.value_property
  cases hv.symm.trans hv'
  exact ⟨definition, hg, hcur ▸ hp⟩

/-- So does a declaration that is edited itself. -/
theorem Changes.permitted_literal (strict : settings.strict = true)
    (exclusions : settings.exclusions = [])
    (h : Changes settings m scope d none decided) :
    ∃ version, d.version = some version ∧ Permitted settings d decided version := by
  obtain ⟨version, hv, hp⟩ := h.permitted strict exclusions
  obtain ⟨version', hv', hcur⟩ := h.value_literal
  cases hv.symm.trans hv'
  exact ⟨version, hv, hcur ▸ hp⟩

/-- In strict mode, a property is only set to a version that is accepted for its value, and a
declaration only to one that is accepted for it.  These are all edits, and each of the versions is
that of the first candidate for a dependency of the module. -/
theorem strict_edits_are_permitted {injects : Bool} {inherited : PropertyScope}
    (strict : settings.strict = true) (exclusions : settings.exclusions = [])
    (format : settings.format = .literal) (located : Located (m.management ++ m.dependencies))
    (aligned : (align settings m injects inherited).1 = .ok r) :
    (∀ name version, r.updates.get? name = some version →
      ∃ d ∈ considered settings m, ∃ current, valueIn inherited m name = some current ∧
        Permitted settings d version current) ∧
    (∀ op ∈ r.operations, ∀ d ∈ m.management ++ m.dependencies, op.path = versionPath d →
      ∃ version declared, op.value = some version ∧ d.version = some declared ∧
        Permitted settings d version declared) ∧
    ∀ op ∈ r.operations,
      (∃ name, op.path = propertyPath name ∧ op.value = r.updates.get? name ∧ op.value.isSome) ∨
        ∃ d ∈ considered settings m, op.path = versionPath d := by
  have account := account_align aligned
  have hs := considered_sublist settings m
  refine ⟨fun name version hu => ?_, fun op hm d hd hp => ?_, fun op hm => ?_⟩
  · obtain ⟨-, d, hd, hc⟩ := account.posted name version hu
    obtain ⟨definition, hg, hp⟩ := hc.permitted_property strict exclusions
    exact ⟨d, hd, definition.value, by rw [valueIn_eq, hg, Option.map_some], hp⟩
  · rcases account.traced op hm with ⟨name, decided, -, rfl⟩ | ⟨e, he, decided, hc, rfl⟩
    · exact absurd hp.symm (located.apart d hd name)
    · obtain rfl := located.eq_of_path (hs.subset he) hd hp
      obtain ⟨declared, hv, hp⟩ := hc.permitted_literal strict exclusions
      exact ⟨decided, declared, congrArg some (literalValue_eq format e decided), hv, hp⟩
  · rcases account.traced op hm with ⟨name, decided, hu, rfl⟩ | ⟨e, he, decided, -, rfl⟩
    · exact .inl ⟨name, rfl, hu.symm, rfl⟩
    · exact .inr ⟨e, he, rfl⟩

/-- A chain of references, a literal version, and a version that no candidate extends. -/
def chained : PomModule where
  group := "g"
  artifact := "m"
  version := none
  parentGroup := none
  parentArtifact := none
  properties := .ofList [("v", "$\x7bw\x7d")]
  dependencies := [
    ⟨"g", "a", some "$\x7bv\x7d", "compile", none, some "dependencies/dependency[0]"⟩,
    ⟨"g", "c", some "3.0", "compile", none, some "dependencies/dependency[1]"⟩]
  management := [
    ⟨"g", "b", some "2.0", "compile", none, some "dependencyManagement/dependencies/dependency[0]"⟩]
  modules := []
  directory := some "child"

/-- The second candidate for `g:a` does not count. -/
def strictSettings : AlignmentSettings where
  candidates := [
    ⟨"g", "a", "1.0.redhat-1"⟩, ⟨"g", "b", "2.0-rebuild-1"⟩, ⟨"g", "c", "3.1"⟩, ⟨"g", "a", "9.9"⟩]
  overrideTransitive := true
  overrideDependencies := true
  strict := true
  violationFails := false
  format := .literal
  exclusions := []

/-- The property that the chain ends in. -/
def inheritedEnd : PropertyScope := .ofList [("w", ⟨"1.0", "pom.xml"⟩)]

def chainedResult : AlignmentResult where
  updates := .ofList [("w", "1.0.redhat-1")]
  operations := [
    ⟨"child/pom.xml", "dependencyManagement/dependencies/dependency[0]/version",
      some "2.0-rebuild-1"⟩,
    ⟨"pom.xml", "properties/w", some "1.0.redhat-1"⟩]
  newProperties := ∅
  injected := ∅
  warnings := ["g:c: '3.1' is not compatible with '3.0' in child/pom.xml"]

private theorem located_chained : Located (chained.management ++ chained.dependencies) := by
  refine ⟨by decide, fun d hd name => ?_⟩
  have hall : chained.management ++ chained.dependencies =
    [⟨"g", "b", some "2.0", "compile", none,
      some "dependencyManagement/dependencies/dependency[0]"⟩,
      ⟨"g", "a", some "$\x7bv\x7d", "compile", none, some "dependencies/dependency[0]"⟩,
      ⟨"g", "c", some "3.0", "compile", none, some "dependencies/dependency[1]"⟩] := rfl
  rw [hall] at hd
  simp only [List.mem_cons, List.not_mem_nil, or_false] at hd
  rcases hd with rfl | rfl | rfl <;> exact versionPath_ne_propertyPath rfl rfl name

theorem strict_edits_are_permitted_chained :
    Located (chained.management ++ chained.dependencies) ∧
    (align strictSettings chained false inheritedEnd).1 = .ok chainedResult ∧
    (∃ d ∈ considered strictSettings chained, ∃ current,
      valueIn inheritedEnd chained "w" = some current ∧
      Permitted strictSettings d "1.0.redhat-1" current) ∧
    ∀ op ∈ chainedResult.operations, ∀ d ∈ chained.management ++ chained.dependencies,
      op.path = versionPath d → ∃ version declared, op.value = some version ∧
        d.version = some declared ∧
        Permitted strictSettings d version declared := by
  have aligned : (align strictSettings chained false inheritedEnd).1 = .ok chainedResult := by
    decide +kernel
  obtain ⟨hupdates, hversions, -⟩ := strict_edits_are_permitted rfl rfl rfl located_chained aligned
  exact ⟨located_chained, aligned, hupdates "w" "1.0.redhat-1" (by decide), hversions⟩

end BuildAlign.ModuleAlignment
