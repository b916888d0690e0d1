import BuildAlign.Proofs.MergedResults
import BuildAlign.Proofs.NearestAncestors
import BuildAlign.Proofs.StrictAlignment

/-! # What alignment may edit

The parts of a result tell the same story.  The new versions of properties are those that the
operations give them, every other operation changes a literal version, and a version that becomes a
reference refers to a property that is to be added.  No place is edited twice and none gets the
value it has. -/
namespace BuildAlign.ModuleAlignment
open PropertyReferences PomModule

variable {settings : AlignmentSettings} {m : PomModule} {scope : PropertyScope} {d : Dependency}
  {r r' : AlignmentResult} {v : Verdict} {decided name : String}

section Places

/-- The POM that defines a property, where a module's own properties come before inherited ones. -/
def ownerIn? (inherited : PropertyScope) (m : PomModule) (name : String) : Option String :=
  ((m.properties.get? name).map fun _ => m.target).or ((inherited.get? name).map Definition.owner)

private theorem ownerIn?_eq (inherited : PropertyScope) (m : PomModule) (name : String) :
    ownerIn? inherited m name = ((inherited.define m).get? name).map Definition.owner := by
  rw [InheritedProperties.get?_define, InheritedProperties.ownDefinition?, ownerIn?]
  cases m.properties.get? name <;> rfl

private theorem ownerOf_eq {definition : Definition} (h : scope.get? name = some definition) :
    ownerOf m scope name = definition.owner := by
  rw [ownerOf, h]
  rfl

private theorem nodup_places_append {ops : List Operation}
    (h : (ops.map Operation.place).Nodup) {op : Operation}
    (fresh : ∀ o ∈ ops, o.path ≠ op.path) : ((ops ++ [op]).map Operation.place).Nodup := by
  rw [List.map_append, List.map_singleton]
  refine List.nodup_append.2 ⟨h, List.nodup_singleton _, fun place hp other ho he => ?_⟩
  obtain ⟨o, hm, rfl⟩ := List.mem_map.1 hp
  rw [List.mem_singleton.1 ho] at he
  exact fresh o hm (congrArg Prod.snd he)

/-- A step edits a place that has not been edited before. -/
theorem Recorded.nodup_places {done : List Dependency} (h : Recorded settings m scope d r v r')
    (account : Account settings m scope done r) (located : Located (done ++ [d]))
    (hn : (r.operations.map Operation.place).Nodup) :
    (r'.operations.map Operation.place).Nodup := by
  have before : Located done := located.sublist (List.sublist_append_left done [d])
  cases h with
  | property edited fresh =>
    refine nodup_places_append hn fun o ho hp => ?_
    obtain ⟨decided, hu, -⟩ := account.propertyEdit_of_path before.apart ho hp
    rw [fresh] at hu
    cases hu
  | literal edited =>
    rw [changeLiteral_operations]
    refine nodup_places_append hn fun o ho hp => ?_
    rcases account.traced o ho with ⟨name, decided, -, rfl⟩ | ⟨e, he, decided, -, rfl⟩
    · exact located.apart d (List.mem_append_right _ List.mem_cons_self) name hp.symm
    · -- The dependency has not been gone through, so no other one has its location.
      have hdistinct := located.distinct
      rw [List.map_append, List.nodup_append] at hdistinct
      exact hdistinct.2.2 _ (List.mem_map_of_mem he) _ List.mem_cons_self (versionPath_injective hp)
  | _ => exact hn

/-- An account of operations that are of different places, as far as the dependencies have different
locations. -/
structure Separate (settings : AlignmentSettings) (m : PomModule) (scope : PropertyScope)
    (done : List Dependency)
    (r : AlignmentResult) : Prop where
  account : Account settings m scope done r
  distinct : Located done → (r.operations.map Operation.place).Nodup

theorem Separate.step {done : List Dependency} (h : Separate settings m scope done r)
    (hr : Recorded settings m scope d r (verdict settings m scope d) r') :
    Separate settings m scope (done ++ [d]) r' :=
  ⟨h.account.step hr, fun located => hr.nodup_places h.account located
    (h.distinct (located.sublist (List.sublist_append_left done [d])))⟩

theorem Separate.inject {done : List Dependency} (h : Separate settings m scope done r) :
    Separate settings m scope done (inject settings m r) := by
  refine ⟨h.account.congr (inject_updates ..) (inject_operations ..) (inject_warnings ..),
    fun located => ?_⟩
  rw [inject_operations]
  exact h.distinct located

private theorem separate_align {injects : Bool} {inherited : PropertyScope}
    (h : (align settings m injects inherited).1 = .ok r) :
    Separate settings m (inherited.define m) (considered settings m) r :=
  align_induction (Separate settings m (inherited.define m)) ⟨account_nil, fun _ => List.nodup_nil⟩
    (fun _ _ _ _ _ hi hr => hi.step hr) (fun _ _ hi => hi.inject) h

end Places

section Values

/-- The version that is decided on is not the one that the dependency has. -/
theorem Changes.differs {edited : Option String} (h : Changes settings m scope d edited decided) :
    ∃ version, d.version = some version ∧
      mentionsReference (currentVersion scope version).toList = false ∧
      currentVersion scope version ≠ decided := by
  obtain ⟨current, hv⟩ := h.decision
  obtain ⟨reference, version, strict, hc, -, rfl, hm, -, hne, -⟩ := change_spec hv
  exact ⟨version, hc.declared, hm, hne⟩

/-- A property is not set to the value that it has. -/
theorem Changes.property_differs (h : Changes settings m scope d (some name) decided) :
    ∃ definition, scope.get? name = some definition ∧ definition.value ≠ decided := by
  obtain ⟨version, hv, -, hne⟩ := h.differs
  obtain ⟨version', definition, hv', hg, hcur⟩ := h.value_property
  cases hv.symm.trans hv'
  exact ⟨definition, hg, hcur ▸ hne⟩

/-- A declaration that is edited itself mentions no property, and is not set to the version that it
has. -/
theorem Changes.literal_differs (h : Changes settings m scope d none decided) :
    ∃ version, d.version = some version ∧ mentionsReference version.toList = false ∧
      version ≠ decided := by
  obtain ⟨version, hv, hm, hne⟩ := h.differs
  obtain ⟨version', hv', hcur⟩ := h.value_literal
  cases hv.symm.trans hv'
  rw [hcur] at hm hne
  exact ⟨version, hv, hm, hne⟩

private theorem mentionsReference_reference (name : String) :
    mentionsReference ("$\x7b" ++ name ++ "\x7d").toList = true := by
  simp [mentionsReference]

private theorem literalValue_ne {version : String} (hm : mentionsReference version.toList = false)
    (hne : version ≠ decided) :
    literalValue settings d decided ≠ version := by
  unfold literalValue
  split
  · exact hne.symm
  · next name _ =>
    rintro rfl
    rw [mentionsReference_reference] at hm
    cases hm

end Values

section Consistency

/-- The operation gives a property the new version that is reported, in the POM that defines it. -/
structure SetsProperty (inherited : PropertyScope) (m : PomModule)
    (r : AlignmentResult) (op : Operation)
    (name : String) : Prop where
  owner : ownerIn? inherited m name = some op.target
  path : op.path = propertyPath name
  reported : ∃ version, op.value = some version ∧ r.updates.get? name = some version
  changes : ∃ current, valueIn inherited m name = some current ∧ op.value ≠ some current

/-- The operation changes the literal version of a dependency. -/
structure SetsVersion (settings : AlignmentSettings) (m : PomModule)
    (r : AlignmentResult) (op : Operation)
    (d : Dependency) : Prop where
  target : op.target = m.target
  path : op.path = versionPath d
  literal : ∃ current, d.version = some current ∧ mentionsReference current.toList = false ∧
    op.value ≠ some current
  /-- A version that becomes a reference refers to a property that is to be added. -/
  referred : settings.format ≠ .literal →
    ∃ name version, op.value = some ("$\x7b" ++ name ++ "\x7d") ∧
    newValue? r m.target name = some version

/-- How the parts of a result hang together, and which operations there may be. -/
structure Consistent (settings : AlignmentSettings) (m : PomModule) (inherited : PropertyScope)
    (r : AlignmentResult) : Prop where
  /-- No place is edited twice. -/
  distinct : (r.operations.map Operation.place).Nodup
  reported : ∀ name version, r.updates.get? name = some version ↔
    ∃ owner, ownerIn? inherited m name = some owner ∧
      ⟨owner, propertyPath name, some version⟩ ∈ r.operations
  permitted : ∀ op ∈ r.operations, (∃ name, SetsProperty inherited m r op name) ∨
    ∃ d ∈ considered settings m, SetsVersion settings m r op d
  /-- Direct dependencies are left alone unless asked for. -/
  managedOnly : settings.overrideDependencies = false →
    ∀ op ∈ r.operations, ¬ "dependencies/".toList <+: op.path.toList

private theorem not_direct_propertyPath (name : String) :
    ¬ "dependencies/".toList <+: (propertyPath name).toList := by
  simp [propertyPath]

private theorem not_direct_versionPath {i : Nat}
    (h : d.location = some (locationIn managedPath i)) :
    ¬ "dependencies/".toList <+: (versionPath d).toList := by
  simp [versionPath, h, optionText, locationIn, managedPath]

variable {injects : Bool} {inherited : PropertyScope}

private theorem setsProperty_of_posted
    (account : Account settings m (inherited.define m) (considered settings m) r)
    {version : String} (hu : r.updates.get? name = some version) :
    SetsProperty inherited m r (propertyEdit m (inherited.define m) name version) name := by
  obtain ⟨-, d, -, hc⟩ := account.posted name version hu
  obtain ⟨definition, hg, hne⟩ := hc.property_differs
  have howner : ownerIn? inherited m name = some (ownerOf m (inherited.define m) name) := by
    rw [ownerIn?_eq, hg, ownerOf_eq hg, Option.map_some]
  have hvalue : valueIn inherited m name = some definition.value := by
    rw [valueIn_eq, hg, Option.map_some]
  exact ⟨howner, rfl, ⟨version, rfl, hu⟩, definition.value, hvalue,
    fun he => hne (Option.some.inj he).symm⟩

private theorem setsVersion_of_changes
    (introduced : Introduced settings m scope (considered settings m) r)
    (hd : d ∈ considered settings m) (hc : Changes settings m scope d none decided) :
    SetsVersion settings m r (literalEdit settings m d decided) d := by
  obtain ⟨version, hv, hm, hne⟩ := hc.literal_differs
  refine ⟨rfl, rfl,
    ⟨version, hv, hm, fun he => literalValue_ne hm hne (Option.some.inj he)⟩, fun hf => ?_⟩
  obtain ⟨name, hn⟩ : ∃ name, settings.format.propertyName? d.group d.artifact = some name := by
    cases hformat : settings.format with
    | literal => exact absurd hformat hf
    | byGroup => exact ⟨_, rfl⟩
    | byArtifact => exact ⟨_, rfl⟩
  obtain ⟨current, hverdict⟩ := hc.decision
  obtain ⟨new, hnew⟩ :=
    introduced.exists_newValue hd ((replacement?_of_change hverdict hc.edited).trans hn)
  exact ⟨name, new, by simp only [literalEdit, literalValue, hn], hnew⟩

/-- What is written down about a module that was read is consistent. -/
theorem edits_are_consistent (read : ReadLocations m)
    (aligned : (align settings m injects inherited).1 = .ok r) :
    Consistent settings m inherited r := by
  obtain ⟨account, distinct⟩ := separate_align aligned
  have located := read.located.sublist (considered_sublist settings m)
  refine ⟨distinct located, fun name version => ⟨fun hu => ?_, ?_⟩,
    fun op hm => ?_, fun hf op hm => ?_⟩
  · have hs := setsProperty_of_posted account hu
    exact ⟨_, hs.owner, (account.posted name version hu).1⟩
  · rintro ⟨owner, -, hm⟩
    obtain ⟨decided, hu, he⟩ := account.propertyEdit_of_path located.apart hm rfl
    cases he
    exact hu
  · rcases account.traced op hm with ⟨name, version, hu, rfl⟩ | ⟨d, hd, decided, hc, rfl⟩
    · exact .inl ⟨name, setsProperty_of_posted account hu⟩
    · exact .inr ⟨d, hd, setsVersion_of_changes (introduced_align aligned) hd hc⟩
  · rcases account.traced op hm with ⟨name, version, -, rfl⟩ | ⟨d, hd, decided, -, rfl⟩
    · exact not_direct_propertyPath name
    · rw [considered, hf, if_neg Bool.false_ne_true, List.append_nil] at hd
      obtain ⟨i, hi⟩ := read.managed d hd
      exact not_direct_versionPath hi

/-- A property of its own, a literal version, a property that is inherited, and a direct
dependency. -/
def mixedVersions : PomModule where
  group := "g"
  artifact := "m"
  version := none
  parentGroup := none
  parentArtifact := none
  properties := .ofList [("v", "1.0")]
  dependencies := [⟨"g", "d", some "1.0", "compile", none, some "dependencies/dependency[0]"⟩]
  management := [
    ⟨"g", "a", some "${v}", "compile", none,
      some "dependencyManagement/dependencies/dependency[0]"⟩,
    ⟨"g", "b", some "1.0", "compile", none, some "dependencyManagement/dependencies/dependency[1]"⟩,
    ⟨"g", "c", some "${w}", "compile", none,
      some "dependencyManagement/dependencies/dependency[2]"⟩]
  modules := []
  directory := some "child"

/-- New versions for all of them, and properties for the literal ones, while direct dependencies are
left alone. -/
def managedByGroup : AlignmentSettings where
  candidates := [⟨"g", "a", "2.0"⟩, ⟨"g", "b", "3.0"⟩, ⟨"g", "c", "4.0"⟩, ⟨"g", "d", "5.0"⟩]
  overrideTransitive := true
  overrideDependencies := false
  strict := false
  violationFails := false
  format := .byGroup
  exclusions := []

def mixedResult : AlignmentResult where
  updates := .ofList [("v", "2.0"), ("w", "4.0")]
  operations := [
    ⟨"child/pom.xml", "properties/v", some "2.0"⟩,
    ⟨"child/pom.xml",
      "dependencyManagement/dependencies/dependency[1]/version", some "${version.g}"⟩,
    ⟨"pom.xml", "properties/w", some "4.0"⟩]
  newProperties := .ofList [("child/pom.xml", .ofList [("version.g", "3.0")])]
  injected := ∅
  warnings := []

private theorem readLocations_mixedVersions : ReadLocations mixedVersions := by
  refine ⟨?_, ?_, by decide⟩
  · simp only [mixedVersions, List.forall_mem_cons]
    exact ⟨⟨0, by decide⟩, ⟨1, by decide⟩, ⟨2, by decide⟩, nofun⟩
  · simp only [mixedVersions, List.forall_mem_cons]
    exact ⟨⟨0, by decide⟩, nofun⟩

theorem edits_are_consistent_mixed :
    ReadLocations mixedVersions ∧
    (align managedByGroup mixedVersions false inheritedEnd).1 = .ok mixedResult ∧
    Consistent managedByGroup mixedVersions inheritedEnd mixedResult := by
  have aligned : (align managedByGroup mixedVersions false inheritedEnd).1 = .ok mixedResult := by
    decide +kernel
  exact ⟨readLocations_mixedVersions, aligned,
    edits_are_consistent readLocations_mixedVersions aligned⟩

end Consistency

end BuildAlign.ModuleAlignment
