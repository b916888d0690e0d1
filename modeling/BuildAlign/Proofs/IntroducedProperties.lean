import BuildAlign.Proofs.AlignmentAccount

/-! # Properties that take the place of literal versions

A literal version may become a reference to a new property, which is named for the group of the
dependency or for group and artifact.  Different dependencies may come to the same name.  The
property then has the version that was decided on for the last of them, and nothing is said about
the others. -/
namespace BuildAlign.ModuleAlignment

variable {settings : AlignmentSettings} {m : PomModule} {scope : PropertyScope} {d : Dependency}
  {r r' : AlignmentResult} {v : Verdict}

/-- The version decided on for a dependency: that of its exclusion unless it is empty, else that of
its candidate. -/
def decidedVersion? (settings : AlignmentSettings) (m : PomModule)
    (d : Dependency) : Option String :=
  match (settings.exclusionFor d.ga m.ga).map Exclusion.version with
  | none | some "" => (settings.managed.get? d.ga).map VersionReference.version
  | some version => some version

/-- The new property that takes the place of a literal version. -/
def replacement? (settings : AlignmentSettings) (m : PomModule)
    (scope : PropertyScope) (d : Dependency) :
    Option String :=
  match verdict settings m scope d, editedName? scope d with
  | .change .., none => settings.format.propertyName? d.group d.artifact
  | _, _ => none

/-- The dependencies whose versions become references to the same new property, in their order. -/
def sharing (settings : AlignmentSettings) (m : PomModule) (scope : PropertyScope) (name : String)
    (deps : List Dependency) : List Dependency :=
  deps.filter fun d => replacement? settings m scope d = some name

/-- The value of a property that is to be added to a POM. -/
def newValue? (r : AlignmentResult) (target name : String) : Option String :=
  (r.newProperties.get? target).bind fun properties => properties.get? name

section Decided

private theorem decidedVersion?_of_change {decided current : String}
    (h : verdict settings m scope d = .change decided current) :
    decidedVersion? settings m d = some decided := by
  obtain ⟨reference, version, strict, hc, hd, -⟩ := change_spec h
  unfold decided? at hd
  unfold decidedVersion?
  split at hd
  · next he =>
    cases hd
    simp only [he, hc.managed, Option.map_some, Option.map_none]
  · next exclusion he =>
    split at hd
    · cases hd
    · next hne =>
      cases hd
      simp only [he, Option.map_some]

theorem replacement?_of_change {decided current : String}
    (h : verdict settings m scope d = .change decided current) (he : editedName? scope d = none) :
    replacement? settings m scope d = settings.format.propertyName? d.group d.artifact := by
  simp only [replacement?, h, he]

/-- A new property is only introduced for a literal version that is to change. -/
theorem change_of_replacement? {name : String} (h : replacement? settings m scope d = some name) :
    ∃ decided current, verdict settings m scope d = .change decided current ∧
      editedName? scope d = none ∧
        settings.format.propertyName? d.group d.artifact = some name := by
  unfold replacement? at h
  split at h
  · next decided current hv he => exact ⟨decided, current, hv, he, h⟩
  · cases h

end Decided

section Steps

theorem changeLiteral_newValue? (settings : AlignmentSettings) (m : PomModule) (d : Dependency)
    (decided : String) (r : AlignmentResult) (name : String) :
    newValue? (changeLiteral settings m d decided r) m.target name =
      if settings.format.propertyName? d.group d.artifact = some name then some decided
      else newValue? r m.target name := by
  unfold changeLiteral
  cases settings.format.propertyName? d.group d.artifact with
  | none => rfl
  | some introduced =>
    by_cases hn : introduced = name
    · simp [newValue?, hn]
    · cases hk : r.newProperties.get? m.target <;> simp [newValue?, hn, hk]

/-- A step sets the new property of its dependency, if there is one, and leaves all others. -/
theorem Recorded.newValue?_eq (h : Recorded settings m scope d r v r')
    (hv : verdict settings m scope d = v) (name : String) :
    newValue? r' m.target name =
      if replacement? settings m scope d = some name then decidedVersion? settings m d
      else newValue? r m.target name := by
  have hkept : replacement? settings m scope d = none → newValue? r m.target name =
      if replacement? settings m scope d = some name then decidedVersion? settings m d
      else newValue? r m.target name := fun hn => by simp [hn]
  have hedited : ∀ {edited : String}, editedName? scope d = some edited →
      replacement? settings m scope d = none := fun he => by simp [replacement?, he]
  cases h with
  | untouched alone =>
    refine hkept ?_
    cases v with
    | change decided current => exact alone.elim
    | _ => simp [replacement?, hv]
  | unresolved version message => exact hkept (by simp [replacement?, hv])
  | incompatible decided current message => exact hkept (by simp [replacement?, hv])
  | agreed edited known => exact hkept (hedited edited)
  | conflict message edited known differs => exact hkept (hedited edited)
  | property edited fresh => exact hkept (hedited edited)
  | literal edited =>
    rw [changeLiteral_newValue?, replacement?_of_change hv edited, decidedVersion?_of_change hv]

/-- The references and the new properties of a result, for the dependencies that were gone
through. -/
structure Introduced (settings : AlignmentSettings) (m : PomModule) (scope : PropertyScope)
    (done : List Dependency) (r : AlignmentResult) : Prop where
  /-- The versions that become references are edited. -/
  referred : ∀ name, ∀ d ∈ sharing settings m scope name done,
    ⟨m.target, versionPath d, some ("$\x7b" ++ name ++ "\x7d")⟩ ∈ r.operations
  /-- A new property has the version of the last dependency that refers to it. -/
  latest : ∀ name, newValue? r m.target name =
    (sharing settings m scope name done).getLast?.bind (decidedVersion? settings m)

private theorem introduced_nil : Introduced settings m scope [] ∅ :=
  ⟨fun _ _ hm => absurd hm List.not_mem_nil, fun _ => rfl⟩

private theorem sharing_append (name : String) (done : List Dependency) (d : Dependency) :
    sharing settings m scope name (done ++ [d]) = sharing settings m scope name done ++
      if replacement? settings m scope d = some name then [d] else [] := by
  simp [sharing, List.filter_append, List.filter_singleton]

/-- The edit of a version that becomes a reference is written down. -/
theorem Recorded.mem_operations (h : Recorded settings m scope d r v r')
    (hv : verdict settings m scope d = v) {name : String}
    (hn : replacement? settings m scope d = some name) :
    ⟨m.target, versionPath d, some ("$\x7b" ++ name ++ "\x7d")⟩ ∈ r'.operations := by
  obtain ⟨decided, current, hc, he, hp⟩ := change_of_replacement? hn
  obtain rfl := hv.symm.trans hc
  cases h with
  | untouched alone => exact alone.elim
  | agreed edited known => rw [he] at edited; cases edited
  | conflict message edited known differs => rw [he] at edited; cases edited
  | property edited fresh => rw [he] at edited; cases edited
  | literal edited =>
    have hl : literalEdit settings m d decided =
        ⟨m.target, versionPath d, some ("$\x7b" ++ name ++ "\x7d")⟩ := by
      simp only [literalEdit, literalValue, hp]
    rw [changeLiteral_operations, hl]
    exact List.mem_append_right _ List.mem_cons_self

theorem Introduced.step {done : List Dependency} (h : Introduced settings m scope done r)
    (hr : Recorded settings m scope d r (verdict settings m scope d) r') :
    Introduced settings m scope (done ++ [d]) r' := by
  constructor
  · intro name e he
    rw [sharing_append] at he
    rcases List.mem_append.1 he with he | he
    · exact hr.grows.operations _ (h.referred name e he)
    · split at he
      · next hn =>
        rw [List.mem_singleton.1 he]
        exact hr.mem_operations rfl hn
      · cases he
  · intro name
    rw [hr.newValue?_eq rfl, sharing_append]
    split
    · simp
    · rw [List.append_nil]
      exact h.latest name

theorem Introduced.inject {done : List Dependency} (h : Introduced settings m scope done r) :
    Introduced settings m scope done (inject settings m r) := by
  have hn : (ModuleAlignment.inject settings m r).newProperties = r.newProperties := by
    unfold ModuleAlignment.inject
    split <;> rfl
  constructor
  · intro name d hd
    rw [inject_operations]
    exact h.referred name d hd
  · intro name
    rw [newValue?, hn]
    exact h.latest name

theorem introduced_align {injects : Bool} {inherited : PropertyScope}
    (h : (align settings m injects inherited).1 = .ok r) :
    Introduced settings m (inherited.define m) (considered settings m) r :=
  align_induction (Introduced settings m (inherited.define m)) introduced_nil
    (fun _ _ _ _ _ hi hr => hi.step hr) (fun _ _ hi => hi.inject) h

/-- A version is decided on for every dependency that refers to a new property. -/
theorem decided_of_sharing {name : String} {deps : List Dependency}
    (h : d ∈ sharing settings m scope name deps) :
    ∃ decided, decidedVersion? settings m d = some decided := by
  obtain ⟨-, hn⟩ := List.mem_filter.1 h
  obtain ⟨decided, current, hv, -⟩ := change_of_replacement? (of_decide_eq_true hn)
  exact ⟨decided, decidedVersion?_of_change hv⟩

/-- A new property that is referred to has a version. -/
theorem Introduced.exists_newValue {done : List Dependency} (h : Introduced settings m scope done r)
    (hd : d ∈ done) {name : String} (hn : replacement? settings m scope d = some name) :
    ∃ version, newValue? r m.target name = some version := by
  have hm : d ∈ sharing settings m scope name done := List.mem_filter.2 ⟨hd, decide_eq_true hn⟩
  have hne := List.ne_nil_of_mem hm
  obtain ⟨decided, hv⟩ := decided_of_sharing (List.getLast_mem hne)
  exact ⟨decided, by rw [h.latest, List.getLast?_eq_some_getLast hne, Option.bind_some, hv]⟩

end Steps

/-- Every version that becomes a reference is edited, and the property it refers to has the version
decided on for the last dependency that refers to it.  So it has the right version for all of them
if and only if the same version was decided on for all. -/
theorem introduced_property_has_last_version {injects : Bool} {inherited : PropertyScope}
    (aligned : (align settings m injects inherited).1 = .ok r) :
    ∀ name, let deps := sharing settings m (inherited.define m) name (considered settings m)
      (∀ d ∈ deps, ⟨m.target, versionPath d, some ("$\x7b" ++ name ++ "\x7d")⟩ ∈ r.operations ∧
        (decidedVersion? settings m d).isSome) ∧
      newValue? r m.target name = deps.getLast?.bind (decidedVersion? settings m) ∧
      ((∀ d ∈ deps, newValue? r m.target name = decidedVersion? settings m d) ↔
        ∀ d ∈ deps, ∀ e ∈ deps, decidedVersion? settings m d = decidedVersion? settings m e) := by
  have h := align_induction (Introduced settings m (inherited.define m)) introduced_nil
    (fun _ _ _ _ _ hi hr => hi.step hr) (fun _ _ hi => hi.inject) aligned
  intro name deps
  have hlatest : newValue? r m.target name = deps.getLast?.bind (decidedVersion? settings m) :=
    h.latest name
  refine ⟨fun d hd => ⟨h.referred name d hd, ?_⟩, hlatest, ?_⟩
  · obtain ⟨-, hn⟩ := List.mem_filter.1 hd
    obtain ⟨decided, current, hv, -⟩ := change_of_replacement? (of_decide_eq_true hn)
    rw [decidedVersion?_of_change hv]
    rfl
  · constructor
    · intro hall d hd e he
      exact (hall d hd).symm.trans (hall e he)
    · intro hall d hd
      have hne := List.ne_nil_of_mem hd
      rw [hlatest, List.getLast?_eq_some_getLast hne]
      exact hall _ (List.getLast_mem hne) d hd

/-- Two literal versions in one group, and a third one outside of it. -/
def sameGroup : PomModule where
  group := "g"
  artifact := "m"
  version := none
  parentGroup := none
  parentArtifact := none
  properties := ∅
  dependencies := [
    ⟨"g", "a", some "1.0", "compile", none, some "dependencies/dependency[0]"⟩,
    ⟨"g", "b", some "1.0", "compile", none, some "dependencies/dependency[1]"⟩,
    ⟨"h", "c", some "1.0", "compile", none, some "dependencies/dependency[2]"⟩]
  management := []
  modules := []
  directory := none

/-- Different candidates in the group, and an exclusion outside of it. -/
def namedByGroup : AlignmentSettings where
  candidates := [⟨"g", "a", "2.0"⟩, ⟨"g", "b", "3.0"⟩, ⟨"h", "c", "4.0"⟩]
  overrideTransitive := true
  overrideDependencies := true
  strict := false
  violationFails := false
  format := .byGroup
  exclusions := [⟨"h", "c", "*", "5.0"⟩]

def sameGroupResult : AlignmentResult where
  updates := ∅
  operations := [
    ⟨"pom.xml", "dependencies/dependency[0]/version", some "$\x7bversion.g\x7d"⟩,
    ⟨"pom.xml", "dependencies/dependency[1]/version", some "$\x7bversion.g\x7d"⟩,
    ⟨"pom.xml", "dependencies/dependency[2]/version", some "$\x7bversion.h\x7d"⟩]
  newProperties := .ofList [("pom.xml", .ofList [("version.g", "3.0"), ("version.h", "5.0")])]
  injected := ∅
  warnings := []

private theorem align_sameGroup :
    (align namedByGroup sameGroup false ∅).1 = .ok sameGroupResult := by
  decide

theorem introduced_property_has_last_version_group :
    (align namedByGroup sameGroup false ∅).1 = .ok sameGroupResult ∧
    let deps := sharing namedByGroup sameGroup (PropertyScope.define ∅ sameGroup) "version.g"
      (considered namedByGroup sameGroup)
    deps.length = 2 ∧
    newValue? sameGroupResult "pom.xml" "version.g" =
      deps.getLast?.bind (decidedVersion? namedByGroup sameGroup) ∧
    ((∀ d ∈ deps, newValue? sameGroupResult "pom.xml" "version.g" =
      decidedVersion? namedByGroup sameGroup d) ↔
      ∀ d ∈ deps, ∀ e ∈ deps,
        decidedVersion? namedByGroup sameGroup d = decidedVersion? namedByGroup sameGroup e) := by
  obtain ⟨-, hlatest, hall⟩ := introduced_property_has_last_version align_sameGroup "version.g"
  exact ⟨align_sameGroup, by decide, hlatest, hall⟩

/-- The property need not have the version decided on for a dependency that refers to it, and no
warning says so. -/
theorem not_all_introduced_versions_hold :
    ¬ ∀ (settings : AlignmentSettings) (m : PomModule) (injects : Bool) (inherited : PropertyScope)
      (r : AlignmentResult), settings.format ≠ .literal →
        (align settings m injects inherited).1 = .ok r →
      r.warnings = [] → ∀ d ∈ considered settings m, ∀ name,
        replacement? settings m (inherited.define m) d = some name →
          newValue? r m.target name = decidedVersion? settings m d := by
  intro h
  have hd :
    (⟨"g", "a", some "1.0", "compile", none, some "dependencies/dependency[0]"⟩ : Dependency) ∈
      considered namedByGroup sameGroup := by decide
  have hv := h namedByGroup sameGroup false ∅ sameGroupResult (by decide) align_sameGroup rfl _ hd
    "version.g" (by decide)
  revert hv
  decide

end BuildAlign.ModuleAlignment
