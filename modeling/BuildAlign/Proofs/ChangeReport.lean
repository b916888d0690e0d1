import BuildAlign.Proofs.ReactorEdits

/-! # The change report and the edits

The report has one version for the name of a property, while every POM that defines the name may be
edited.  The version in the report is that of the first edit.  Where another POM has got another
version there is a warning, which speaks of the version in the report as the one that is kept. -/
namespace BuildAlign.AlignmentResult
open ModuleAlignment KeyedList

/-- The edits of properties of this name, whichever POM they are in. -/
def propertyEdits (r : AlignmentResult) (name : String) : List Operation :=
  r.operations.filter fun op => op.path = propertyPath name

/-- The POM that is edited defines the property. -/
def OwnedEdits (modules : List PomModule) (r : AlignmentResult) : Prop :=
  ∀ name, ∀ op ∈ propertyEdits r name, ∃ m ∈ modules, m.target = op.target ∧
    name ∈ m.properties.keys

/-- The report of one module: it has the version of every edit, and no others. -/
structure Exact (r : AlignmentResult) : Prop where
  edited : ∀ name version, r.updates.get? name = some version → propertyEdits r name ≠ []
  reported : ∀ name, ∀ op ∈ propertyEdits r name,
    ∃ version, op.value = some version ∧ r.updates.get? name = some version

/-- The report of merged modules: it has the versions of first edits, and there is a warning about
others. -/
structure Reported (r : AlignmentResult) : Prop where
  distinct : (r.operations.map Operation.place).Nodup
  first : ∀ name, r.updates.get? name = (propertyEdits r name).head?.bind Operation.value
  warned : ∀ name, ∀ op ∈ propertyEdits r name, ∃ version shown, op.value = some version ∧
    r.updates.get? name = some shown ∧
      (version ≠ shown → versionConflict name shown version ∈ r.warnings)

variable {modules : List PomModule} {r s : AlignmentResult} {name version : String} {op : Operation}

private theorem mem_propertyEdits :
    op ∈ propertyEdits r name ↔ op ∈ r.operations ∧ op.path = propertyPath name := by
  simp [propertyEdits]

private theorem mem_propertyEdits_merge (h : op ∈ propertyEdits (r.merge s) name) :
    op ∈ propertyEdits r name ∨ op ∈ propertyEdits s name := by
  simp only [mem_propertyEdits] at h ⊢
  exact (mem_operations_merge h.1).imp (⟨·, h.2⟩) (⟨·, h.2⟩)

/-- The path of an edit is part of its place, so that merging leaves out no edit that is the first
one at its path. -/
theorem head?_propertyEdits_merge (r s : AlignmentResult) (name : String) :
    (propertyEdits (r.merge s) name).head? =
      (propertyEdits r name).head?.or (propertyEdits s name).head? := by
  have hp : (keepFirst Operation.place r.operations s.operations).find?
    (fun op => op.path = propertyPath name) =
      (r.operations ++ s.operations).find? fun op => op.path = propertyPath name :=
    find?_keepFirst Operation.place (fun place => decide (place.2 = propertyPath name)) ..
  rw [propertyEdits, propertyEdits, propertyEdits, List.head?_filter, List.head?_filter,
    List.head?_filter, merge_eq,
    hp, List.find?_append]

theorem Exact.first (h : Exact r) (name : String) :
    r.updates.get? name = (propertyEdits r name).head?.bind Operation.value := by
  cases hl : propertyEdits r name with
  | nil =>
    cases hu : r.updates.get? name with
    | none => rfl
    | some version => exact absurd hl (h.edited name version hu)
  | cons op edits =>
    obtain ⟨version, hv, hu⟩ := h.reported name op (hl ▸ List.mem_cons_self)
    rw [hu, List.head?_cons, Option.bind_some, hv]

theorem OwnedEdits.merge (hr : OwnedEdits modules r) (hs : OwnedEdits modules s) :
    OwnedEdits modules (r.merge s) :=
  fun name op hm => (mem_propertyEdits_merge hm).elim (hr name op) (hs name op)

private theorem reported_empty : Reported ∅ where
  distinct := List.nodup_nil
  first _ := rfl
  warned _ _ hm := nomatch hm

/-- The report of another module has the version of its edits, so that a warning is added where one
of them is not the version that has been reported. -/
theorem Reported.merge (hr : Reported r) (hs : Exact s) : Reported (r.merge s) := by
  have hkept : ∀ {message : String}, message ∈ r.warnings → message ∈ (r.merge s).warnings :=
    fun hm => by
    rw [merge_eq]
    simp only [List.mem_append]
    exact .inl (.inl (.inl hm))
  refine ⟨?_, fun name => ?_, fun name op hm => ?_⟩
  · rw [merge_eq]
    exact nodup_keepFirst hr.distinct s.operations
  · rw [get?_updates_merge, head?_propertyEdits_merge]
    cases hl : (propertyEdits r name).head? with
    | none => rw [hr.first, hl, Option.none_or, hs.first]; rfl
    | some op =>
      obtain ⟨version, shown, hv, hu, -⟩ := hr.warned name op (List.mem_of_head? hl)
      have hshown := hr.first name
      rw [hl] at hshown
      rw [hu] at hshown ⊢
      exact hshown
  · rcases mem_propertyEdits_merge hm with hm | hm
    · obtain ⟨version, shown, hv, hu, hw⟩ := hr.warned name op hm
      exact ⟨version, shown, hv, by rw [get?_updates_merge, hu, Option.some_or],
        fun hne => hkept (hw hne)⟩
    · obtain ⟨version, hv, hu⟩ := hs.reported name op hm
      cases hk : r.updates.get? name with
      | none =>
        exact ⟨version, version, hv, by rw [get?_updates_merge, hk, Option.none_or, hu],
          fun hne => absurd rfl hne⟩
      | some shown =>
        refine ⟨version, shown, hv, by rw [get?_updates_merge, hk, Option.some_or], fun hne => ?_⟩
        have hc := mem_versionConflicts hk (OrderedMap.get?_eq_some_iff.1 hu) (Ne.symm hne)
        rw [merge_eq]
        exact List.mem_append_left _ (List.mem_append_right _ hc)

/-- The report has the version of all edits if and only if they all have the same one. -/
theorem Reported.agrees_iff (h : Reported r) (name : String) :
    (∀ op ∈ propertyEdits r name, op.value = r.updates.get? name) ↔
      ∀ op ∈ propertyEdits r name, ∀ op' ∈ propertyEdits r name, op.value = op'.value := by
  constructor
  · intro hall op hm op' hm'
    exact (hall op hm).trans (hall op' hm').symm
  · intro hall op hm
    obtain ⟨first, hf⟩ : ∃ first, (propertyEdits r name).head? = some first :=
      Option.isSome_iff_exists.1 (List.isSome_head?.2 (List.ne_nil_of_mem hm))
    rw [h.first, hf, Option.bind_some]
    exact hall op hm first (List.mem_of_head? hf)

/-- A name that one POM alone defines has one edit at most. -/
theorem Reported.agrees_of_one_pom (h : Reported r) (ho : OwnedEdits modules r)
    (one : ∀ m ∈ modules, ∀ m' ∈ modules, name ∈ m.properties.keys → name ∈ m'.properties.keys →
      m.target = m'.target) : ∀ op ∈ propertyEdits r name, op.value = r.updates.get? name := by
  refine (h.agrees_iff name).2 fun op hm op' hm' => ?_
  obtain ⟨m, hmod, ht, hk⟩ := ho name op hm
  obtain ⟨m', hmod', ht', hk'⟩ := ho name op' hm'
  obtain ⟨hop, hp⟩ := mem_propertyEdits.1 hm
  obtain ⟨hop', hp'⟩ := mem_propertyEdits.1 hm'
  have hplace : op.place = op'.place :=
    Prod.ext (ht.symm.trans ((one m hmod m' hmod' hk hk').trans ht')) (hp.trans hp'.symm)
  rw [List.inj_on_of_nodup_map h.distinct hop hop' hplace]

end BuildAlign.AlignmentResult

namespace BuildAlign.BuildPass
open ModuleAlignment InheritedProperties AlignmentResult

variable {settings : AlignmentSettings} {modules : List PomModule} {m : PomModule} {injects : Bool}
  {s : AlignmentResult}

/-- No version of a dependency is among the properties. -/
def VersionsApart (settings : AlignmentSettings) (m : PomModule) : Prop :=
  ∀ d ∈ considered settings m, ∀ name, versionPath d ≠ propertyPath name

/-- The modules that are read from POMs are such. -/
theorem versionsApart_ofRoot (settings : AlignmentSettings) (root : XmlNode)
    (directory : Option String) :
    VersionsApart settings { PomModule.ofRoot root with directory := directory } :=
  (located_considered settings root directory).apart

private theorem exact_align {inherited : PropertyScope} (apart : VersionsApart settings m)
    (h : (align settings m injects inherited).1 = .ok s) : Exact s := by
  have ha := account_align h
  constructor
  · intro name version hu
    have hm := mem_propertyEdits.2 ⟨(ha.posted name version hu).1, rfl⟩
    exact List.ne_nil_of_mem hm
  · intro name op hm
    obtain ⟨hop, hp⟩ := mem_propertyEdits.1 hm
    obtain ⟨decided, hu, rfl⟩ := ha.propertyEdit_of_path apart hop hp
    exact ⟨decided, rfl, hu⟩

private theorem owned_align (apart : VersionsApart settings m) (hm : m ∈ modules)
    (h : (align settings m injects (inherited (reactorOf modules) m)).1 = .ok s) :
    OwnedEdits modules s := by
  have ha := account_align h
  have ho := (owned_inherited modules m).define hm
  intro name op hm
  obtain ⟨hop, hp⟩ := mem_propertyEdits.1 hm
  obtain ⟨decided, hu, rfl⟩ := ha.propertyEdit_of_path apart hop hp
  obtain ⟨p, hmod, ht, value, hv⟩ := ha.exists_owner ho hu
  exact ⟨p, hmod, ht, OrderedMap.mem_keys_of_get? hv⟩

/-- The report has the version of the first edit of a property.  A property that has got another
version in another POM is warned of.  So the report agrees with all edits of a name if and only if
they agree with each other, as they do where one POM alone defines the name. -/
theorem report_has_first_versions (options : PassOptions) (settings : AlignmentSettings)
    (modules : List PomModule)
    (apart : ∀ m ∈ modules, VersionsApart settings m)
    (accepted : ∀ m ∈ modules, ∃ injects s,
      (align settings m injects (inherited (reactorOf modules) m)).1 = .ok s) :
    ∃ result : AlignmentResult,
      (∀ disk, Ends
        (alignModules options settings (reactorOf modules) true modules ∅) disk result disk) ∧
      ∀ name, let edits := propertyEdits result name
        result.updates.get? name = edits.head?.bind Operation.value ∧
        (∀ op ∈ edits, ∃ version shown,
          op.value = some version ∧ result.updates.get? name = some shown ∧
          (version ≠ shown → versionConflict name shown version ∈ result.warnings)) ∧
        ((∀ op ∈ edits, op.value = result.updates.get? name) ↔
          ∀ op ∈ edits, ∀ op' ∈ edits, op.value = op'.value) ∧
        ((∀ m ∈ modules, ∀ m' ∈ modules, name ∈ m.properties.keys → name ∈ m'.properties.keys →
          m.target = m'.target) → ∀ op ∈ edits, op.value = result.updates.get? name) := by
  have hstep : ∀ m ∈ modules, ∀ injects (r s : AlignmentResult),
      (align settings m injects (inherited (reactorOf modules) m)).1 = .ok s →
      Reported r ∧ OwnedEdits modules r →
      Reported (r.merge s) ∧ OwnedEdits modules (r.merge s) := by
    intro m hm injects r s hs ⟨hr, ho⟩
    exact ⟨hr.merge (exact_align (apart m hm) hs), ho.merge (owned_align (apart m hm) hm hs)⟩
  obtain ⟨result, ⟨hr, ho⟩, hends⟩ := ends_alignModules
    (fun r => Reported r ∧ OwnedEdits modules r) options accepted hstep true
    ⟨reported_empty, fun _ _ hm => nomatch hm⟩
  exact ⟨result, hends, fun name =>
    ⟨hr.first name, hr.warned name, hr.agrees_iff name, hr.agrees_of_one_pom ho⟩⟩

/-- A module that defines a property and uses it for the version of one dependency. -/
def versioned (directory artifact dependency : String) : PomModule where
  group := "g"
  artifact := artifact
  version := none
  parentGroup := none
  parentArtifact := none
  properties := .ofList [("v", "1.0")]
  dependencies :=
    [⟨"g", dependency, some "$\x7bv\x7d", "compile", none, some "dependencies/dependency[0]"⟩]
  management := []
  modules := []
  directory := some directory

/-- Two modules that define the same name, with different dependencies. -/
def twoDefinitions : List PomModule := [versioned "." "m" "a", versioned "n" "n" "b"]

def differentCandidates : AlignmentSettings where
  candidates := [⟨"g", "a", "2.0"⟩, ⟨"g", "b", "3.0"⟩]
  overrideTransitive := false
  overrideDependencies := true
  strict := false
  violationFails := false
  format := .literal
  exclusions := []

/-- The alignment of one of the modules. -/
def versionedResult (target version : String) : AlignmentResult where
  updates := .ofList [("v", version)]
  operations := [⟨target, "properties/v", some version⟩]
  newProperties := ∅
  injected := ∅
  warnings := []

private theorem apart_versioned (settings : AlignmentSettings)
    (directory artifact dependency : String) :
    VersionsApart settings (versioned directory artifact dependency) := by
  intro d hd name
  have hl : d.location = some "dependencies/dependency[0]" := by
    simp only [considered, versioned, List.nil_append] at hd
    split at hd
    · rw [List.mem_singleton.1 hd]
    · cases hd
  exact versionPath_ne_propertyPath hl (by decide) name

private theorem apart_twoDefinitions :
    ∀ m ∈ twoDefinitions, VersionsApart differentCandidates m := by
  rw [twoDefinitions, List.forall_mem_cons, List.forall_mem_singleton]
  exact ⟨apart_versioned _ "." "m" "a", apart_versioned _ "n" "n" "b"⟩

/-- The first version is reported, and both edits are there. -/
def twoVersions : AlignmentResult :=
  ((∅ : AlignmentResult).merge (versionedResult "pom.xml" "2.0")).merge
    (versionedResult "n/pom.xml" "3.0")

private theorem ends_twoDefinitions (options : PassOptions) (disk : Disk) :
    Ends (alignModules options differentCandidates (reactorOf twoDefinitions) true
      twoDefinitions ∅) disk
      twoVersions disk := by
  have hroot : (align differentCandidates (versioned "." "m" "a") true
      (inherited (reactorOf twoDefinitions) (versioned "." "m" "a"))).1 =
        .ok (versionedResult "pom.xml" "2.0") := by
    decide +kernel
  have hchild : (align differentCandidates (versioned "n" "n" "b") false
      (inherited (reactorOf twoDefinitions) (versioned "n" "n" "b"))).1 =
        .ok (versionedResult "n/pom.xml" "3.0") := by
    decide +kernel
  exact ends_alignModules_cons hroot (ends_alignModules_cons hchild (ends_pure _ disk))

theorem report_has_first_versions_two :
    (∀ m ∈ twoDefinitions, VersionsApart differentCandidates m) ∧
      differentCandidates.violationFails = false ∧
    ∃ result : AlignmentResult,
      (∀ disk, Ends
        (alignModules ⟨⟨"", []⟩, true, false⟩ differentCandidates (reactorOf twoDefinitions) true
        twoDefinitions ∅) disk result disk) ∧
      result.updates.get? "v" = some "2.0" ∧
      ⟨"n/pom.xml", "properties/v", some "3.0"⟩ ∈ result.operations ∧
      versionConflict "v" "2.0" "3.0" ∈ result.warnings := by
  obtain ⟨result, hends, hreport⟩ :=
    report_has_first_versions ⟨⟨"", []⟩, true, false⟩ differentCandidates
    twoDefinitions apart_twoDefinitions fun _ _ => ⟨false, align_ok_of_tolerant rfl _ _ _⟩
  obtain rfl : result = twoVersions := (hends ⟨[], ∅⟩).value_eq (ends_twoDefinitions _ _)
  obtain ⟨hfirst, hwarned, -, -⟩ := hreport "v"
  have hm : ⟨"n/pom.xml", "properties/v", some "3.0"⟩ ∈ propertyEdits twoVersions "v" := by
    decide +kernel
  have hshown : twoVersions.updates.get? "v" = some "2.0" := hfirst.trans (by decide +kernel)
  obtain ⟨version, shown, hv, hu, hw⟩ := hwarned _ hm
  cases hv
  cases hu.symm.trans hshown
  exact ⟨apart_twoDefinitions, rfl, twoVersions, hends, hshown,
    (mem_propertyEdits.1 hm).1, hw (by decide)⟩

/-- A property that is edited need not have the version in the report, although the POMs of all
modules are different. -/
theorem not_every_edit_is_reported :
    ¬ ∀ (options : PassOptions) (settings : AlignmentSettings) (modules : List PomModule)
      (result : AlignmentResult),
      (modules.map PomModule.target).Nodup →
      (∀ disk, Ends
        (alignModules options settings (reactorOf modules) true modules ∅) disk result disk) →
      ∀ op ∈ result.operations, ∀ name version, op.path = propertyPath name →
        op.value = some version →
        result.updates.get? name = some version := by
  intro h
  have hm : ⟨"n/pom.xml", "properties/v", some "3.0"⟩ ∈ twoVersions.operations := by decide +kernel
  have hv :=
    h ⟨⟨"", []⟩, true, false⟩ differentCandidates twoDefinitions twoVersions (by decide +kernel)
    (ends_twoDefinitions _) _ hm "v" "3.0" rfl rfl
  revert hv
  decide +kernel

end BuildAlign.BuildPass
