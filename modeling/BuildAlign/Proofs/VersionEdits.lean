import BuildAlign.Proofs.NamedChildren

/-! # Reading a POM after the edit of a version

The version of a dependency is edited at the path that was noted when the POM was read.  Reading the
edited POM again gives the same module, in which only this dependency has another version. -/
namespace BuildAlign.PomModule
open PomNamespace PomPath XmlNode ModuleAlignment

variable {space : Option String} {root node : XmlNode} {label value path : String}
  {f : XmlNode → XmlNode}
  {step : PomStep} {i : Nat}

/-- A text that is read as it is written. -/
structure Clean (value : String) : Prop where
  nonempty : value ≠ ""
  trimmed : BlankText.trimmed value = value

private theorem text_setText (text : String) (node : XmlNode) :
    (node.setText text).text = text := by
  cases node <;> rfl

theorem Clean.trimmedText? (h : Clean value) (node : XmlNode) :
    trimmedText? (node.setText value) = some value := by
  rw [PomModule.trimmedText?, text_setText, if_neg h.nonempty, h.trimmed]

section Application

/-- The edit of a path that is found sets the text at the end of its steps. -/
theorem apply_of_parse {steps : List PomStep} (hp : parse path = .ok steps)
    (hr : Resolves path root)
    (document : Option String) (value : String) :
    DocumentEdits.pomEditor.apply ⟨document, path, some value⟩ root =
      .ok (updateAlong steps (setText value) root) := by
  obtain ⟨place, hl⟩ := hr
  obtain ⟨_, hparsed, hs⟩ := locatePom_eq_ok_iff.1 hl
  cases hp.symm.trans hparsed
  have he : DocumentEdits.pomEditor.locate path root = .ok (some place) := hl
  simp only [Editor.apply, he]
  exact congrArg Except.ok (modifyAt_of_locate hs)

end Application

section Reading

private theorem textOf_updateNamed (hs : space = some pomSpace ∨ space = none)
    (hf : KeepsNames space f)
    (h : InSpace space node) (hl : label ≠ "") (hn : label ≠ step.name) :
    textOf label (updateNamed step f node) = textOf label node := by
  rw [textOf, textOf, firstNamed?_updateNamed_of_ne hs hf h label step hl hn]

private theorem textOf_setText (hs : space = some pomSpace ∨ space = none) (h : InSpace space node)
    (hl : label ≠ "") (hv : Clean value) (ht : (textOf label node).isSome) :
    textOf label (updateNamed ⟨label, 0⟩ (setText value) node) = some value := by
  obtain ⟨old, hold⟩ := Option.isSome_iff_exists.1 ht
  obtain ⟨element, hf, -⟩ := Option.bind_eq_some_iff.1 hold
  rw [textOf, firstNamed?_updateNamed hs (keepsNames_setText space value) h hl, hf]
  exact hv.trimmedText? element

/-- Nothing but the version of a dependency is read from the text that is set. -/
theorem dependencyAt_setText (hs : space = some pomSpace ∨ space = none) (h : InSpace space node)
    (hv : Clean value) (ht : (textOf "version" node).isSome) (location : String) :
    dependencyAt (updateNamed ⟨"version", 0⟩ (setText value) node) location =
      { dependencyAt node location with version := some value } := by
  have hother : ∀ label, label ≠ "" → label ≠ "version" →
      textOf label (updateNamed ⟨"version", 0⟩ (setText value) node) = textOf label node := by
    intro label hl hn
    exact textOf_updateNamed hs (keepsNames_setText space value) h hl hn
  simp only [dependencyAt, hother "groupId" (by decide) (by decide),
    hother "artifactId" (by decide) (by decide), hother "scope" (by decide) (by decide),
    hother "type" (by decide) (by decide), textOf_setText hs h (by decide) hv ht]

private theorem getElem?_dependenciesIn (path : String) (list : XmlNode) (i : Nat) :
    (dependenciesIn path (some list))[i]? =
      ((named "dependency" list)[i]?).map fun element =>
        dependencyAt element (locationIn path i) := by
  simp only [dependenciesIn, List.getElem?_map, List.getElem?_zipIdx, Option.map_map, Nat.zero_add]
  rfl

/-- A changed element of a section is one changed dependency. -/
theorem dependenciesIn_updateNamed (hs : space = some pomSpace ∨ space = none)
    (hf : KeepsNames space f)
    {list element : XmlNode} (h : InSpace space list)
    (hm : (named "dependency" list)[i]? = some element) :
    dependenciesIn path (some (updateNamed ⟨"dependency", i⟩ f list)) =
      (dependenciesIn path (some list)).set i (dependencyAt (f element) (locationIn path i)) := by
  obtain ⟨hi, rfl⟩ := List.getElem?_eq_some_iff.1 hm
  have hn : named "dependency" (updateNamed ⟨"dependency", i⟩ f list) =
      (named "dependency" list).modify i f := by
    rw [named_updateNamed hs hf h (by decide), if_pos rfl]
  have hlen : (dependenciesIn path (some list)).length = (named "dependency" list).length := by
    simp [dependenciesIn]
  apply List.ext_getElem?
  intro j
  rw [getElem?_dependenciesIn, hn, List.getElem?_modify, List.getElem?_set, getElem?_dependenciesIn]
  by_cases hij : i = j
  · subst hij
    simp [hlen, hi]
  · simp [hij]

end Reading

section Sections

/-- What is read of a POM apart from properties and dependencies comes from these elements. -/
def ownLabels : List String := ["parent", "groupId", "artifactId", "version", "modules"]

/-- A change in a section of properties or dependencies is a change of what is read of such
sections. -/
theorem ofRoot_updateNamed (hs : space = some pomSpace ∨ space = none) (hf : KeepsNames space f)
    (h : InSpace space root) (hn : step.name ∉ ownLabels) :
    ofRoot (updateNamed step f root) = { ofRoot root with
      properties := ((firstNamed? "properties" (updateNamed step f root)).map propertiesIn).getD ∅
      dependencies :=
        dependenciesIn directPath (firstNamed? "dependencies" (updateNamed step f root))
      management := dependenciesIn managedPath (managedSection? (updateNamed step f root)) } := by
  have hown : ∀ label ∈ ownLabels, label ≠ "" → firstNamed? label (updateNamed step f root) =
      firstNamed? label root := by
    intro label hm hl
    exact firstNamed?_updateNamed_of_ne hs hf h label step hl fun he => hn (he ▸ hm)
  simp only [ofRoot, textOf, hown "parent" (by decide) (by decide),
    hown "groupId" (by decide) (by decide),
    hown "artifactId" (by decide) (by decide), hown "version" (by decide) (by decide),
    hown "modules" (by decide) (by decide), managedSection?, directPath, managedPath]

private theorem ofRoot_updateDependencies (hs : space = some pomSpace ∨ space = none)
    (hf : KeepsNames space f)
    (h : InSpace space root) :
    ofRoot (updateNamed ⟨"dependencies", 0⟩ f root) = { ofRoot root with
      dependencies := dependenciesIn directPath ((firstNamed? "dependencies" root).map f) } := by
  rw [ofRoot_updateNamed hs hf h (by decide), managedSection?,
    firstNamed?_updateNamed_of_ne hs hf h "properties" _ (by decide) (by decide),
    firstNamed?_updateNamed_of_ne hs hf h "dependencyManagement" _ (by decide) (by decide),
    firstNamed?_updateNamed hs hf h (by decide)]
  rfl

private theorem ofRoot_updateManagement (hs : space = some pomSpace ∨ space = none)
    (hf : KeepsNames space f)
    (h : InSpace space root) :
    ofRoot (updateNamed ⟨"dependencyManagement", 0⟩ f root) = { ofRoot root with
      management := dependenciesIn managedPath
        (((firstNamed? "dependencyManagement" root).map f).bind
          (firstNamed? "dependencies")) } := by
  rw [ofRoot_updateNamed hs hf h (by decide), managedSection?,
    firstNamed?_updateNamed_of_ne hs hf h "properties" _ (by decide) (by decide),
    firstNamed?_updateNamed_of_ne hs hf h "dependencies" _ (by decide) (by decide),
    firstNamed?_updateNamed hs hf h (by decide)]
  rfl

theorem ofRoot_updateProperties (hs : space = some pomSpace ∨ space = none)
    (hf : KeepsNames space f)
    (h : InSpace space root) :
    ofRoot (updateNamed ⟨"properties", 0⟩ f root) = { ofRoot root with
      properties :=
        ((firstNamed? "properties" root).map fun list => propertiesIn (f list)).getD ∅ } := by
  rw [ofRoot_updateNamed hs hf h (by decide), managedSection?,
    firstNamed?_updateNamed_of_ne hs hf h "dependencies" _ (by decide) (by decide),
    firstNamed?_updateNamed_of_ne hs hf h "dependencyManagement" _ (by decide) (by decide),
    firstNamed?_updateNamed hs hf h (by decide), Option.map_map]
  rfl

/-- The change that sets the version of a dependency in its section. -/
def setVersion (i : Nat) (value : String) : XmlNode → XmlNode :=
  updateAlong [⟨"dependency", i⟩, ⟨"version", 0⟩] (setText value)

private theorem keepsNames_setVersion (space : Option String) (i : Nat) (value : String) :
    KeepsNames space (setVersion i value) := (keepsNames_setText space value).updateAlong _

/-- In a section that was read, another version is set. -/
theorem dependenciesIn_setVersion (hs : space = some pomSpace ∨ space = none) {list : XmlNode}
    (h : InSpace space list) (hv : Clean value) {d : Dependency}
    (hd : (dependenciesIn path (some list))[i]? = some d) (ht : d.version.isSome) :
    dependenciesIn path (some (setVersion i value list)) =
      (dependenciesIn path (some list)).set i { d with version := some value } := by
  rw [getElem?_dependenciesIn, Option.map_eq_some_iff] at hd
  obtain ⟨element, hm, rfl⟩ := hd
  have hf := (keepsNames_setText space value).updateNamed ⟨"version", 0⟩
  have he := h.of_named (List.mem_of_getElem? hm)
  rw [← dependencyAt_setText hs he hv ht]
  exact dependenciesIn_updateNamed hs hf h hm

/-- The section that a dependency was read from, and the path to its version. -/
theorem section_of_getElem? {node : Option XmlNode} {d : Dependency}
    (h : (dependenciesIn path node)[i]? = some d) :
    (∃ list, node = some list) ∧ versionPath d = locationIn path i ++ "/version" := by
  cases node with
  | none => cases h
  | some list =>
    rw [getElem?_dependenciesIn, Option.map_eq_some_iff] at h
    obtain ⟨element, -, rfl⟩ := h
    exact ⟨⟨list, rfl⟩, rfl⟩

private theorem ofRoot_setDirect (hs : space = some pomSpace ∨ space = none)
    (h : InSpace space root)
    (hv : Clean value) {d : Dependency} (hd : (ofRoot root).dependencies[i]? = some d)
    (ht : d.version.isSome) :
    ofRoot (updateNamed ⟨"dependencies", 0⟩ (setVersion i value) root) = { ofRoot root with
      dependencies := (ofRoot root).dependencies.set i { d with version := some value } } := by
  have hroot : (ofRoot root).dependencies =
    dependenciesIn directPath (firstNamed? "dependencies" root) := rfl
  obtain ⟨⟨list, hl⟩, -⟩ := section_of_getElem? hd
  have hu := h.of_named (List.mem_of_getElem? (named_zero_of_first hl))
  rw [hroot, hl] at hd ⊢
  rw [ofRoot_updateDependencies hs (keepsNames_setVersion space i value) h, hl, Option.map_some,
    dependenciesIn_setVersion hs hu hv hd ht]

private theorem ofRoot_setManaged (hs : space = some pomSpace ∨ space = none)
    (h : InSpace space root)
    (hv : Clean value) {d : Dependency} (hd : (ofRoot root).management[i]? = some d)
    (ht : d.version.isSome) :
    ofRoot (updateNamed ⟨"dependencyManagement", 0⟩
      (updateNamed ⟨"dependencies", 0⟩ (setVersion i value)) root) =
      { ofRoot root with
        management := (ofRoot root).management.set i { d with version := some value } } := by
  have hf := keepsNames_setVersion space i value
  have hroot : (ofRoot root).management = dependenciesIn managedPath (managedSection? root) := rfl
  rw [hroot] at hd ⊢
  obtain ⟨⟨list, hl⟩, -⟩ := section_of_getElem? hd
  obtain ⟨management, hm, hsection⟩ := Option.bind_eq_some_iff.1 hl
  rw [hl] at hd ⊢
  have hum := h.of_named (List.mem_of_getElem? (named_zero_of_first hm))
  have hu := hum.of_named (List.mem_of_getElem? (named_zero_of_first hsection))
  rw [ofRoot_updateManagement hs (hf.updateNamed _) h, hm, Option.map_some, Option.bind_some,
    firstNamed?_updateNamed hs hf hum (by decide), hsection, Option.map_some,
    dependenciesIn_setVersion hs hu hv hd ht]

end Sections

/-- Reading a POM after the edit of a version gives the module with this version.  The edit can
always be made, for a direct dependency as for a managed one. -/
theorem version_edit_is_read (pom : UnmixedPom root) (numbered : Numbered (ofRoot root))
    (clean : Clean value) (document : Option String) :
    (∀ i d, (ofRoot root).dependencies[i]? = some d → d.version.isSome →
      ∃ edited,
        DocumentEdits.pomEditor.apply ⟨document, versionPath d, some value⟩ root = .ok edited ∧
        ofRoot edited = { ofRoot root with
          dependencies := (ofRoot root).dependencies.set i { d with version := some value } }) ∧
    (∀ i d, (ofRoot root).management[i]? = some d → d.version.isSome →
      ∃ edited,
        DocumentEdits.pomEditor.apply ⟨document, versionPath d, some value⟩ root = .ok edited ∧
        ofRoot edited = { ofRoot root with
          management := (ofRoot root).management.set i { d with version := some value } }) := by
  have hpom := pom
  obtain ⟨space, hs, h⟩ := hpom
  constructor
  · intro i d hd ht
    obtain ⟨version, hversion⟩ := Option.isSome_iff_exists.1 ht
    have hr := resolves_directPath pom numbered (List.mem_of_getElem? hd) hversion
    have hp : parse (versionPath d) = _ := (section_of_getElem? hd).2 ▸
      parse_directPath (numbered.direct i (List.getElem?_eq_some_iff.1 hd).1)
    exact ⟨_, apply_of_parse hp hr document value, ofRoot_setDirect hs h clean hd ht⟩
  · intro i d hd ht
    obtain ⟨version, hversion⟩ := Option.isSome_iff_exists.1 ht
    have hr := resolves_managedPath pom numbered (List.mem_of_getElem? hd) hversion
    have hp : parse (versionPath d) = _ := (section_of_getElem? hd).2 ▸
      parse_managedPath (numbered.managed i (List.getElem?_eq_some_iff.1 hd).1)
    exact ⟨_, apply_of_parse hp hr document value, ofRoot_setManaged hs h clean hd ht⟩

/-- A dependency without a version, comments, and a second section that is not read. -/
def commented : XmlNode :=
  let leaf label text : XmlChild := (.element ⟨none, label⟩ [] text [], "")
  let node label children : XmlChild := (.element ⟨none, label⟩ [] "" children, "")
  .element ⟨none, "project"⟩ [] "" [
    leaf "artifactId" "m",
    node "dependencies" [
      (.comment "first", ""),
      node "dependency" [leaf "groupId" "g", leaf "artifactId" "a"],
      (.comment "second", ""),
      node "dependency" [leaf "groupId" "g", (.comment "1.0", ""), leaf "artifactId" "b",
        leaf "version" " 1.0 "]],
    node "dependencies"
      [node "dependency" [leaf "groupId" "g", leaf "artifactId" "c", leaf "version" "1.0"]]]

theorem inSpace_commented : InSpace none commented := by
  repeat' first
    | exact .comment _
    | refine .element _ _ (by decide) ?_
    | refine List.forall_mem_cons.2 ⟨?_, ?_⟩
    | exact List.forall_mem_nil _

private theorem unmixedPom_commented : UnmixedPom commented := ⟨none, .inr rfl, inSpace_commented⟩

private theorem numbered_commented :
    Numbered (ofRoot commented) := ⟨by decide +kernel, by decide +kernel⟩

private theorem clean_newVersion : Clean "2.0" := ⟨by decide, by decide +kernel⟩

theorem version_edit_is_read_commented :
    UnmixedPom commented ∧ Numbered (ofRoot commented) ∧ Clean "2.0" ∧
    (ofRoot commented).dependencies[1]? =
      some ⟨"g", "b", some "1.0", "compile", none, some "dependencies/dependency[1]"⟩ ∧
    ∃ edited, DocumentEdits.pomEditor.apply
        ⟨some "pom.xml", "dependencies/dependency[1]/version", some "2.0"⟩ commented = .ok edited ∧
      ofRoot edited = { ofRoot commented with
        dependencies := (ofRoot commented).dependencies.set 1
          ⟨"g", "b", some "2.0", "compile", none, some "dependencies/dependency[1]"⟩ } := by
  have hd : (ofRoot commented).dependencies[1]? =
      some ⟨"g", "b", some "1.0", "compile", none, some "dependencies/dependency[1]"⟩ := by
        decide +kernel
  exact ⟨unmixedPom_commented, numbered_commented, clean_newVersion, hd,
    (version_edit_is_read unmixedPom_commented numbered_commented clean_newVersion
      (some "pom.xml")).1 1 _ hd rfl⟩

end BuildAlign.PomModule
