import BuildAlign.Proofs.MergedResults
import BuildAlign.Proofs.ProcessedPoms
import BuildAlign.Proofs.WritableTrees

/-! # POMs as they are written

The edits of a pass add no names but its own to the POMs that it has read.  So the trees that it
writes pass the check that the printer has for names. -/
namespace BuildAlign.XmlPrinter
open DocumentEdits PomSections

/-- A change of a node that leaves it such that it can be written. -/
def KeepsWritable (f : XmlNode → XmlNode) : Prop :=
  ∀ node, isWritable node = true → isWritable (f node) = true

variable {f : XmlNode → XmlNode}

private theorem isWritable_updateChildren {g : List XmlChild → List XmlChild} {node : XmlNode}
    (h : isWritable node = true)
    (hg : areWritable node.children = true → areWritable (g node.children) = true) :
    isWritable (node.updateChildren g) = true := by
  cases node with
  | comment text => rfl
  | element name attributes text children =>
    rw [isWritable, Bool.and_eq_true] at h
    rw [XmlNode.updateChildren, isWritable, Bool.and_eq_true]
    exact ⟨h.1, hg h.2⟩

private theorem keepsWritable_setText (text : String) : KeepsWritable (XmlNode.setText text) := by
  intro node h
  cases node with
  | comment => rfl
  | element name attributes _ children => exact h

private theorem areWritable_modify (hf : KeepsWritable f) {children : List XmlChild} (i : Nat)
    (h : areWritable children = true) :
    areWritable (children.modify i fun (child, tail) => (f child, tail)) = true := by
  induction children generalizing i with
  | nil => cases i <;> rfl
  | cons child children ih =>
    obtain ⟨node, tail⟩ := child
    rw [areWritable, Bool.and_eq_true] at h
    cases i with
    | zero =>
      rw [List.modify_zero_cons, areWritable, hf node h.1, h.2]
      rfl
    | succ i =>
      rw [List.modify_succ_cons, areWritable, ih i h.2, h.1]
      rfl

theorem KeepsWritable.modifyAt (hf : KeepsWritable f) (place : List Nat) :
    KeepsWritable (XmlNode.modifyAt f place) := by
  induction place with
  | nil => exact hf
  | cons i place ih => exact fun node h => isWritable_updateChildren h (areWritable_modify ih i)

private theorem keepsWritable_eraseAt (place : List Nat) :
    KeepsWritable (XmlNode.eraseAt place) := by
  induction place with
  | nil => exact fun node h => h
  | cons i place ih =>
    cases place with
    | nil =>
      refine fun node h => isWritable_updateChildren h fun hc => ?_
      rw [XmlReader.areWritable_iff] at hc ⊢
      exact fun child hm => hc child (List.mem_of_mem_eraseIdx hm)
    | cons j place => exact fun node h => isWritable_updateChildren h (areWritable_modify ih i)

/-- Edits change texts and take nodes out, and write no names. -/
theorem isWritable_applyAll (edits : List DocumentEdit) {root : XmlNode}
    (h : isWritable root = true) :
    isWritable (pomEditor.applyAll edits root).document = true := by
  induction edits generalizing root with
  | nil => exact h
  | cons edit edits ih =>
    cases ha : pomEditor.apply edit root with
    | error cause =>
      simp only [Editor.applyAll, ha]
      exact h
    | ok next =>
      simp only [Editor.applyAll, ha]
      refine ih ?_
      unfold Editor.apply at ha
      split at ha
      · cases ha
      · cases ha
      · next place _ =>
        cases ha
        cases edit.value with
        | some value => exact (keepsWritable_setText value).modifyAt place root h
        | none => exact keepsWritable_eraseAt place root h

private theorem exists_cutLast? {c : Char} {cs : List Char} (h : c ∈ cs) :
    ∃ before after, XmlName.cutLast? c cs = some (before, after) := by
  unfold XmlName.cutLast?
  split
  · next hd =>
    have hc := List.dropWhile_eq_nil_iff.1 hd c (List.mem_reverse.2 h)
    simp at hc
  · exact ⟨_, _, rfl⟩

/-- A label that can be written without a namespace can be written next to any element. -/
theorem isWritableName_sibling (space : XmlName) {label : String}
    (h : isWritableName ⟨none, label⟩ = true) :
    isWritableName (space.sibling label) = true := by
  unfold XmlName.sibling
  split
  · unfold XmlName.ofTag
    split
    · next cs hl => simp [isWritableName, hl] at h
    · rwa [String.ofList_toList]
  · next uri _ =>
    have hm : '\x7d' ∈ uri.toList.takeWhile (· ≠ '\x7d') ++ '\x7d' :: label.toList := by simp
    obtain ⟨before, after, hc⟩ := exists_cutLast? hm
    simp only [XmlName.ofTag, List.cons_append, hc]
    rfl

theorem KeepsWritable.updateSection (hf : KeepsWritable f) (space : XmlName) {name : String}
    (hn : isWritableName ⟨none, name⟩ = true) : KeepsWritable (updateSection space name f) := by
  refine fun node h => isWritable_updateChildren h fun hc => ?_
  dsimp only
  split
  · exact areWritable_modify hf _ hc
  · have hnew : isWritable (f (emptyElement (space.sibling name))) = true :=
      hf _ (by simp [emptyElement, isWritable, areWritable, isWritableName_sibling space hn])
    rw [XmlReader.areWritable_iff] at hc ⊢
    exact List.forall_mem_append.2 ⟨hc, List.forall_mem_singleton.2 hnew⟩

private theorem keepsWritable_addProperties {properties : List (String × String)}
    (hp : ∀ property ∈ properties, isWritableName ⟨none, property.1⟩ = true) :
    KeepsWritable (addProperties properties) := by
  intro root h
  unfold addProperties
  refine KeepsWritable.updateSection (fun entries he => ?_) _ (by decide +kernel) root h
  induction properties generalizing entries with
  | nil => exact he
  | cons property properties ih =>
    have hp := List.forall_mem_cons.1 hp
    exact ih hp.2 _ ((keepsWritable_setText property.2).updateSection _ hp.1 entries he)

private theorem isWritable_entryElement (space : XmlName) (entry : ManagedEntry) :
    isWritable (entryElement space entry) = true := by
  have hname : ∀ label ∈ ["dependency", "groupId", "artifactId", "version"],
      isWritableName (space.sibling label) = true := by
    intro label hm
    have hplain : ["dependency", "groupId", "artifactId", "version"].all
        (fun label => isWritableName ⟨none, label⟩) = true := by decide +kernel
    exact isWritableName_sibling space (List.all_eq_true.1 hplain label hm)
  simp only [List.forall_mem_cons] at hname
  simp [entryElement, emptyElement, XmlNode.setText, isWritable, areWritable, hname]

private theorem keepsWritable_addManaged (entries : List ManagedEntry) :
    KeepsWritable (addManaged entries) := by
  intro root h
  unfold addManaged
  refine KeepsWritable.updateSection
    (KeepsWritable.updateSection (fun list hl => ?_) _ (by decide +kernel)) _
    (by decide +kernel) root h
  refine isWritable_updateChildren hl fun hc => ?_
  rw [XmlReader.areWritable_iff] at hc ⊢
  refine List.forall_mem_append.2 ⟨hc, fun child hm => ?_⟩
  obtain ⟨entry, -, rfl⟩ := List.mem_map.1 hm
  exact isWritable_entryElement _ entry

end BuildAlign.XmlPrinter

namespace BuildAlign.ModuleAlignment
open XmlPrinter

/-- The new properties of a result have names that can be written. -/
def WritableProperties (r : AlignmentResult) : Prop :=
  ∀ target name value, newValue? r target name = some value → isWritableName ⟨none, name⟩ = true

variable {settings : AlignmentSettings} {m : PomModule} {scope : PropertyScope} {d : Dependency}
  {r r' s : AlignmentResult}

/-- The names that alignment makes up begin with the word for a version. -/
private theorem isWritableName_of_propertyName? {format : VersionPropertyFormat}
    {group artifact name : String}
    (h : format.propertyName? group artifact = some name) : isWritableName ⟨none, name⟩ = true := by
  have hversion : (toString "version.").toList.head? = some 'v' := rfl
  cases format with
  | byGroup =>
    cases h
    simp [isWritableName, hversion]
  | byArtifact =>
    cases h
    simp [isWritableName, hversion]
  | literal => cases h

private theorem WritableProperties.record {v : Verdict} (h : WritableProperties r)
    (hr : Recorded settings m scope d r v r') : WritableProperties r' := by
  cases hr with
  | untouched | unresolved | incompatible | agreed | conflict | property => exact h
  | @literal decided current edited =>
    intro target name value hv
    by_cases ht : target = m.target
    · rw [ht, changeLiteral_newValue?] at hv
      split at hv
      · next hn => exact isWritableName_of_propertyName? hn
      · exact h _ _ _ hv
    · refine h target name value (hv ▸ ?_)
      unfold changeLiteral
      split
      · rfl
      · simp [newValue?, Ne.symm ht]

private theorem writableProperties_align {injects : Bool} {inherited : PropertyScope}
    (h : (align settings m injects inherited).1 = .ok r) : WritableProperties r := by
  refine align_induction (fun _ r => WritableProperties r) (fun _ _ _ hv => ?_)
    (fun done d r r' _ hi hr => hi.record hr) (fun done r hi => ?_) h
  · cases hv
  · unfold inject
    split
    · exact hi
    · exact hi

theorem WritableProperties.merge (hr : WritableProperties r) (hs : WritableProperties s) :
    WritableProperties (r.merge s) := by
  intro target name value hv
  rw [AlignmentResult.newValue?_merge, Option.or_eq_some_iff] at hv
  rcases hv with hv | ⟨-, hv⟩
  · exact hs target name value hv
  · exact hr target name value hv

end BuildAlign.ModuleAlignment

namespace BuildAlign.BuildPass
open ModuleAlignment XmlPrinter

variable {options : PassOptions} {settings : AlignmentSettings}
  {result : AlignmentResult} {s s' : PassState}

private theorem writableProperties_alignModules {reactor : Reactor}
    {isRoot : Bool} {ms : List PomModule}
    {r : AlignmentResult} (hr : WritableProperties r)
    (h : (alignModules options settings reactor isRoot ms r).run.run s = (.ok result, s')) :
    WritableProperties result := by
  induction ms generalizing isRoot r s with
  | nil =>
    cases h
    exact hr
  | cons m ms ih =>
    rw [alignModules] at h
    obtain ⟨_, s₁, -, h⟩ := run_bind_eq_ok h
    dsimp only at h
    split at h
    · cases h
    · next aligned ha => exact ih (hr.merge (writableProperties_align ha)) h

private theorem keepsWritable_editedTree (hr : WritableProperties result) (target : String) :
    KeepsWritable (editedTree result target) := by
  intro root h
  have hedited := isWritable_applyAll
    ((result.operations.filter fun op => op.target = target).map Operation.edit) h
  have hadded : ∀ properties, result.newProperties.get? target = some properties →
      KeepsWritable (PomSections.addProperties properties.entries) := by
    intro properties hp
    refine keepsWritable_addProperties fun property hm => hr target property.1 property.2 ?_
    rw [newValue?, hp]
    exact OrderedMap.get?_eq_some_iff.2 hm
  unfold editedTree
  dsimp only
  split
  · split
    · next properties hp => exact keepsWritable_addManaged _ _ (hadded _ hp _ hedited)
    · exact keepsWritable_addManaged _ _ hedited
  · split
    · next properties hp => exact hadded _ hp _ hedited
    · exact hedited

private theorem read_of_loadModules {loaded : List LoadedModule}
    (h : (loadModules options).run.run s = (.ok loaded, s')) :
    ∀ pom ∈ loaded, ∃ text, XmlReader.read text = .ok pom.tree := by
  obtain ⟨text, root, -, hroot, -, rfl⟩ := root_of_loadModules h
  refine List.forall_mem_cons.2 ⟨⟨text, (ModuleDiscovery.load_eq_ok hroot).1⟩, fun pom hm => ?_⟩
  obtain ⟨directory, text, -, hload⟩ := (ModuleDiscovery.explores_discover ..).loaded pom hm
  exact ⟨text, (ModuleDiscovery.load_eq_ok hload).1⟩

/-- The trees that a pass writes to POMs pass the check that the printer has for names. -/
theorem printChecked_of_editPoms {loaded : List LoadedModule} {trees : PomTrees}
    {s₁ s₂ s₃ : PassState}
    (load : (loadModules options).run.run s = (.ok loaded, s₁))
    (align : (alignModules options settings
      (InheritedProperties.reactorOf (loaded.map LoadedModule.module)) true
      (loaded.map LoadedModule.module) ∅).run.run s₁ = (.ok result, s₂))
    (edit : (editPoms options result (loaded.map fun pom => pom.module.target)
      (OrderedMap.ofList (loaded.map fun pom => (pom.module.target, pom.tree)))).run.run s₂ =
        (.ok trees, s₃))
    {target : String} {root : XmlNode} (h : trees.get? target = some root) :
    printChecked root = .ok (XmlPrinter.print root) := by
  have hr : WritableProperties result :=
    writableProperties_alignModules (fun _ _ _ hv => by cases hv) align
  have hkeeps : ∀ n, KeepsWritable (editedTree result target)^[n] := by
    intro n
    induction n with
    | zero => exact fun node hw => hw
    | succ n ih => exact fun node hw => ih _ (keepsWritable_editedTree hr target node hw)
  rw [trees_of_editPoms edit] at h
  obtain ⟨before, hb, rfl⟩ := Option.map_eq_some_iff.1 h
  obtain ⟨pom, hm, he⟩ := List.mem_map.1 (OrderedMap.mem_of_get?_ofList hb)
  cases he
  obtain ⟨text, ht⟩ := read_of_loadModules load pom hm
  exact if_pos (hkeeps _ _ (XmlReader.isWritable_of_read ht))

end BuildAlign.BuildPass
