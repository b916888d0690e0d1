import BuildAlign.Proofs.SectionAdditions
import BuildAlign.Proofs.UndeclaredCandidates
import Mathlib.Data.List.Find

/-! # Reading a POM after dependencies were added to its management

Managed dependencies are added behind those that are there, in sections that are made where they are
missing.  Reading the POM again gives the module with these dependencies as its last managed ones.
Nothing that was read has moved, and as the new dependencies are declared now, alignment does not
add them again. -/
namespace BuildAlign.PomModule
open PomNamespace PomPath XmlNode PomSections ModuleAlignment DocumentEdits

variable {root edited node element list : XmlNode} {label path : String} {owner : XmlName}
  {space : Option String}
  {entry : ManagedEntry} {entries : List ManagedEntry} {d : Dependency} {i n : Nat}

section Entries

/-- An entry that is read as it is written. -/
structure CleanEntry (entry : ManagedEntry) : Prop where
  group : Clean entry.group
  artifact : Clean entry.artifact
  version : ∃ version, entry.version = some version ∧ Clean version

/-- How the entry of a dependency management is read that has `i` others before it. -/
def managedDependency (entry : ManagedEntry) (i : Nat) : Dependency where
  group := entry.group
  artifact := entry.artifact
  version := entry.version
  scope := "compile"
  type := none
  location := some (locationIn managedPath i)

/-- How entries are read that come behind `n` others. -/
def managedDependencies (n : Nat) (entries : List ManagedEntry) : List Dependency :=
  (entries.zipIdx n).map fun (entry, i) => managedDependency entry i

/-- The elements of entries, as children. -/
def entryElements (owner : XmlName) (entries : List ManagedEntry) : List XmlChild :=
  entries.map fun entry => (entryElement owner entry, "")

variable (hs : owner.space = some pomSpace ∨ owner.space = none)
include hs

private theorem inSpace_entryElement (entry : ManagedEntry) :
    InSpace owner.space (entryElement owner entry) := by
  rw [entryElement_eq hs]
  refine .element [] "" (by decide) ?_
  simp only [entryFields, List.map_cons, List.map_nil, List.forall_mem_cons]
  refine ⟨.element [] _ (by decide) ?_, .element [] _ (by decide) ?_,
    .element [] _ (by decide) ?_, ?_⟩ <;>
    exact List.forall_mem_nil _

private theorem inSpace_entryElements (entries : List ManagedEntry) :
    ∀ child ∈ entryElements owner entries, InSpace owner.space child.1 :=
  List.forall_mem_map.2 fun entry _ => inSpace_entryElement hs entry

/-- A child of an entry is found under the name of its field. -/
theorem firstNamed?_entryElement (entry : ManagedEntry) (hl : label ≠ "") :
    firstNamed? label (entryElement owner entry) =
      ((entryFields entry).find? fun field => field.1 = label).map fun (name, text) =>
        .element ⟨owner.space, name⟩ [] text [] := by
  have hlocal : ∀ field ∈ entryFields entry,
      XmlName.localName ⟨owner.space, field.1⟩ = field.1 := by
    have hnames : ∀ name ∈ ["groupId", "artifactId", "version"], '\x7d' ∉ name.toList := by decide
    exact fun field hm =>
      localName_of_braceless (hnames field.1 (List.mem_map_of_mem (f := Prod.fst) hm))
  rw [firstNamed?, named_eq_childrenNamed (inSpace_entryElement hs entry) hs hl,
    childrenNamed, entryElement_eq hs,
    XmlNode.children, List.filter_map, List.map_map, List.head?_map, List.head?_filter]
  refine congrArg (Option.map _) (List.find?_congr fun field hm => ?_)
  simp [XmlNode.localName, name?, hlocal field hm]

private theorem dependencyAt_entryElement (clean : CleanEntry entry) (i : Nat) :
    dependencyAt (entryElement owner entry) (locationIn managedPath i) =
      managedDependency entry i := by
  obtain ⟨group, artifact, version⟩ := entry
  obtain ⟨hgroup, hartifact, value, hversion, hvalue⟩ := clean
  cases hversion
  have hread : ∀ {text : String}, Clean text → ∀ name,
      trimmedText? (.element ⟨owner.space, name⟩ [] text []) = some text := by
    intro text hc name
    rw [trimmedText?, XmlNode.text, if_neg hc.nonempty, hc.trimmed]
  simp [dependencyAt, textOf, firstNamed?_entryElement hs, entryFields, hread hgroup,
    hread hartifact, hread hvalue,
    managedDependency, orText]

end Entries

section Reading

/-- A dependency management decides what is read of a POM as managed dependencies and nothing
else. -/
theorem ofRoot_of_firstNamed? (h : ∀ label, label ≠ "" → label ≠ "dependencyManagement" →
      firstNamed? label edited = firstNamed? label root) :
    ofRoot edited =
      { ofRoot root with management := dependenciesIn managedPath (managedSection? edited) } := by
  simp only [ofRoot, textOf, h "parent" (by decide) (by decide),
    h "groupId" (by decide) (by decide),
    h "artifactId" (by decide) (by decide), h "version" (by decide) (by decide),
    h "properties" (by decide) (by decide), h "dependencies" (by decide) (by decide),
    h "modules" (by decide) (by decide), managedSection?, managedPath]

private theorem addManaged_eq (hroot : root.name? = some owner) (entries : List ManagedEntry) :
    addManaged entries root = updateSection owner "dependencyManagement"
      (updateSection owner "dependencies" (addBehind (entryElements owner entries))) root := by
  have howner : rootNameOf root = owner := by rw [rootNameOf, hroot]; rfl
  rw [addManaged, howner]
  rfl

variable (hs : owner.space = some pomSpace ∨ owner.space = none)
include hs

private theorem named_entryElements (h : InSpace owner.space list) (isElement : list.name?.isSome)
    (entries : List ManagedEntry) :
    named "dependency" (addBehind (entryElements owner entries) list) =
      named "dependency" list ++ entries.map (entryElement owner) := by
  have hall : (entryElements owner entries).filter (fun child => child.1.localName = "dependency") =
      entryElements owner entries := by
    refine List.filter_eq_self.2 (List.forall_mem_map.2 fun entry _ => decide_eq_true ?_)
    rw [entryElement_eq hs]
    exact localName_of_braceless (by decide)
  rw [named_addBehind hs h isElement (inSpace_entryElements hs entries) (by decide), hall,
    entryElements, List.map_map]
  rfl

/-- Entries that are added to a list are read behind those that are there. -/
theorem dependenciesIn_addBehind (h : InSpace owner.space list) (isElement : list.name?.isSome)
    (clean : ∀ entry ∈ entries, CleanEntry entry) :
    dependenciesIn managedPath (some (addBehind (entryElements owner entries) list)) =
      dependenciesIn managedPath (some list) ++
        managedDependencies (dependenciesIn managedPath (some list)).length entries := by
  have hlen : (dependenciesIn managedPath (some list)).length =
      (named "dependency" list).length := by
    simp [dependenciesIn]
  rw [hlen]
  simp only [managedDependencies, dependenciesIn,
    named_entryElements hs h isElement, List.zipIdx_append,
    List.map_append, Nat.zero_add, List.zipIdx_map, List.map_map]
  refine congrArg _ (List.map_congr_left fun numbered hm => ?_)
  obtain ⟨entry, i⟩ := numbered
  exact dependencyAt_entryElement hs (clean entry (List.fst_mem_of_mem_zipIdx hm)) i

/-- The change of a dependency management that entries are added to. -/
theorem keepsNames_addEntries (entries : List ManagedEntry) :
    KeepsNames owner.space
      (updateSection owner "dependencies" (addBehind (entryElements owner entries))) :=
  (keepsNames_addBehind (inSpace_entryElements hs entries)).updateSection hs (by decide)

variable (hroot : root.name? = some owner) (h : InSpace owner.space root)
include hroot h

/-- The section of managed dependencies after the addition: the one that was there, or else an empty
one, with the new elements behind its children. -/
theorem managedSection?_addManaged (entries : List ManagedEntry) :
    managedSection? (addManaged entries root) = some (addBehind (entryElements owner entries)
      ((managedSection? root).getD (emptyElement ⟨owner.space, "dependencies"⟩))) := by
  have hentries := keepsNames_addBehind (inSpace_entryElements hs entries)
  have hsection := keepsNames_addEntries hs entries
  have isElement : root.name?.isSome := by rw [hroot]; rfl
  rw [addManaged_eq hroot, managedSection?,
    firstNamed?_updateSection hs hsection (by decide) h isElement (by decide),
    Option.bind_some]
  cases hm : firstNamed? "dependencyManagement" root with
  | none =>
    have hnew : InSpace owner.space (emptyElement ⟨owner.space, "dependencyManagement"⟩) :=
      inSpace_emptyElement owner.space (by decide)
    rw [Option.getD_none,
      firstNamed?_updateSection hs hentries (by decide) hnew rfl (by decide), managedSection?, hm]
    rfl
  | some management =>
    have hmem : management ∈ named "dependencyManagement" root := List.mem_of_head? hm
    rw [Option.getD_some,
      firstNamed?_updateSection hs hentries (by decide) (h.of_named hmem) (isElement_of_named hmem)
      (by decide), managedSection?, hm, Option.bind_some]

/-- The managed dependencies that are read after an addition. -/
theorem management_addManaged (clean : ∀ entry ∈ entries, CleanEntry entry) :
    dependenciesIn managedPath (managedSection? (addManaged entries root)) =
      (ofRoot root).management ++ managedDependencies (ofRoot root).management.length entries := by
  have hmanagement : (ofRoot root).management = dependenciesIn managedPath (managedSection? root) :=
    rfl
  rw [hmanagement, managedSection?_addManaged hs hroot h]
  cases hm : managedSection? root with
  | none =>
    have hnew : InSpace owner.space (emptyElement ⟨owner.space, "dependencies"⟩) :=
      inSpace_emptyElement owner.space (by decide)
    exact dependenciesIn_addBehind hs hnew rfl clean
  | some list =>
    obtain ⟨management, hfirst, hlist⟩ := Option.bind_eq_some_iff.1 hm
    have hmem : list ∈ named "dependencies" management := List.mem_of_head? hlist
    have hlist := (h.of_named (List.mem_of_head? hfirst)).of_named hmem
    exact dependenciesIn_addBehind hs hlist (isElement_of_named hmem) clean

/-- The module that is read after an addition. -/
theorem ofRoot_addManaged (clean : ∀ entry ∈ entries, CleanEntry entry) :
    ofRoot (addManaged entries root) = { ofRoot root with
      management :=
        (ofRoot root).management ++ managedDependencies
          (ofRoot root).management.length entries } := by
  have hsection := keepsNames_addEntries hs entries
  have isElement : root.name?.isSome := by rw [hroot]; rfl
  have hothers : ∀ label, label ≠ "" → label ≠ "dependencyManagement" →
      firstNamed? label (addManaged entries root) = firstNamed? label root := by
    intro label hl hne
    rw [addManaged_eq hroot]
    exact firstNamed?_updateSection_of_ne hs hsection (by decide) h isElement hl hne
  rw [ofRoot_of_firstNamed? hothers, management_addManaged hs hroot h clean]

end Reading

section Locations

/-- The steps to the list of managed dependencies. -/
def managedSteps : List PomStep := [⟨"dependencyManagement", 0⟩, ⟨"dependencies", 0⟩]

/-- Nothing is added but children of one node on the way to the list of managed dependencies. -/
theorem exists_addedAt_addManaged (entries : List ManagedEntry) (root : XmlNode) :
    ∃ init, init <+: managedSteps ∧ AddedAt init root (addManaged entries root) := by
  refine exists_addedAt_updateSection _ _ (fun management => ?_) root
  refine exists_addedAt_updateSection _ _ (fun list => ?_) management
  exact ⟨[], List.prefix_rfl, [], _, rfl, rfl⟩

/-- A path leads to the same place after the addition. -/
theorem locatePom_addManaged (entries : List ManagedEntry) {place : List Nat}
    (h : locatePom path root = .ok (some place)) :
    locatePom path (addManaged entries root) = .ok (some place) := by
  obtain ⟨init, -, added⟩ := exists_addedAt_addManaged entries root
  obtain ⟨steps, hp, hs⟩ := locatePom_eq_ok_iff.1 h
  exact locatePom_eq_ok_iff.2 ⟨steps, hp, (added.locate_eq hs).1⟩

/-- What is looked up by its name is reached by a step of this name. -/
theorem reached_of_named (hs : space = some pomSpace ∨ space = none)
    (h : InSpace space node) (hl : label ≠ "")
    (hn : (named label node)[i]? = some element) (rest : List PomStep) :
    reached (⟨label, i⟩ :: rest) node = reached rest element := by
  rw [named_eq_childrenNamed h hs hl, List.getElem?_map, Option.map_eq_some_iff] at hn
  obtain ⟨child, hc, rfl⟩ := hn
  obtain ⟨k, hk, hg⟩ := position?_of_filter hc
  rw [reached, locate_cons, hk, Option.bind_some, hg, Option.bind_some, Option.bind_map, reached]
  congr 1
  funext below
  rw [Function.comp_apply, at?, hg, Option.bind_some]

/-- The element at the location of a dependency is the one that it was read from. -/
structure ReadAt (root : XmlNode) (d : Dependency) (location : String)
    (steps : List PomStep) (element : XmlNode) :
    Prop where
  recorded : d.location = some location
  parsed : parse location = .ok steps
  reaches : reached steps root = some element
  read : dependencyAt element location = d

private theorem exists_readAt (pom : UnmixedPom root) (numbered : Numbered (ofRoot root))
    (hd : d ∈ (ofRoot root).dependencies ++ (ofRoot root).management) :
    ∃ location steps element, ReadAt root d location steps element ∧ ¬ steps <+: managedSteps := by
  obtain ⟨space, hs, h⟩ := pom
  rcases List.mem_append.1 hd with hd | hd
  · obtain ⟨list, i, element, hl, hm, rfl⟩ := mem_dependenciesIn.1 hd
    have hz := named_zero_of_first hl
    refine ⟨locationIn directPath i, _, element,
      ⟨rfl, parse_directLocation (numbered.direct_of_named hl hm), ?_, rfl⟩, ?_⟩
    · rw [reached_of_named hs h (by decide) hz,
        reached_of_named hs (h.of_named (List.mem_of_getElem? hz)) (by decide) hm]
      rfl
    · simp [managedSteps, List.cons_prefix_cons]
  · obtain ⟨list, i, element, hl, hm, rfl⟩ := mem_dependenciesIn.1 hd
    have hi := numbered.managed_of_named hl hm
    obtain ⟨management, hg, hl⟩ := Option.bind_eq_some_iff.1 hl
    have hgz := named_zero_of_first hg
    have hlz := named_zero_of_first hl
    have hmanagement := h.of_named (List.mem_of_getElem? hgz)
    refine ⟨locationIn managedPath i, _, element, ⟨rfl, parse_managedLocation hi, ?_, rfl⟩, ?_⟩
    · rw [reached_of_named hs h (by decide) hgz, reached_of_named hs hmanagement (by decide) hlz,
        reached_of_named hs (hmanagement.of_named (List.mem_of_getElem? hlz)) (by decide) hm]
      rfl
    · simp [managedSteps, List.cons_prefix_cons]

/-- The location of a dependency that was read leads to the same element after the addition. -/
theorem location_addManaged (pom : UnmixedPom root) (numbered : Numbered (ofRoot root))
    (entries : List ManagedEntry)
    (hd : d ∈ (ofRoot root).dependencies ++ (ofRoot root).management) :
    ∃ location place element, d.location = some location ∧ dependencyAt element location = d ∧
      locatePom location root = .ok (some place) ∧ root.at? place = some element ∧
      locatePom location (addManaged entries root) = .ok (some place) ∧
      (addManaged entries root).at? place = some element := by
  obtain ⟨location, steps, element, hread, hsteps⟩ := exists_readAt pom numbered hd
  obtain ⟨init, hinit, added⟩ := exists_addedAt_addManaged entries root
  obtain ⟨place, hp, he⟩ := Option.bind_eq_some_iff.1 hread.reaches
  have hl := locatePom_eq_ok_iff.2 ⟨steps, hread.parsed, hp⟩
  have hsame := (added.locate_eq hp).2 fun above => hsteps (above.trans hinit)
  exact ⟨location, place, element, hread.recorded, hread.read, hl, he,
    locatePom_addManaged entries hl,
    hsame.trans he⟩

end Locations

section Declared

variable {settings : AlignmentSettings} {m : PomModule} {injects : Bool} {inherited : PropertyScope}
  {r : AlignmentResult} {target : String} {injected : List ManagedEntry}

/-- The key of the dependency that an entry is for. -/
def entryKey (entry : ManagedEntry) : String := coordinateKey entry.group entry.artifact

private theorem map_ga_managedDependencies (n : Nat) (entries : List ManagedEntry) :
    (managedDependencies n entries).map Dependency.ga = entries.map entryKey := by
  have hsame : Dependency.ga ∘ (fun (entry, i) => managedDependency entry i) =
    entryKey ∘ Prod.fst := rfl
  rw [managedDependencies, List.map_map, hsame, ← List.map_map, List.zipIdx_map_fst]

/-- Of the candidates that a module does not declare, those for dependencies added to its management
are declared. -/
theorem undeclared_added (settings : AlignmentSettings) (m : PomModule) (n : Nat)
    (entries : List ManagedEntry) :
    undeclared settings { m with management := m.management ++ managedDependencies n entries } =
      (undeclared settings m).filter fun other => entryKey other ∉ entries.map entryKey := by
  rw [undeclared_eq, undeclared_eq, List.filter_map, candidatesBeyond,
    candidatesBeyond, List.filter_filter]
  refine congrArg (List.map entryOf) (List.filter_congr fun c _ => ?_)
  have hkey : entryKey (entryOf c) = c.ga := rfl
  simp only [considered, List.map_append, map_ga_managedDependencies, List.mem_append,
    Function.comp_apply, hkey,
    ← Bool.decide_and, decide_eq_decide]
  tauto

private theorem eq_undeclared_of_inject (hnone : r.injected = ∅)
    (hi : (inject settings m r).injected.get? target = some injected) :
    injected = undeclared settings m := by
  unfold inject at hi
  cases hu : undeclared settings m with
  | nil =>
    rw [hu, hnone] at hi
    cases hi
  | cons first others =>
    rw [hu, hnone] at hi
    rw [OrderedMap.get?_insert] at hi
    split at hi
    · exact (Option.some.inj hi).symm
    · cases hi

/-- Whatever a module receives is what it does not declare. -/
theorem eq_undeclared_of_align (aligned : (align settings m injects inherited).1 = .ok r)
    (hi : r.injected.get? target = some injected) : injected = undeclared settings m := by
  obtain ⟨r₀, hr, rfl⟩ := align_eq_ok_iff.1 aligned
  have hnone : r₀.injected = ∅ := alignAll_injected hr
  split at hi
  · exact eq_undeclared_of_inject hnone hi
  · rw [hnone] at hi
    cases hi

end Declared

/-- Reading a POM after entries were added gives the same module with their dependencies as the last
managed ones.  Every path leads where it led before, and the location of every dependency that was
read leads to the same element.  A module so read receives none of the added entries from alignment,
but all others that it would have received. -/
theorem managed_additions_are_read (pom : UnmixedPom root) (numbered : Numbered (ofRoot root))
    (isElement : root.name?.isSome)
    (clean : ∀ entry ∈ entries, CleanEntry entry) :
    ofRoot (addManaged entries root) = { ofRoot root with
      management :=
        (ofRoot root).management ++ managedDependencies (ofRoot root).management.length entries } ∧
    (∀ path place, locatePom path root = .ok (some place) →
      locatePom path (addManaged entries root) = .ok (some place)) ∧
    (∀ d ∈ (ofRoot root).dependencies ++ (ofRoot root).management,
      ∃ location place element, d.location = some location ∧ dependencyAt element location = d ∧
        locatePom location root = .ok (some place) ∧ root.at? place = some element ∧
        locatePom location (addManaged entries root) = .ok (some place) ∧
        (addManaged entries root).at? place = some element) ∧
    ∀ settings directory injects inherited r,
      (align settings { ofRoot (addManaged entries root) with directory } injects inherited).1 =
        .ok r →
      ∀ target injected, r.injected.get? target = some injected →
        (∀ entry ∈ entries, entryKey entry ∉ injected.map entryKey) ∧
          injected = (undeclared settings { ofRoot root with directory }).filter fun other =>
            entryKey other ∉ entries.map entryKey := by
  obtain ⟨owner, hroot⟩ := Option.isSome_iff_exists.1 isElement
  have hpom := pom
  obtain ⟨space, hs, h⟩ := hpom
  obtain rfl := h.space_eq hroot
  have hread := ofRoot_addManaged hs hroot h clean
  refine ⟨hread, fun path place => locatePom_addManaged entries,
    fun d => location_addManaged pom numbered entries, ?_⟩
  intro settings directory injects inherited r aligned target injected hi
  have hrest : injected = (undeclared settings { ofRoot root with directory }).filter fun other =>
      entryKey other ∉ entries.map entryKey := by
    rw [eq_undeclared_of_align aligned hi, hread]
    exact undeclared_added settings { ofRoot root with directory } _ entries
  refine ⟨fun entry he hkey => ?_, hrest⟩
  obtain ⟨other, ho, hsame⟩ := List.mem_map.1 hkey
  rw [hrest, List.mem_filter, decide_eq_true_iff, hsame] at ho
  exact ho.2 (List.mem_map_of_mem he)

/-- One managed dependency, among comments, in the first of two sections. -/
def sparse : XmlNode :=
  let leaf label text : XmlChild := (.element ⟨some pomSpace, label⟩ [] text [], "")
  let node label children : XmlChild := (.element ⟨some pomSpace, label⟩ [] "" children, "")
  .element ⟨some pomSpace, "project"⟩ [] "" [
    (.comment "first", ""),
    node "dependencyManagement" [
      node "dependencies" [
        (.comment "second", ""),
        node "dependency" [leaf "groupId" "g", leaf "artifactId" "a", leaf "version" "1.0"],
        (.comment "last", "")]],
    node "dependencyManagement" []]

private theorem unmixedPom_sparse : UnmixedPom sparse := by
  refine ⟨some pomSpace, .inl rfl, ?_⟩
  repeat' first
    | exact .comment _
    | refine .element _ _ (by decide) ?_
    | refine List.forall_mem_cons.2 ⟨?_, ?_⟩
    | exact List.forall_mem_nil _

private theorem numbered_sparse : Numbered (ofRoot sparse) := ⟨by decide +kernel, by decide +kernel⟩

/-- The candidates of `managedAlone` that `sparse` does not declare. -/
def missing : List ManagedEntry := [⟨"g", "c", some "1.0"⟩, ⟨"g", "b", some "2.0"⟩]

private theorem cleanEntry_missing : ∀ entry ∈ missing, CleanEntry entry := by
  have texts : ∀ text ∈ ["g", "b", "c", "1.0", "2.0"], text ≠ "" ∧
      BlankText.trimmed text = text := by
    decide +kernel
  have hclean : ∀ text ∈ ["g", "b", "c", "1.0", "2.0"], Clean text := by
    intro text hm
    exact ⟨(texts text hm).1, (texts text hm).2⟩
  simp only [missing, List.forall_mem_cons, List.not_mem_nil, false_implies, implies_true, and_true]
  exact ⟨⟨hclean "g" (by decide), hclean "c" (by decide), _, rfl, hclean "1.0" (by decide)⟩,
    ⟨hclean "g" (by decide), hclean "b" (by decide), _, rfl, hclean "2.0" (by decide)⟩⟩

/-- The dependencies that are missing are received once. -/
theorem managed_additions_are_read_sparse :
    UnmixedPom sparse ∧ Numbered (ofRoot sparse) ∧ sparse.name?.isSome = true ∧
      (∀ entry ∈ missing, CleanEntry entry) ∧
    (align managedAlone (ofRoot sparse) true ∅).1.toOption.bind
      (fun r => r.injected.get? "pom.xml") = some missing ∧
    (ofRoot (addManaged missing sparse)).management = [
      ⟨"g", "a", some "1.0", "compile", none,
        some "dependencyManagement/dependencies/dependency[0]"⟩,
      ⟨"g", "c", some "1.0", "compile", none,
        some "dependencyManagement/dependencies/dependency[1]"⟩,
      ⟨"g", "b", some "2.0", "compile", none,
        some "dependencyManagement/dependencies/dependency[2]"⟩] ∧
    locatePom "dependencyManagement/dependencies/dependency[0]" (addManaged missing sparse) =
      .ok (some [1, 0, 1]) ∧
    ∃ r, (align managedAlone (ofRoot (addManaged missing sparse)) true ∅).1 = .ok r ∧
      ∀ injected, r.injected.get? "pom.xml" = some injected →
        ∀ entry ∈ missing, entryKey entry ∉ injected.map entryKey := by
  obtain ⟨hread, hpaths, -, hagain⟩ :=
    managed_additions_are_read unmixedPom_sparse numbered_sparse rfl cleanEntry_missing
  have hplace : locatePom "dependencyManagement/dependencies/dependency[0]" sparse =
      .ok (some [1, 0, 1]) := by
    decide +kernel
  have hruns : (align managedAlone (ofRoot (addManaged missing sparse)) true ∅).1.isOk = true := by
    decide +kernel
  obtain ⟨r, hr⟩ := exists_of_isOk hruns
  refine ⟨unmixedPom_sparse, numbered_sparse, rfl, cleanEntry_missing, by decide +kernel, ?_,
    hpaths _ _ hplace, r, hr, ?_⟩
  · rw [hread]
    decide +kernel
  · intro injected hi
    exact (hagain managedAlone none true ∅ r hr "pom.xml" injected hi).1

end BuildAlign.PomModule
