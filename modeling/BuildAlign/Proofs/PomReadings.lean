import BuildAlign.Proofs.PomLookups

/-! # What is read of a POM

Reading a POM is looking elements up by their names and taking the texts of some of them.  A change
that is made at all nodes, and that look-ups do not notice, leaves the module as it is if it leaves
these texts. -/
namespace BuildAlign.PomModule
open PomNamespace

/-- The elements that are read under these names. -/
def fields (labels : List String) (node : XmlNode) : List XmlNode :=
  labels.filterMap (firstNamed? · node)

def coordinateLabels : List String := ["groupId", "artifactId", "version"]

def dependencyLabels : List String := ["groupId", "artifactId", "version", "scope", "type"]

/-- The children that have a name. -/
def namedChildren (node : XmlNode) : List XmlNode :=
  (node.children.map Prod.fst).filter (·.localName ≠ "")

/-- The elements whose texts make up the dependencies of a section. -/
def dependencyFields (list : XmlNode) : List XmlNode :=
  (named "dependency" list).flatMap (fields dependencyLabels)

/-- The elements whose texts make up the module. -/
def textElements (root : XmlNode) : List XmlNode :=
  fields coordinateLabels root ++
    (firstNamed? "parent" root).toList.flatMap (fields coordinateLabels) ++
  (firstNamed? "properties" root).toList.flatMap namedChildren ++
  (firstNamed? "dependencies" root).toList.flatMap dependencyFields ++
  (managedSection? root).toList.flatMap dependencyFields ++
  (firstNamed? "modules" root).toList.flatMap (named "module")

/-- A change of trees of some kind, at all of their nodes, after which every look-up finds what it
found before, changed in the same way. -/
structure KeepsLookups (P : XmlNode → Prop) (f : XmlNode → XmlNode) : Prop where
  localName : ∀ node, (f node).localName = node.localName
  named : ∀ node, P node → ∀ label, label ≠ "" → named label (f node) = (named label node).map f
  namedChildren : ∀ node, P node → namedChildren (f node) = (namedChildren node).map f
  below : ∀ node, P node → ∀ child ∈ node.children, P child.1

/-- The same text is read of the node after the change. -/
def KeepsText (f : XmlNode → XmlNode) (node : XmlNode) : Prop :=
  trimmedText? (f node) = trimmedText? node

namespace KeepsLookups
variable {P : XmlNode → Prop} {f : XmlNode → XmlNode}
  {node element list root : XmlNode} {label path : String}

private theorem firstNamed?_eq (h : KeepsLookups P f) (hp : P node) (hl : label ≠ "") :
    firstNamed? label (f node) = (firstNamed? label node).map f := by
  rw [firstNamed?, firstNamed?, h.named node hp label hl, List.head?_map]

theorem of_named (h : KeepsLookups P f) (hp : P node)
    (hm : element ∈ PomNamespace.named label node) :
    P element := by
  obtain ⟨child, hc, rfl⟩ := child_of_named hm
  exact h.below node hp child hc

private theorem of_first (h : KeepsLookups P f) (hp : P node)
    (hf : firstNamed? label node = some element) :
    P element := h.of_named hp (List.mem_of_getElem? (named_zero_of_first hf))

/-- What is read of the first element of a name, or of its absence, is read after the change. -/
theorem read_first {α : Type} (read : Option XmlNode → α) (h : KeepsLookups P f)
    (hp : P node) (hl : label ≠ "")
    (hr : ∀ element, firstNamed? label node = some element → P element →
      read (some (f element)) = read (some element)) :
    read (firstNamed? label (f node)) = read (firstNamed? label node) := by
  rw [h.firstNamed?_eq hp hl]
  cases hf : firstNamed? label node with
  | none => rfl
  | some element => exact hr element hf (h.of_first hp hf)

private theorem textOf_eq (h : KeepsLookups P f) (hp : P node)
    {labels : List String} (hm : label ∈ labels)
    (hl : label ≠ "") (ht : ∀ element ∈ fields labels node, KeepsText f element) :
    textOf label (f node) = textOf label node :=
  h.read_first (·.bind trimmedText?) hp hl fun element hf _ =>
    ht element (List.mem_filterMap.2 ⟨label, hm, hf⟩)

private theorem dependencyAt_eq (h : KeepsLookups P f) (hp : P node)
    (ht : ∀ element ∈ fields dependencyLabels node, KeepsText f element) (location : String) :
    dependencyAt (f node) location = dependencyAt node location := by
  simp only [dependencyAt, h.textOf_eq hp (by decide : "groupId" ∈ dependencyLabels) (by decide) ht,
    h.textOf_eq hp (by decide : "artifactId" ∈ dependencyLabels) (by decide) ht,
    h.textOf_eq hp (by decide : "version" ∈ dependencyLabels) (by decide) ht,
    h.textOf_eq hp (by decide : "scope" ∈ dependencyLabels) (by decide) ht,
    h.textOf_eq hp (by decide : "type" ∈ dependencyLabels) (by decide) ht]

private theorem dependenciesIn_eq (h : KeepsLookups P f) (hp : P list)
    (ht : ∀ element ∈ dependencyFields list, KeepsText f element) :
    dependenciesIn path (some (f list)) = dependenciesIn path (some list) := by
  simp only [dependenciesIn, h.named list hp "dependency" (by decide),
    List.zipIdx_map, List.map_map]
  refine List.map_congr_left fun entry hm => ?_
  obtain ⟨element, i⟩ := entry
  have he : element ∈ PomNamespace.named "dependency" list := List.fst_mem_of_mem_zipIdx hm
  exact h.dependencyAt_eq (h.of_named hp he)
    (fun field hf => ht field (List.mem_flatMap.2 ⟨element, he, hf⟩)) _

theorem propertiesIn_eq (h : KeepsLookups P f) (hp : P list)
    (ht : ∀ element ∈ PomModule.namedChildren list, KeepsText f element) :
    propertiesIn (f list) = propertiesIn list := by
  have hread : ∀ node, propertiesIn node =
    OrderedMap.ofList ((PomModule.namedChildren node).filterMap fun child =>
      (trimmedText? child).map (child.localName, ·)) := by
    intro node
    rw [propertiesIn, PomModule.namedChildren, List.filterMap_filter, List.filterMap_map]
    refine congrArg _ (List.filterMap_congr fun child _ => ?_)
    by_cases hn : child.1.localName = "" <;> simp [hn]
  rw [hread, hread, h.namedChildren list hp, List.filterMap_map]
  refine congrArg _ (List.filterMap_congr fun child hm => ?_)
  have htext : trimmedText? (f child) = trimmedText? child := ht child hm
  simp only [Function.comp_apply, htext, h.localName]

private theorem modulesIn_eq (h : KeepsLookups P f) (hp : P list)
    (ht : ∀ element ∈ PomNamespace.named "module" list, KeepsText f element) :
    modulesIn (f list) = modulesIn list := by
  rw [modulesIn, modulesIn, h.named list hp "module" (by decide), List.filterMap_map]
  exact List.filterMap_congr ht

/-- The same module is read after the change if the same texts are. -/
theorem ofRoot_eq (h : KeepsLookups P f) (hp : P root)
    (ht : ∀ element ∈ textElements root, KeepsText f element) :
    ofRoot (f root) = ofRoot root := by
  simp only [textElements, List.mem_append, or_imp, forall_and, List.mem_flatMap,
    Option.mem_toList] at ht
  obtain ⟨⟨⟨⟨⟨hown, hparents⟩, hproperties⟩, hdirect⟩, hmanaged⟩, hmodules⟩ := ht
  have howns : ∀ label ∈ coordinateLabels, label ≠ "" → textOf label (f root) = textOf label root :=
    fun label hm hl => h.textOf_eq hp hm hl hown
  have hparent : ∀ label ∈ coordinateLabels, label ≠ "" →
      (firstNamed? "parent" (f root)).bind (textOf label) =
        (firstNamed? "parent" root).bind (textOf label) :=
    fun label hm hl => h.read_first (·.bind (textOf label)) hp (by decide) fun parent hf hparent =>
      h.textOf_eq hparent hm hl fun element he => hparents element ⟨parent, hf, he⟩
  have hproperty : (firstNamed? "properties" (f root)).map propertiesIn =
      (firstNamed? "properties" root).map propertiesIn :=
    h.read_first (·.map propertiesIn) hp (by decide) fun list hf hlist =>
      congrArg some (h.propertiesIn_eq hlist fun element he => hproperties element ⟨list, hf, he⟩)
  have hmodule : (firstNamed? "modules" (f root)).map modulesIn =
      (firstNamed? "modules" root).map modulesIn :=
    h.read_first (·.map modulesIn) hp (by decide) fun list hf hlist =>
      congrArg some (h.modulesIn_eq hlist fun element he => hmodules element ⟨list, hf, he⟩)
  have hdependencies : ∀ {node : XmlNode} (path : String), P node →
      (∀ list, firstNamed? "dependencies" node = some list → ∀ element ∈ dependencyFields list,
        KeepsText f element) →
      dependenciesIn path (firstNamed? "dependencies" (f node)) =
        dependenciesIn path (firstNamed? "dependencies" node) :=
    fun path hnode hkept =>
      h.read_first (dependenciesIn path) hnode (by decide) fun list hf hlist =>
      h.dependenciesIn_eq hlist (hkept list hf)
  have hdeclared :=
    hdependencies "dependencies" hp fun list hf element he => hdirect element ⟨list, hf, he⟩
  have hmanagement : dependenciesIn "dependencyManagement/dependencies"
        ((firstNamed? "dependencyManagement" (f root)).bind (firstNamed? "dependencies")) =
      dependenciesIn "dependencyManagement/dependencies"
        ((firstNamed? "dependencyManagement" root).bind (firstNamed? "dependencies")) :=
    h.read_first
      (fun node =>
      dependenciesIn "dependencyManagement/dependencies" (node.bind (firstNamed? "dependencies")))
      hp (by decide) fun management hf hnode => hdependencies _ hnode fun list hlist element he =>
        hmanaged element ⟨list, by simp only [managedSection?, hf, Option.bind_some, hlist], he⟩
  simp only [ofRoot, howns "groupId" (by decide) (by decide),
    howns "artifactId" (by decide) (by decide),
    howns "version" (by decide) (by decide), hparent "groupId" (by decide) (by decide),
    hparent "artifactId" (by decide) (by decide),
      hparent "version" (by decide) (by decide), hproperty, hdeclared,
    hmanagement, hmodule]

end KeepsLookups
end BuildAlign.PomModule
