import BuildAlign.DocumentEdits
import BuildAlign.PomModule
import BuildAlign.Proofs.OrderedMapLookup
import BuildAlign.Proofs.PomPathSpelling
import Mathlib.Data.List.TakeWhile

/-! # Reading a POM and finding its elements again

Reading looks elements up by their qualified names, and paths by their names alone.  In a POM whose
elements are all in one namespace, or all in none, both find the same elements. -/
namespace BuildAlign.XmlNode

variable {name : String} {children : List XmlChild}

/-- What a step leads to has its name. -/
theorem child_of_position? {index i : Nat} (h : position? name index children = some i) :
    ∃ child tail, children[i]? = some (child, tail) ∧ child.localName = name := by
  induction children generalizing index i with
  | nil => cases h
  | cons c children ih =>
    obtain ⟨child, tail⟩ := c
    by_cases hc : child.localName = name
    · cases index with
      | zero =>
        simp only [position?, hc, if_true, Option.some.injEq] at h
        subst h
        exact ⟨child, tail, rfl, hc⟩
      | succ index =>
        simp only [position?, hc, if_true, Option.map_eq_some_iff] at h
        obtain ⟨k, hk, rfl⟩ := h
        simpa using ih hk
    · simp only [position?, hc, if_false, Option.map_eq_some_iff] at h
      obtain ⟨k, hk, rfl⟩ := h
      simpa using ih hk

end BuildAlign.XmlNode

namespace BuildAlign.PomNamespace
open PomPath XmlNode

/-- The tree of a document whose elements are all in the same namespace.  Names hold no brace, which
would look like the end of a namespace. -/
inductive InSpace (space : Option String) : XmlNode → Prop
  | element {label : String} {children : List XmlChild}
    (attributes : List (XmlName × String)) (text : String)
      (braceless : '\x7d' ∉ label.toList) (below : ∀ child ∈ children, InSpace space child.1) :
      InSpace space (.element ⟨space, label⟩ attributes text children)
  | comment (text : String) : InSpace space (.comment text)

/-- The tree of a document whose elements have plain names, all with the same namespace. -/
inductive Uniform (space : Option String) : XmlNode → Prop
  | element {label : String} {children : List XmlChild}
    (attributes : List (XmlName × String)) (text : String)
      (plain : PlainName label) (below : ∀ child ∈ children, Uniform space child.1) :
      Uniform space (.element ⟨space, label⟩ attributes text children)
  | comment (text : String) : Uniform space (.comment text)

/-- The same where names need not be plain. -/
def UnmixedPom (root : XmlNode) : Prop :=
  ∃ space, (space = some pomSpace ∨ space = none) ∧ InSpace space root

variable {space : Option String} {node : XmlNode} {label : String}

theorem cutLast?_of_notMem {c : Char} {cs : List Char} (h : c ∉ cs) :
    XmlName.cutLast? c cs = none := by
  have hd : cs.reverse.dropWhile (· ≠ c) = [] := by
    rw [List.dropWhile_eq_nil_iff]
    intro d hd
    have hne : d ≠ c := fun he => h (he ▸ List.mem_reverse.1 hd)
    simpa using hne
  simp only [XmlName.cutLast?, hd]

theorem localName_of_braceless (h : '\x7d' ∉ label.toList) :
    XmlName.localName ⟨space, label⟩ = label := by
  simp only [XmlName.localName, cutLast?_of_notMem h]

private theorem braceless_of_plain (h : PlainName label) : '\x7d' ∉ label.toList := fun hm =>
  absurd (h.plain _ hm) (by decide +kernel)

theorem Uniform.inSpace (h : Uniform space node) : InSpace space node := by
  induction h with
  | element attributes text plain below ih =>
    exact .element attributes text (braceless_of_plain plain) ih
  | comment text => exact .comment text

theorem InSpace.children (h : InSpace space node) :
    ∀ child ∈ node.children, InSpace space child.1 := by
  cases h with
  | element attributes text braceless below => exact below
  | comment text => simp [XmlNode.children]

theorem InSpace.space_eq (h : InSpace space node) {name : XmlName} (hn : node.name? = some name) :
    name.space = space := by
  cases h with
  | element attributes text braceless below => cases hn; rfl
  | comment text => cases hn

/-- With one namespace, a name without it is as good as one with it. -/
theorem InSpace.localName_eq_iff (h : InSpace space node) (hl : label ≠ "") :
    node.localName = label ↔ node.name? = some ⟨space, label⟩ := by
  cases h with
  | element attributes text braceless below =>
    simp [XmlNode.localName, name?, localName_of_braceless braceless]
  | comment text => simp [XmlNode.localName, name?, Ne.symm hl]

theorem Uniform.children (h : Uniform space node) :
    ∀ child ∈ node.children, Uniform space child.1 := by
  cases h with
  | element attributes text plain below => exact below
  | comment text => simp [XmlNode.children]

/-- The children that a path may lead to by that name. -/
def childrenNamed (label : String) (node : XmlNode) : List XmlChild :=
  node.children.filter fun child => child.1.localName = label

theorem named_eq_childrenNamed (h : InSpace space node) (hs : space = some pomSpace ∨ space = none)
    (hl : label ≠ "") : named label node = (childrenNamed label node).map Prod.fst := by
  have hsame : node.children.filter (fun child => child.1.name? = some ⟨space, label⟩) =
      childrenNamed label node := by
    apply List.filter_congr
    intro child hm
    simp [(h.children child hm).localName_eq_iff hl]
  have hnone : ∀ other ≠ space,
      node.children.filter (fun child => child.1.name? = some ⟨other, label⟩) = [] := by
    intro other ho
    rw [List.filter_eq_nil_iff]
    intro child hm hc
    exact ho ((h.children child hm).space_eq (of_decide_eq_true hc))
  rcases hs with rfl | rfl
  · have hp : node.children.filter (isPomName label) = childrenNamed label node := hsame
    have hn : node.children.filter (isPlainName label) = [] := hnone none (by decide)
    rw [named, hp, hn, List.append_nil]
  · have hp : node.children.filter (isPomName label) = [] := hnone (some pomSpace) (by decide)
    have hn : node.children.filter (isPlainName label) = childrenNamed label node := hsame
    rw [named, hp, hn, List.nil_append]

/-- A step counts the children of its name. -/
theorem child_at_position? (label : String) (i : Nat) (children : List XmlChild) :
    (position? label i children).bind (children[·]?) =
      (children.filter fun child => child.1.localName = label)[i]? := by
  induction children generalizing i with
  | nil => rfl
  | cons c children ih =>
    obtain ⟨first, tail⟩ := c
    by_cases hc : first.localName = label
    · rw [List.filter_cons_of_pos (by simpa using hc)]
      cases i with
      | zero => simp [position?, hc]
      | succ i => simpa [position?, hc, Option.bind_map, Function.comp_def] using ih i
    · rw [List.filter_cons_of_neg (by simpa using hc)]
      simpa [position?, hc, Option.bind_map, Function.comp_def] using ih i

theorem position?_of_filter {children : List XmlChild} {i : Nat} {child : XmlChild}
    (h : (children.filter fun child => child.1.localName = label)[i]? = some child) :
    ∃ k, position? label i children = some k ∧ children[k]? = some child := by
  rw [← child_at_position?] at h
  exact Option.bind_eq_some_iff.1 h

/-- The steps lead to a node below this one. -/
def Leads (steps : List PomStep) (node : XmlNode) : Prop := ∃ place, locate steps node = some place

private theorem leads_nil (node : XmlNode) : Leads [] node := ⟨[], rfl⟩

private theorem leads_cons {i : Nat} {child : XmlChild} {rest : List PomStep}
    (hc : (childrenNamed label node)[i]? = some child) (hr : Leads rest child.1) :
    Leads (⟨label, i⟩ :: rest) node := by
  obtain ⟨k, hk, hg⟩ := position?_of_filter hc
  obtain ⟨place, hp⟩ := hr
  exact ⟨k :: place, by simp [locate, hk, hg, hp]⟩

private theorem InSpace.leads_of_named (h : InSpace space node)
    (hs : space = some pomSpace ∨ space = none)
    (hl : label ≠ "") {i : Nat} {element : XmlNode} {rest : List PomStep}
    (hn : (named label node)[i]? = some element) (hr : Leads rest element) :
    Leads (⟨label, i⟩ :: rest) node := by
  rw [named_eq_childrenNamed h hs hl, List.getElem?_map, Option.map_eq_some_iff] at hn
  obtain ⟨child, hc, rfl⟩ := hn
  exact leads_cons hc hr

theorem child_of_named {element : XmlNode} (hm : element ∈ named label node) :
    ∃ child ∈ node.children, child.1 = element := by
  obtain ⟨child, hc, rfl⟩ := List.mem_map.1 hm
  rcases List.mem_append.1 hc with hc | hc
  · exact ⟨child, List.mem_of_mem_filter hc, rfl⟩
  · exact ⟨child, List.mem_of_mem_filter hc, rfl⟩

theorem InSpace.of_named (h : InSpace space node) {element : XmlNode}
    (hm : element ∈ named label node) :
    InSpace space element := by
  obtain ⟨child, hc, rfl⟩ := child_of_named hm
  exact h.children child hc

theorem Uniform.of_named (h : Uniform space node) {element : XmlNode}
    (hm : element ∈ named label node) :
    Uniform space element := by
  obtain ⟨child, hc, rfl⟩ := child_of_named hm
  exact h.children child hc

theorem named_zero_of_first {element : XmlNode} (h : firstNamed? label node = some element) :
    (named label node)[0]? = some element := by
  rw [← List.head?_eq_getElem?]
  exact h

end BuildAlign.PomNamespace

namespace BuildAlign.PomModule
open PomNamespace PomPath ModuleAlignment

variable {root : XmlNode}

/-- The positions of all dependencies have few enough digits to be read in a path.  A list with
another position fits into no memory. -/
structure Numbered (m : PomModule) : Prop where
  direct : ∀ i < m.dependencies.length, DecimalDigits.Short i
  managed : ∀ i < m.management.length, DecimalDigits.Short i

theorem Numbered.direct_of_named (h : Numbered (ofRoot root)) {list element : XmlNode} {i : Nat}
    (hl : firstNamed? "dependencies" root = some list)
    (hm : (named "dependency" list)[i]? = some element) :
    DecimalDigits.Short i := by
  refine h.direct i ?_
  change i < (dependenciesIn _ (firstNamed? "dependencies" root)).length
  rw [hl, length_dependenciesIn]
  exact (List.getElem?_eq_some_iff.1 hm).1

theorem Numbered.managed_of_named (h : Numbered (ofRoot root)) {list element : XmlNode} {i : Nat}
    (hl : (firstNamed? "dependencyManagement" root).bind (firstNamed? "dependencies") = some list)
    (hm : (named "dependency" list)[i]? = some element) : DecimalDigits.Short i := by
  refine h.managed i ?_
  change i <
    (dependenciesIn _
    ((firstNamed? "dependencyManagement" root).bind (firstNamed? "dependencies"))).length
  rw [hl, length_dependenciesIn]
  exact (List.getElem?_eq_some_iff.1 hm).1

/-- The path finds a node below the root. -/
def Resolves (path : String) (root : XmlNode) : Prop :=
  ∃ place, DocumentEdits.locatePom path root = .ok (some place)

theorem locatePom_eq_ok_iff {path : String} {place? : Option (List Nat)} :
    DocumentEdits.locatePom path root = .ok place? ↔
      ∃ steps, parse path = .ok steps ∧ locate steps root = place? := by
  rw [DocumentEdits.locatePom, find?]
  cases parse path with
  | error e => exact iff_of_false nofun (by rintro ⟨_, ⟨⟩, -⟩)
  | ok steps =>
    constructor
    · rintro ⟨⟩
      exact ⟨steps, rfl, rfl⟩
    · rintro ⟨_, ⟨⟩, rfl⟩
      rfl

theorem resolves_of_leads {path : String} {steps : List PomStep} (hp : parse path = .ok steps)
    (hl : Leads steps root) : Resolves path root :=
  hl.imp fun _ hplace => locatePom_eq_ok_iff.2 ⟨steps, hp, hplace⟩

theorem child_of_property {list : XmlNode} {name value : String}
    (h : (propertiesIn list).get? name = some value) :
    ∃ child ∈ list.children, child.1.localName = name ∧ name ≠ "" := by
  obtain ⟨child, hc, hv⟩ := List.mem_filterMap.1 (OrderedMap.mem_of_get?_ofList h)
  by_cases hn : child.1.localName = ""
  · simp [hn] at hv
  · simp only [hn, if_false, Option.map_eq_some_iff] at hv
    obtain ⟨text, -, he⟩ := hv
    cases he
    exact ⟨child, hc, rfl, hn⟩

/-- The section that a property was read from. -/
theorem section_of_property {name value : String}
    (h : (ofRoot root).properties.get? name = some value) :
    ∃ list, firstNamed? "properties" root = some list ∧
      (propertiesIn list).get? name = some value := by
  have he : (ofRoot root).properties = ((firstNamed? "properties" root).map propertiesIn).getD ∅ :=
    rfl
  rw [he] at h
  cases hf : firstNamed? "properties" root with
  | none => rw [hf] at h; cases h
  | some list => exact ⟨list, rfl, by rwa [hf] at h⟩

theorem first_of_property {list : XmlNode} {name value : String}
    (h : (propertiesIn list).get? name = some value) :
    ∃ first, (childrenNamed name list)[0]? = some first := by
  obtain ⟨child, hc, hl, -⟩ := child_of_property h
  have hm : child ∈ childrenNamed name list := List.mem_filter.2 ⟨hc, by simp [hl]⟩
  exact ⟨_, List.getElem?_eq_getElem (List.length_pos_of_mem hm)⟩

/-- The steps to a property that was read. -/
theorem leads_property (h : UnmixedPom root) {name value : String}
    (hp : (ofRoot root).properties.get? name = some value) :
    Leads [⟨"properties", 0⟩, ⟨name, 0⟩] root := by
  obtain ⟨space, hs, hu⟩ := h
  obtain ⟨list, hf, hp⟩ := section_of_property hp
  obtain ⟨first, hg⟩ := first_of_property hp
  have hproperty : Leads [⟨name, 0⟩] list := leads_cons hg (leads_nil _)
  exact hu.leads_of_named hs (by decide) (named_zero_of_first hf) hproperty

/-- A section that leads to a list of dependencies leads to the versions that were read from it. -/
theorem leads_version {space : Option String} {list : XmlNode} (hu : InSpace space list)
    (hs : space = some pomSpace ∨ space = none) {i : Nat} {element : XmlNode}
    (hm : (named "dependency" list)[i]? = some element) {version : String}
    (hv : textOf "version" element = some version) :
    Leads [⟨"dependency", i⟩, ⟨"version", 0⟩] list := by
  obtain ⟨node, hf, -⟩ := Option.bind_eq_some_iff.1 hv
  have hue := hu.of_named (List.mem_of_getElem? hm)
  have hversion : Leads [⟨"version", 0⟩] element :=
    hue.leads_of_named hs (by decide) (named_zero_of_first hf) (leads_nil node)
  exact hu.leads_of_named hs (by decide) hm hversion

theorem resolves_directPath (h : UnmixedPom root) (numbered : Numbered (ofRoot root))
    {d : Dependency} (hd : d ∈ (ofRoot root).dependencies)
    {version : String} (hv : d.version = some version) : Resolves (versionPath d) root := by
  obtain ⟨space, hs, hu⟩ := h
  obtain ⟨list, i, element, hf, hm, rfl⟩ := mem_dependenciesIn.1 hd
  have hz := named_zero_of_first hf
  have hversion := leads_version (hu.of_named (List.mem_of_getElem? hz)) hs hm hv
  apply resolves_of_leads (parse_directPath (numbered.direct_of_named hf hm))
  exact hu.leads_of_named hs (by decide) hz hversion

theorem resolves_managedPath (h : UnmixedPom root) (numbered : Numbered (ofRoot root))
    {d : Dependency} (hd : d ∈ (ofRoot root).management)
    {version : String} (hv : d.version = some version) : Resolves (versionPath d) root := by
  obtain ⟨space, hs, hu⟩ := h
  obtain ⟨list, i, element, hf, hm, rfl⟩ := mem_dependenciesIn.1 hd
  have hi := numbered.managed_of_named hf hm
  obtain ⟨management, hg, hf⟩ := Option.bind_eq_some_iff.1 hf
  have hgz := named_zero_of_first hg
  have hug := hu.of_named (List.mem_of_getElem? hgz)
  have hz := named_zero_of_first hf
  have hversion := leads_version (hug.of_named (List.mem_of_getElem? hz)) hs hm hv
  have hlist := hug.leads_of_named hs (by decide) hz hversion
  apply resolves_of_leads (parse_managedPath hi)
  exact hu.leads_of_named hs (by decide) hgz hlist

end BuildAlign.PomModule
