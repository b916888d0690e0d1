import BuildAlign.Proofs.ElementEdits
import BuildAlign.Proofs.NamespaceIndependence
import BuildAlign.Proofs.PropertyEdits

/-! # Additions behind what is there

A section is found by its name, or made behind the other children of its parent, and what is added
to it comes behind what it holds.  So steps lead where they led before, and a look-up finds what it
found before, with the new elements last. -/
namespace BuildAlign.XmlNode
open PomPath PomSections PomNamespace

variable {node child edited : XmlNode} {name label : String} {f : XmlNode → XmlNode}
  {above place : List Nat}
  {init steps : List PomStep} {owner : XmlName} {more : List XmlChild}

/-- Adds children behind the others. -/
def addBehind (more : List XmlChild) : XmlNode → XmlNode := updateChildren (· ++ more)

private theorem children_addBehind (h : node.name?.isSome) (more : List XmlChild) :
    (addBehind more node).children = node.children ++ more := by
  cases node with
  | element name attributes text children => rfl
  | comment text => cases h

private theorem position?_append_left {index k : Nat} {before : List XmlChild}
    (h : position? name index before = some k)
    (after : List XmlChild) : position? name index (before ++ after) = some k := by
  obtain ⟨front, c, back, rfl, hl, hn, hi⟩ := position?_eq_some_iff.1 h
  refine position?_eq_some_iff.2 ⟨front, c, back ++ after, ?_, hl, hn, hi⟩
  rw [List.append_assoc, List.cons_append]

section Places

/-- The node that is changed is the one at the end of the steps: it has further children behind its
own. -/
def AddedAt (init : List PomStep) (node edited : XmlNode) : Prop :=
  ∃ above more, locate init node = some above ∧ edited = node.modifyAt (addBehind more) above

/-- Children that are added stand behind those that steps lead through. -/
theorem locate_addBehind {step : PomStep} {rest : List PomStep}
    (h : locate (step :: rest) node = some place)
    (more : List XmlChild) :
    locate (step :: rest) (addBehind more node) = some place ∧
      (addBehind more node).at? place = node.at? place := by
  obtain ⟨k, child, below, hk, hc, hb, rfl⟩ := locate_cons_eq_some_iff.1 h
  obtain ⟨hlt, -⟩ := List.getElem?_eq_some_iff.1 hc
  have isElement : node.name?.isSome := by
    cases node with
    | element name attributes text children => rfl
    | comment text => cases hc
  have hposition : position? step.name step.index (addBehind more node).children = some k := by
    rw [children_addBehind isElement]
    exact position?_append_left hk more
  have hchild : (addBehind more node).children[k]? = some child := by
    rw [children_addBehind isElement, List.getElem?_append_left hlt, hc]
  refine ⟨locate_cons_eq_some_iff.2 ⟨k, child, below, hposition, hchild, hb, rfl⟩, ?_⟩
  rw [at?, at?, hchild, hc]

/-- Steps lead where they led before the addition, and to the same node unless it is above what was
added. -/
theorem AddedAt.locate_eq (added : AddedAt init node edited) (hs : locate steps node = some place) :
    locate steps edited = some place ∧ (¬ steps <+: init → edited.at? place = node.at? place) := by
  obtain ⟨above, more, h, rfl⟩ := added
  induction init generalizing node above steps place with
  | nil =>
    cases h
    cases steps with
    | nil => exact ⟨hs, fun apart => absurd List.nil_prefix apart⟩
    | cons step rest =>
      obtain ⟨hl, ha⟩ := locate_addBehind hs more
      exact ⟨hl, fun _ => ha⟩
  | cons first init ih =>
    obtain ⟨k, child, below, hk, hc, hb, rfl⟩ := locate_cons_eq_some_iff.1 h
    cases steps with
    | nil => exact ⟨hs, fun apart => absurd List.nil_prefix apart⟩
    | cons step rest =>
      obtain ⟨i, other, place, hi, ho, hp, rfl⟩ := locate_cons_eq_some_iff.1 hs
      have hkeeps : KeepsName (addBehind more) := localName_updateChildren _
      have hposition :
        position? step.name step.index (node.modifyAt (addBehind more) (k :: below)).children =
          some i := by
        rw [children_modifyAt, position?_modify (hkeeps.modifyAt below), hi]
      by_cases hki : k = i
      · -- The step is the first of those that lead to the change.
        subst hki
        obtain rfl := step_eq_of_position? hi hk
        cases hc.symm.trans ho
        obtain ⟨hl, ha⟩ := ih hp below hb
        have hchild := child_modifyAt hc (addBehind more) below
        refine ⟨locate_cons_eq_some_iff.2 ⟨k, _, place, hposition, hchild, hl, rfl⟩,
          fun apart => ?_⟩
        rw [at?, at?, hchild, hc]
        exact ha fun further => apart (List.cons_prefix_cons.2 ⟨rfl, further⟩)
      · have hchild := child_modifyAt_of_ne ho hki (addBehind more) below
        refine ⟨locate_cons_eq_some_iff.2 ⟨i, other, place, hposition, hchild, hp, rfl⟩,
          fun _ => ?_⟩
        rw [at?, at?, hchild, ho]

/-- What is added to a section is added below its parent: to the parent itself if the section is
made. -/
theorem exists_addedAt_updateSection (owner : XmlName) (name : String)
    (hf : ∀ child, ∃ init, init <+: steps ∧ AddedAt init child (f child)) (node : XmlNode) :
    ∃ init, init <+: ⟨name, 0⟩ :: steps ∧ AddedAt init node (updateSection owner name f node) := by
  cases hi : node.children.findIdx? (isNamed name) with
  | none =>
    refine ⟨[], List.nil_prefix, [], [(f (emptyElement (owner.sibling name)), "")], rfl, ?_⟩
    refine updateChildren_congr ?_
    rw [hi]
  | some k =>
    have hk : position? name 0 node.children = some k :=
      (position?_zero name node.children).trans hi
    obtain ⟨child, tail, hc, -⟩ := child_of_position? hk
    obtain ⟨init, hp, above, more, ha, he⟩ := hf child
    refine ⟨⟨name, 0⟩ :: init, List.cons_prefix_cons.2 ⟨rfl, hp⟩, k :: above, more, ?_, ?_⟩
    · exact locate_cons_eq_some_iff.2 ⟨k, (child, tail), above, hk, hc, ha, rfl⟩
    · refine updateChildren_congr ?_
      rw [hi]
      exact modify_congr hc he

end Places

section Sections

private theorem childrenNamed_addBehind (h : node.name?.isSome) (label : String)
    (more : List XmlChild) :
    childrenNamed label (addBehind more node) =
      childrenNamed label node ++ more.filter fun child => child.1.localName = label := by
  rw [childrenNamed, children_addBehind h, List.filter_append, childrenNamed]

/-- A section that is missing is made behind the other children. -/
theorem updateSection_of_none (owner : XmlName) (h : childrenNamed name node = []) :
    updateSection owner name f node =
      addBehind [(f (emptyElement (owner.sibling name)), "")] node := by
  have hi : node.children.findIdx? (isNamed name) = none := by
    rw [List.findIdx?_eq_none_iff]
    intro child hm
    simpa [isNamed] using List.filter_eq_nil_iff.1 h child hm
  refine updateChildren_congr ?_
  rw [hi]

end Sections

end BuildAlign.XmlNode

namespace BuildAlign.PomNamespace
open XmlNode PomSections

variable {space : Option String} {node element : XmlNode} {label name : String}
  {f : XmlNode → XmlNode}
  {owner : XmlName} {more : List XmlChild}

theorem inSpace_emptyElement (space : Option String) (h : '\x7d' ∉ name.toList) :
    InSpace space (emptyElement ⟨space, name⟩) := .element [] "" h (List.forall_mem_nil _)

theorem keepsNames_addBehind (h : ∀ child ∈ more, InSpace space child.1) :
    KeepsNames space (addBehind more) :=
  ⟨localName_updateChildren _, fun _ hn =>
    hn.updateChildren (List.forall_mem_append.2 ⟨hn.children, h⟩)⟩

theorem named_addBehind (hs : space = some pomSpace ∨ space = none) (h : InSpace space node)
    (isElement : node.name?.isSome) (hm : ∀ child ∈ more, InSpace space child.1) (hl : label ≠ "") :
    named label (addBehind more node) =
      named label node ++ (more.filter fun child => child.1.localName = label).map Prod.fst := by
  rw [named_eq_childrenNamed ((keepsNames_addBehind hm).inSpace node h) hs hl,
    named_eq_childrenNamed h hs hl,
    childrenNamed_addBehind isElement, List.map_append]

/-- What is looked up is an element. -/
theorem isElement_of_named (h : element ∈ named label node) : element.name?.isSome := by
  obtain ⟨child, hc, rfl⟩ := List.mem_map.1 h
  rcases List.mem_append.1 hc with hc | hc
  · rw [of_decide_eq_true (List.mem_filter.1 hc).2]
    rfl
  · rw [of_decide_eq_true (List.mem_filter.1 hc).2]
    rfl

section Sections

variable (hs : owner.space = some pomSpace ∨ owner.space = none) (hf : KeepsNames owner.space f)
  (hb : '\x7d' ∉ name.toList)

include hf hb

private theorem inSpace_newSection : InSpace owner.space (f (emptyElement ⟨owner.space, name⟩)) :=
  hf.inSpace _ (inSpace_emptyElement owner.space hb)

private theorem localName_newSection : (f (emptyElement ⟨owner.space, name⟩)).localName = name :=
  (hf.localName _).trans (localName_of_braceless hb)

include hs

theorem KeepsNames.updateSection : KeepsNames owner.space (updateSection owner name f) := by
  refine ⟨localName_updateChildren _, fun node h => ?_⟩
  cases hc : (childrenNamed name node)[0]? with
  | some first =>
    rw [updateSection_of_first owner hc]
    exact (hf.updateNamed ⟨name, 0⟩).inSpace node h
  | none =>
    have hnew := inSpace_newSection hf hb
    rw [updateSection_of_none owner (by simpa using hc), XmlName.sibling_eq hs hb]
    exact (keepsNames_addBehind (by simpa using hnew)).inSpace node h

/-- Where a section is missing, the new one is found behind what was found before. -/
theorem named_updateSection_of_none (h : InSpace owner.space node) (isElement : node.name?.isSome)
    (hnone : childrenNamed name node = []) (hl : label ≠ "") :
    named label (PomSections.updateSection owner name f node) =
      named label node ++ if label = name then [f (emptyElement ⟨owner.space, name⟩)] else [] := by
  have hnew := inSpace_newSection hf hb
  rw [updateSection_of_none owner hnone, XmlName.sibling_eq hs hb,
    named_addBehind hs h isElement (by simpa using hnew) hl, List.filter_singleton,
      localName_newSection hf hb]
  by_cases he : label = name
  · simp [he]
  · simp [he, Ne.symm he]

/-- Other elements are found as before. -/
theorem firstNamed?_updateSection_of_ne (h : InSpace owner.space node)
    (isElement : node.name?.isSome)
    (hl : label ≠ "") (hne : label ≠ name) :
    firstNamed? label (PomSections.updateSection owner name f node) = firstNamed? label node := by
  cases hc : (childrenNamed name node)[0]? with
  | some first =>
    rw [updateSection_of_first owner hc]
    exact firstNamed?_updateNamed_of_ne hs hf h label ⟨name, 0⟩ hl hne
  | none =>
    rw [firstNamed?,
      named_updateSection_of_none hs hf hb h isElement (by simpa using hc) hl, if_neg hne,
      List.append_nil, firstNamed?]

/-- The section is found with the change made to it, or to an empty one if it was missing. -/
theorem firstNamed?_updateSection (h : InSpace owner.space node)
    (isElement : node.name?.isSome) (hn : name ≠ "") :
    firstNamed? name (PomSections.updateSection owner name f node) =
      some (f ((firstNamed? name node).getD (emptyElement ⟨owner.space, name⟩))) := by
  have hnamed := named_eq_childrenNamed h hs hn
  cases hc : (childrenNamed name node)[0]? with
  | some first =>
    have hfirst : firstNamed? name node = some first.1 := by
      rw [firstNamed?, hnamed, List.head?_map, List.head?_eq_getElem?, hc]
      rfl
    rw [updateSection_of_first owner hc, firstNamed?_updateNamed hs hf h hn, hfirst]
    rfl
  | none =>
    have hnone : childrenNamed name node = [] := by simpa using hc
    have hfirst : named name node = [] := by rw [hnamed, hnone]; rfl
    rw [firstNamed?, firstNamed?,
      named_updateSection_of_none hs hf hb h isElement hnone hn, hfirst, if_pos rfl]
    rfl

end Sections

end BuildAlign.PomNamespace
