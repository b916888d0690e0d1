import BuildAlign.Proofs.PomTextEdits

/-! # Changing the children that a path leads through

A change at the end of a path is, at each step, a change of one child of the step's name.  A look-up
by that name finds the changed child in its place, and look-ups by other names find what they found
before. -/
namespace BuildAlign.XmlNode
open PomPath

/-- Changes the child with this local name that has `index` others of the name before it. -/
def modifyNamed (name : String) (f : XmlNode → XmlNode) : Nat → List XmlChild → List XmlChild
  | _, [] => []
  | index, (child, tail) :: rest =>
    if child.localName = name then
      match index with
      | 0 => (f child, tail) :: rest
      | index + 1 => (child, tail) :: modifyNamed name f index rest
    else (child, tail) :: modifyNamed name f index rest

/-- Changes the child that a step leads to. -/
def updateNamed (step : PomStep) (f : XmlNode → XmlNode) (node : XmlNode) : XmlNode :=
  node.updateChildren (modifyNamed step.name f step.index)

/-- Changes the node that the steps lead to. -/
def updateAlong (steps : List PomStep) (f : XmlNode → XmlNode) : XmlNode → XmlNode :=
  steps.foldr updateNamed f

variable {name label : String} {f g : XmlNode → XmlNode} {node : XmlNode} {step : PomStep}

theorem modifyNamed_of_position? {index k : Nat} {children : List XmlChild}
    (h : position? name index children = some k) :
    modifyNamed name f index children = children.modify k fun (child, tail) => (f child, tail) := by
  induction children generalizing index k with
  | nil => cases h
  | cons c children ih =>
    obtain ⟨child, tail⟩ := c
    by_cases hn : child.localName = name
    · cases index with
      | zero =>
        simp only [position?, hn, if_true, Option.some.injEq] at h
        subst h
        simp [modifyNamed, hn]
      | succ index =>
        simp only [position?, hn, if_true, Option.map_eq_some_iff] at h
        obtain ⟨k, hk, rfl⟩ := h
        simp [modifyNamed, hn, ih hk]
    · simp only [position?, hn, if_false, Option.map_eq_some_iff] at h
      obtain ⟨k, hk, rfl⟩ := h
      simp [modifyNamed, hn, ih hk]

theorem updateChildren_congr {f g : List XmlChild → List XmlChild}
    (h : f node.children = g node.children) :
    node.updateChildren f = node.updateChildren g := by
  cases node with
  | element name attributes text children => exact congrArg (element name attributes text) h
  | comment text => rfl

theorem modify_congr {l : List XmlChild} {k : Nat} {child : XmlNode} {tail : String}
    (hk : l[k]? = some (child, tail)) (h : f child = g child) :
    (l.modify k fun (child, tail) => (f child, tail)) =
      l.modify k fun (child, tail) => (g child, tail) := by
  apply List.ext_getElem?
  intro i
  rw [List.getElem?_modify, List.getElem?_modify]
  by_cases hi : k = i
  · subst hi
    simp [hk, h]
  · simp [hi]

/-- What is changed at the place of a path is changed along its steps. -/
theorem modifyAt_of_locate {steps : List PomStep} {place : List Nat}
    (h : locate steps node = some place) :
    node.modifyAt f place = updateAlong steps f node := by
  induction steps generalizing node place with
  | nil =>
    cases h
    rfl
  | cons step rest ih =>
    simp only [locate, Option.bind_eq_bind, Option.bind_eq_some_iff] at h
    obtain ⟨k, hk, ⟨child, tail⟩, hc, below, hb, hp⟩ := h
    cases hp
    change _ = updateNamed step (updateAlong rest f) node
    rw [updateNamed, modifyAt]
    refine updateChildren_congr ?_
    rw [modifyNamed_of_position? hk]
    exact modify_congr hc (ih hb)

private theorem filter_modifyNamed (hf : ∀ node, (f node).localName = node.localName) (index : Nat)
    (children : List XmlChild) :
    (modifyNamed name f index children).filter (fun child => child.1.localName = label) =
      if label = name then
        (children.filter fun child => child.1.localName = label).modify index
          fun (child, tail) => (f child, tail)
      else children.filter fun child => child.1.localName = label := by
  induction children generalizing index with
  | nil => simp [modifyNamed]
  | cons c children ih =>
    obtain ⟨child, tail⟩ := c
    by_cases hn : child.localName = name
    · cases index with
      | zero =>
        by_cases hl : label = name
        · simp [modifyNamed, hn, hl, hf]
        · simp [modifyNamed, hn, hl, hf, Ne.symm hl]
      | succ index =>
        by_cases hl : label = name
        · subst hl
          simp [modifyNamed, hn, ih]
        · simp [modifyNamed, hn, hl, Ne.symm hl, ih]
    · by_cases hc : child.localName = label
      · have hl : label ≠ name := fun he => hn (hc.trans he)
        simp [modifyNamed, hl, hc, ih]
      · simp [modifyNamed, hn, hc, ih]

end BuildAlign.XmlNode

namespace BuildAlign.PomNamespace
open XmlNode

variable {space : Option String} {node : XmlNode} {label : String}
  {f : XmlNode → XmlNode} {step : PomStep}

private theorem childrenNamed_updateNamed
    (hf : ∀ node, (f node).localName = node.localName) (label : String)
    (step : PomStep) (node : XmlNode) :
    childrenNamed label (updateNamed step f node) =
      if label = step.name then
        (childrenNamed label node).modify step.index fun (child, tail) => (f child, tail)
      else childrenNamed label node := by
  rw [childrenNamed, updateNamed, children_updateChildren _ _ rfl, filter_modifyNamed hf]
  rfl

/-- Changes after which a node is found under its old name, in a tree that still has one
namespace. -/
structure KeepsNames (space : Option String) (f : XmlNode → XmlNode) : Prop where
  localName : ∀ node, (f node).localName = node.localName
  inSpace : ∀ node, InSpace space node → InSpace space (f node)

theorem keepsNames_setText (space : Option String) (text : String) :
    KeepsNames space (setText text) := by
  refine ⟨localName_setText text, fun node h => ?_⟩
  cases h with
  | element attributes _ braceless below => exact .element attributes text braceless below
  | comment _ => exact .comment text

theorem InSpace.updateChildren {g : List XmlChild → List XmlChild} (h : InSpace space node)
    (hg : ∀ child ∈ g node.children, InSpace space child.1) :
    InSpace space (node.updateChildren g) := by
  cases h with
  | element attributes text braceless below => exact .element attributes text braceless hg
  | comment text => exact .comment text

private theorem inSpace_modifyNamed (hf : KeepsNames space f) {name : String} {index : Nat}
    {children : List XmlChild}
    (h : ∀ child ∈ children, InSpace space child.1) :
    ∀ child ∈ modifyNamed name f index children, InSpace space child.1 := by
  induction children generalizing index with
  | nil => exact h
  | cons c children ih =>
    obtain ⟨first, tail⟩ := c
    rw [List.forall_mem_cons] at h
    simp only [modifyNamed]
    split
    · cases index with
      | zero => exact List.forall_mem_cons.2 ⟨hf.inSpace first h.1, h.2⟩
      | succ index => exact List.forall_mem_cons.2 ⟨h.1, ih h.2⟩
    · exact List.forall_mem_cons.2 ⟨h.1, ih h.2⟩

theorem KeepsNames.updateNamed (hf : KeepsNames space f) (step : PomStep) :
    KeepsNames space (updateNamed step f) :=
  ⟨localName_updateChildren _, fun _ h => h.updateChildren (inSpace_modifyNamed hf h.children)⟩

theorem KeepsNames.updateAlong (hf : KeepsNames space f) (steps : List PomStep) :
    KeepsNames space (updateAlong steps f) := by
  induction steps with
  | nil => exact hf
  | cons step rest ih => exact ih.updateNamed step

theorem named_updateNamed (hs : space = some pomSpace ∨ space = none) (hf : KeepsNames space f)
    (h : InSpace space node) (hl : label ≠ "") (step : PomStep) :
    named label (XmlNode.updateNamed step f node) =
      if label = step.name then (named label node).modify step.index f else named label node := by
  have hu := (hf.updateNamed step).inSpace node h
  rw [named_eq_childrenNamed hu hs hl, named_eq_childrenNamed h hs hl,
    childrenNamed_updateNamed hf.localName]
  split
  · apply List.ext_getElem?
    intro i
    simp only [List.getElem?_map, List.getElem?_modify]
    cases (childrenNamed label node)[i]? <;> by_cases hi : step.index = i <;> simp [hi]
  · rfl

theorem firstNamed?_updateNamed (hs : space = some pomSpace ∨ space = none)
    (hf : KeepsNames space f)
    (h : InSpace space node) (hl : label ≠ "") :
    firstNamed? label (XmlNode.updateNamed ⟨label, 0⟩ f node) = (firstNamed? label node).map f := by
  rw [firstNamed?, firstNamed?, named_updateNamed hs hf h hl, if_pos rfl]
  cases named label node <;> rfl

theorem firstNamed?_updateNamed_of_ne (hs : space = some pomSpace ∨ space = none)
    (hf : KeepsNames space f)
    (h : InSpace space node) (label : String) (step : PomStep) (hl : label ≠ "")
    (hn : label ≠ step.name) :
    firstNamed? label (XmlNode.updateNamed step f node) = firstNamed? label node := by
  rw [firstNamed?, firstNamed?, named_updateNamed hs hf h hl, if_neg hn]

end BuildAlign.PomNamespace
