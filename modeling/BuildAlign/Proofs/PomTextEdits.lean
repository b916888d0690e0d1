import BuildAlign.Proofs.PomLookups

/-! # Edits that only change texts

An edit that sets a value changes the text of one element.  Every path leads to the same place
before and after it, so edits whose paths can be found at the start can be made one after the
other. -/
namespace BuildAlign.XmlNode
open PomPath

theorem localName_setText (text : String) (node : XmlNode) :
    (node.setText text).localName = node.localName := by
  cases node <;> rfl

private theorem children_setText (text : String) (node : XmlNode) :
    (node.setText text).children = node.children := by
  cases node <;> rfl

theorem localName_updateChildren (f : List XmlChild → List XmlChild) (node : XmlNode) :
    (node.updateChildren f).localName = node.localName := by
  cases node <;> rfl

theorem children_updateChildren (f : List XmlChild → List XmlChild)
    (node : XmlNode) (hf : f [] = []) :
    (node.updateChildren f).children = f node.children := by
  cases node with
  | element name attributes text children => rfl
  | comment text => exact hf.symm

private theorem localName_modifyAt_setText (text : String) (place : List Nat) (node : XmlNode) :
    (node.modifyAt (setText text) place).localName = node.localName := by
  cases place with
  | nil => exact localName_setText text node
  | cons i place => exact localName_updateChildren _ node

/-- Positions are counted by names alone. -/
theorem position?_modify {f : XmlNode → XmlNode} (hf : ∀ node, (f node).localName = node.localName)
    (name : String) (index i : Nat) (children : List XmlChild) :
    position? name index (children.modify i fun (child, tail) => (f child, tail)) =
      position? name index children := by
  induction children generalizing i index with
  | nil => simp
  | cons c children ih =>
    obtain ⟨child, tail⟩ := c
    cases i with
    | zero =>
      simp only [List.modify_zero_cons, position?, hf]
    | succ i =>
      simp only [List.modify_succ_cons, position?, ih]

/-- No path leads elsewhere after a text was set, wherever that was. -/
theorem locate_modifyAt_setText (text : String) (steps : List PomStep)
    (place : List Nat) (node : XmlNode) :
    locate steps (node.modifyAt (setText text) place) = locate steps node := by
  induction steps generalizing place node with
  | nil => rfl
  | cons step rest ih =>
    cases place with
    | nil => simp only [modifyAt, locate, children_setText]
    | cons i place =>
      have hc := children_updateChildren (fun children => children.modify i fun (child, tail) =>
        (modifyAt (setText text) place child, tail)) node (by simp)
      have hp :=
        position?_modify (localName_modifyAt_setText text place) step.name
          step.index i node.children
      simp only [modifyAt, locate, hc, hp]
      cases position? step.name step.index node.children with
      | none => rfl
      | some k =>
        simp only [Option.bind_eq_bind, Option.bind_some, List.getElem?_modify]
        cases node.children[k]? with
        | none => rfl
        | some child =>
          by_cases hi : i = k
          · simp [hi, ih]
          · simp [hi]

end BuildAlign.XmlNode

namespace BuildAlign.PomModule
open DocumentEdits

variable {root : XmlNode}

end BuildAlign.PomModule
