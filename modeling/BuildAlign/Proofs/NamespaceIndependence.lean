import BuildAlign.PomElements
import BuildAlign.Proofs.PomReadings
import BuildAlign.Proofs.VersionEdits
import Mathlib.Data.List.InsertIdx

/-! # POMs with a namespace and without

The elements of a POM may be in the namespace of POMs or in none.  What is read, found and changed
is the same: every look-up and every change agrees with putting all elements into the namespace. -/
namespace BuildAlign.XmlName
open PomNamespace

/-- The name in the namespace of POMs. -/
def qualified (n : XmlName) : XmlName := ⟨some pomSpace, n.label⟩

private theorem cutLast?_append {c : Char} {before after : List Char} (h : c ∉ after) :
    cutLast? c (before ++ c :: after) = some (before, after) := by
  have hp : ∀ d ∈ after.reverse, decide (d ≠ c) = true := by
    intro d hd
    have hne : d ≠ c := fun he => h (he ▸ List.mem_reverse.1 hd)
    simpa using hne
  have hr : (before ++ c :: after).reverse = after.reverse ++ c :: before.reverse := by simp
  simp only [cutLast?, hr, List.dropWhile_append_of_pos hp, List.takeWhile_append_of_pos hp]
  simp

private theorem ofTag_of_braceless {tag : List Char} (h : '\x7d' ∉ tag) :
    ofTag tag = ⟨none, String.ofList tag⟩ := by
  unfold ofTag
  split
  · next cs =>
    have hcs : '\x7d' ∉ cs := fun hm => h (List.mem_cons_of_mem _ hm)
    rw [cutLast?_of_notMem hcs]
  · rfl

/-- A new element is in the namespace of the one that it is next to. -/
theorem sibling_eq {n : XmlName} (hs : n.space = some pomSpace ∨ n.space = none) {label : String}
    (h : '\x7d' ∉ label.toList) : n.sibling label = ⟨n.space, label⟩ := by
  rcases hs with hn | hn
  · have hspace : pomSpace.toList.takeWhile (· ≠ '\x7d') = pomSpace.toList := by decide +kernel
    rw [sibling, hn]
    simp only [ofTag, hspace, List.cons_append, cutLast?_append h, String.ofList_toList]
  · rw [sibling, hn]
    simp only [ofTag_of_braceless h, String.ofList_toList]

/-- A new element next to one in the namespace of POMs has the qualified name of one that is next to
an element in none. -/
theorem sibling_qualified {n : XmlName} (hn : n.space = none) {label : String}
    (h : '\x7d' ∉ label.toList) :
    n.qualified.sibling label = (n.sibling label).qualified := by
  rw [sibling_eq (.inl rfl) h, sibling_eq (.inr hn) h]
  rfl

end BuildAlign.XmlName

namespace BuildAlign.XmlNode
open PomNamespace PomPath

mutual
/-- Puts the elements of a tree into the namespace of POMs. -/
def qualified : XmlNode → XmlNode
  | .element name attributes text children =>
    .element name.qualified attributes text (qualifiedChildren children)
  | .comment text => .comment text

def qualifiedChildren : List XmlChild → List XmlChild
  | [] => []
  | (child, tail) :: rest => (qualified child, tail) :: qualifiedChildren rest
end

variable {node : XmlNode} {f g : XmlNode → XmlNode} {label : String}

private theorem qualifiedChildren_eq_map (children : List XmlChild) :
    qualifiedChildren children = children.map fun (child, tail) => (qualified child, tail) := by
  induction children with
  | nil => rfl
  | cons c children ih => rw [qualifiedChildren, ih]; rfl

@[simp] theorem localName_qualified (node : XmlNode) :
    (qualified node).localName = node.localName := by
  cases node <;> rfl

@[simp] theorem text_qualified (node : XmlNode) : (qualified node).text = node.text := by
  cases node <;> rfl

private theorem children_qualified (node : XmlNode) :
    (qualified node).children = node.children.map fun (child, tail) => (qualified child, tail) := by
  cases node with
  | element name attributes text children => exact qualifiedChildren_eq_map children
  | comment text => rfl

section Paths

private theorem position?_qualified (name : String) (index : Nat) (children : List XmlChild) :
    position? name index (children.map fun (child, tail) => (qualified child, tail)) =
      position? name index children := by
  induction children generalizing index with
  | nil => rfl
  | cons c children ih =>
    simp only [List.map_cons, position?, localName_qualified, ih]

private theorem locate_qualified (steps : List PomStep) (node : XmlNode) :
    locate steps (qualified node) = locate steps node := by
  induction steps generalizing node with
  | nil => rfl
  | cons step rest ih =>
    simp only [locate, children_qualified, position?_qualified, List.getElem?_map]
    refine Option.bind_congr fun k _ => ?_
    cases node.children[k]? with
    | none => rfl
    | some child => simp [ih]

private theorem find?_qualified (path : String) (root : XmlNode) :
    find? path (qualified root) = find? path root := by
  simp only [find?, locate_qualified]

end Paths

/-- What one change does to a tree without a namespace, the other does to the tree in it. -/
def Agrees (f g : XmlNode → XmlNode) : Prop := ∀ node, g (qualified node) = qualified (f node)

section Changes

private theorem agrees_setText (text : String) : Agrees (setText text) (setText text) := by
  intro node
  cases node <;> rfl

private theorem agrees_updateChildren {f g : List XmlChild → List XmlChild}
    (h : ∀ children, g (qualifiedChildren children) = qualifiedChildren (f children)) :
    Agrees (updateChildren f) (updateChildren g) := by
  intro node
  cases node with
  | element name attributes text children =>
    exact congrArg (XmlNode.element name.qualified attributes text) (h children)
  | comment text => rfl

theorem Agrees.modify (h : Agrees f g) (i : Nat) (children : List XmlChild) :
    (qualifiedChildren children).modify i (fun (child, tail) => (g child, tail)) =
      qualifiedChildren (children.modify i fun (child, tail) => (f child, tail)) := by
  induction children generalizing i with
  | nil => simp [qualifiedChildren]
  | cons c children ih =>
    obtain ⟨child, tail⟩ := c
    cases i with
    | zero => simp [qualifiedChildren, h child]
    | succ i => simp [qualifiedChildren, ih i]

theorem Agrees.modifyAt (h : Agrees f g) (place : List Nat) :
    Agrees (modifyAt f place) (modifyAt g place) := by
  induction place with
  | nil => exact h
  | cons i place ih => exact agrees_updateChildren (ih.modify i)

private theorem agrees_eraseAt (place : List Nat) : Agrees (eraseAt place) (eraseAt place) := by
  induction place with
  | nil => intro node; rfl
  | cons i place ih =>
    -- the last step takes a child out, the steps before it change one
    cases place with
    | nil =>
      refine agrees_updateChildren fun children => ?_
      simp only [qualifiedChildren_eq_map, List.eraseIdx_map]
    | cons j place => exact agrees_updateChildren (ih.modify i)

end Changes

section Additions
open PomSections

variable {space : XmlName} {name : String}

private theorem findIdx?_qualifiedChildren (name : String) (children : List XmlChild) :
    (qualifiedChildren children).findIdx? (isNamed name) = children.findIdx? (isNamed name) := by
  induction children with
  | nil => rfl
  | cons c children ih => simp [qualifiedChildren, List.findIdx?_cons, isNamed, ih]

private theorem qualifiedChildren_append (children children' : List XmlChild) :
    qualifiedChildren (children ++ children') =
      qualifiedChildren children ++ qualifiedChildren children' := by
  simp only [qualifiedChildren_eq_map, List.map_append]

private theorem qualified_emptyElement (n : XmlName) :
    qualified (emptyElement n) = emptyElement n.qualified := rfl

/-- A section is found or made in the same way. -/
theorem Agrees.updateSection (hs : space.space = none)
    (hn : '\x7d' ∉ name.toList) (h : Agrees f g) :
    Agrees (updateSection space name f) (updateSection space.qualified name g) := by
  refine agrees_updateChildren fun children => ?_
  rw [findIdx?_qualifiedChildren]
  cases children.findIdx? (isNamed name) with
  | some i => exact h.modify i children
  | none =>
    -- a new section is made of an empty element, whose name differs in the namespace alone
    have hnew := h (emptyElement (space.sibling name))
    rw [qualified_emptyElement, ← XmlName.sibling_qualified hs hn] at hnew
    simp only [qualifiedChildren_append, qualifiedChildren, hnew]

private theorem agrees_foldl {α : Type} {step step' : XmlNode → α → XmlNode} {l : List α}
    (h : ∀ x ∈ l, Agrees (step · x) (step' · x)) :
    Agrees (fun node => l.foldl step node) fun node => l.foldl step' node := by
  induction l with
  | nil => intro node; rfl
  | cons x l ih =>
    rw [List.forall_mem_cons] at h
    intro node
    have hx : step' (qualified node) x = qualified (step node x) := h.1 node
    simp only [List.foldl_cons, hx]
    exact ih h.2 (step node x)

/-- The texts of an entry with their names. -/
def entryFields (entry : ManagedEntry) : List (String × String) :=
  [("groupId", entry.group), ("artifactId", entry.artifact), ("version", entry.version.getD "")]

/-- The element of an entry has a child for each text.  All their names are braceless, so they are
in one namespace. -/
theorem entryElement_eq {owner : XmlName} (hs : owner.space = some pomSpace ∨ owner.space = none)
    (entry : ManagedEntry) :
    entryElement owner entry = .element ⟨owner.space, "dependency"⟩ [] ""
      ((entryFields entry).map fun (name, text) =>
        (.element ⟨owner.space, name⟩ [] text [], "")) := by
  have hsibling : ∀ label ∈ ["dependency", "groupId", "artifactId", "version"],
      owner.sibling label = ⟨owner.space, label⟩ := by
    intro label hm
    refine XmlName.sibling_eq hs ?_
    revert label
    decide
  simp only [entryElement, emptyElement, setText, hsibling "dependency" (by decide),
    hsibling "groupId" (by decide),
    hsibling "artifactId" (by decide), hsibling "version" (by decide)]
  rfl

private theorem qualified_entryElement (hs : space.space = none) (entry : ManagedEntry) :
    qualified (entryElement space entry) = entryElement space.qualified entry := by
  rw [entryElement_eq (.inr hs), entryElement_eq (.inl rfl), qualified,
    qualifiedChildren_eq_map, List.map_map]
  rfl

private theorem agrees_appendManaged (hs : space.space = none) (entries : List ManagedEntry) :
    Agrees (updateChildren (· ++ entries.map fun entry => (entryElement space entry, "")))
      (updateChildren
        (· ++ entries.map fun entry => (entryElement space.qualified entry, ""))) := by
  refine agrees_updateChildren fun children => ?_
  have hnew : qualifiedChildren (entries.map fun entry => (entryElement space entry, "")) =
      entries.map fun entry => (entryElement space.qualified entry, "") := by
    simp only [qualifiedChildren_eq_map, List.map_map, Function.comp_def, qualified_entryElement hs]
  rw [qualifiedChildren_append, hnew]

private theorem addProperties_qualified {root : XmlNode} (h : InSpace none root)
    {properties : List (String × String)}
    (hp : ∀ property ∈ properties, '\x7d' ∉ property.1.toList) :
    addProperties properties (qualified root) = qualified (addProperties properties root) := by
  cases h with
  | element attributes text braceless below =>
    refine Agrees.updateSection rfl (by decide) (agrees_foldl fun property hm => ?_) _
    exact (agrees_setText property.2).updateSection rfl (hp property hm)
  | comment text => rfl

private theorem addManaged_qualified {root : XmlNode} (h : InSpace none root)
    (entries : List ManagedEntry) :
    addManaged entries (qualified root) = qualified (addManaged entries root) := by
  cases h with
  | element attributes text braceless below =>
    exact ((agrees_appendManaged rfl entries).updateSection rfl (by decide)).updateSection rfl
      (by decide) _
  | comment text => rfl

end Additions

end BuildAlign.XmlNode

namespace BuildAlign.PomNamespace
open XmlNode

variable {node : XmlNode} {label : String}

theorem InSpace.qualified (h : InSpace none node) : InSpace (some pomSpace) node.qualified := by
  induction h with
  | element attributes text braceless below ih =>
    refine .element attributes text braceless fun child hm => ?_
    rw [qualifiedChildren_eq_map] at hm
    obtain ⟨plain, hplain, rfl⟩ := List.mem_map.1 hm
    exact ih plain hplain
  | comment text => exact .comment text

/-- Elements are looked up by their qualified names, which are there in the one tree and in the
other. -/
theorem named_qualified (h : InSpace none node) (hl : label ≠ "") :
    named label node.qualified = (named label node).map XmlNode.qualified := by
  rw [named_eq_childrenNamed h (.inr rfl) hl, named_eq_childrenNamed h.qualified (.inl rfl) hl,
    childrenNamed, childrenNamed, children_qualified, List.filter_map, List.map_map, List.map_map]
  simp only [Function.comp_def, localName_qualified]

end BuildAlign.PomNamespace

namespace BuildAlign.PomModule
open PomNamespace XmlNode DocumentEdits

variable {root : XmlNode}

section Reading

private theorem keepsLookups_qualified : KeepsLookups (InSpace none) XmlNode.qualified where
  localName := localName_qualified
  named _ h _ hl := named_qualified h hl
  namedChildren node _ := by
    rw [namedChildren, namedChildren, children_qualified, List.map_map, List.filter_map,
      List.filter_map, List.map_map]
    simp only [Function.comp_def, localName_qualified]
  below _ h := h.children

/-- The same module is read of both trees. -/
theorem ofRoot_qualified (h : InSpace none root) : ofRoot root.qualified = ofRoot root :=
  keepsLookups_qualified.ofRoot_eq h fun element _ => by
    rw [KeepsText, trimmedText?, trimmedText?, text_qualified]

end Reading

section Editing

private theorem locatePom_qualified (path : String) (root : XmlNode) :
    locatePom path root.qualified = locatePom path root := by
  rw [locatePom, locatePom, XmlNode.find?_qualified]

/-- An edit changes both trees or fails for both. -/
theorem apply_qualified (edit : DocumentEdit) (root : XmlNode) :
    pomEditor.apply edit root.qualified = (pomEditor.apply edit root).map XmlNode.qualified := by
  have hl : pomEditor.locate edit.path root.qualified = pomEditor.locate edit.path root :=
    locatePom_qualified edit.path root
  simp only [Editor.apply, hl]
  cases pomEditor.locate edit.path root with
  | error cause => rfl
  | ok place? =>
    cases place? with
    | none => rfl
    | some place =>
      refine congrArg Except.ok ?_
      cases edit.value with
      | some value => exact (agrees_setText value).modifyAt place root
      | none => exact agrees_eraseAt place root

/-- The same edits of a list are made before one fails. -/
theorem applyAll_qualified (edits : List DocumentEdit) (root : XmlNode) :
    pomEditor.applyAll edits root.qualified =
      { pomEditor.applyAll edits root with document :=
        (pomEditor.applyAll edits root).document.qualified } := by
  induction edits generalizing root with
  | nil => rfl
  | cons edit edits ih =>
    simp only [Editor.applyAll, apply_qualified]
    cases pomEditor.apply edit root with
    | error cause => cases cause <;> rfl
    | ok edited => simp only [Except.map, ih, Editor.logOf]

end Editing

/-- Putting the elements of a POM into the namespace changes nothing of what is read and found, and
no outcome of edits and additions, which leave the tree they leave without the namespace, with its
elements put into it.  The name of a new property holds no closing brace, which would look like the
end of a namespace. -/
theorem namespace_makes_no_difference (h : InSpace none root) :
    ofRoot root.qualified = ofRoot root ∧
    (∀ path, PomPath.find? path root.qualified = PomPath.find? path root) ∧
    (∀ edit, pomEditor.apply edit root.qualified =
      (pomEditor.apply edit root).map XmlNode.qualified) ∧
    (∀ edits, pomEditor.applyAll edits root.qualified =
      { pomEditor.applyAll edits root with document :=
        (pomEditor.applyAll edits root).document.qualified }) ∧
    (∀ properties : List (String × String), (∀ property ∈ properties, '\x7d' ∉ property.1.toList) →
      PomSections.addProperties properties root.qualified =
        (PomSections.addProperties properties root).qualified) ∧
    (∀ entries, PomSections.addManaged entries root.qualified =
      (PomSections.addManaged entries root).qualified) :=
  ⟨ofRoot_qualified h, fun path => find?_qualified path root, fun edit => apply_qualified edit root,
    fun edits => applyAll_qualified edits root, fun _ hp => addProperties_qualified h hp,
    addManaged_qualified h⟩

theorem namespace_makes_no_difference_commented :
    InSpace none commented ∧
    ofRoot commented.qualified = ofRoot commented ∧
    PomPath.find? "dependencies/dependency[1]/version" commented.qualified = .ok (some [1, 3, 3]) ∧
    pomEditor.apply ⟨some "pom.xml", "dependencies/dependency[1]", none⟩ commented.qualified =
      .ok (commented.eraseAt [1, 3]).qualified ∧
    (∀ property ∈ [("v", "1.0")], '\x7d' ∉ property.1.toList) ∧
    PomSections.addProperties [("v", "1.0")] commented.qualified =
      (PomSections.addProperties [("v", "1.0")] commented).qualified := by
  have hsame := namespace_makes_no_difference inSpace_commented
  have hnames : ∀ property ∈ [("v", "1.0")], '\x7d' ∉ property.1.toList := by decide
  have hfound : PomPath.find? "dependencies/dependency[1]/version" commented =
      .ok (some [1, 3, 3]) := by
    decide +kernel
  have herased : pomEditor.apply ⟨some "pom.xml", "dependencies/dependency[1]", none⟩ commented =
      .ok (commented.eraseAt [1, 3]) := by
    have hplace : PomPath.find? "dependencies/dependency[1]" commented = .ok (some [1, 3]) := by
      decide +kernel
    have hl : locatePom "dependencies/dependency[1]" commented = .ok (some [1, 3]) := by
      rw [locatePom, hplace]
      rfl
    simp only [Editor.apply, pomEditor, hl]
    rfl
  refine ⟨inSpace_commented, hsame.1, ?_, ?_, hnames, hsame.2.2.2.2.1 _ hnames⟩
  · rw [hsame.2.1, hfound]
  · rw [hsame.2.2.1, herased]
    rfl

end BuildAlign.PomModule
