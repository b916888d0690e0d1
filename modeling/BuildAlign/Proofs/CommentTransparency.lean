import BuildAlign.Proofs.PomReadings

/-! # POMs without their comments

When a comment is deleted, the text behind it goes on with the text before it.  No path leads to
another element then.  The texts that are read end at the first comment, so the module stays the
same where no comment stands inside such a text, and a text with a comment inside is read
differently. -/
namespace BuildAlign.BlankText

def visible (cs : List Char) : List Char := cs.filter fun c => !isBlank c

private theorem visible_trimLeft (cs : List Char) : visible (trimLeft cs) = visible cs := by
  induction cs with
  | nil => rfl
  | cons c cs ih =>
    cases hc : isBlank c with
    | true => simpa [trimLeft, visible, hc] using ih
    | false => simp [trimLeft, hc]

/-- Trimming takes nothing away that can be seen. -/
theorem visible_trim (cs : List Char) : visible (trim cs) = visible cs := by
  have hr : ∀ ds, visible ds.reverse = (visible ds).reverse := fun ds => List.filter_reverse ..
  rw [trim, trimRight, hr, visible_trimLeft, hr, List.reverse_reverse, visible_trimLeft]

/-- A text that goes on is the same after trimming only if nothing but blanks was added. -/
theorem trimmed_append_eq_iff (s t : String) :
    trimmed (s ++ t) = trimmed s ↔ ∀ c ∈ t.toList, isBlank c = true := by
  rw [trimmed, trimmed, String.toList_append, String.ofList_inj]
  refine ⟨fun he => ?_, trim_append_of_blank s.toList⟩
  have hv := congrArg visible he
  rw [visible_trim, visible_trim, visible, List.filter_append] at hv
  have ht : t.toList.filter (fun c => !isBlank c) = [] := List.append_right_eq_self.1 hv
  simpa [List.filter_eq_nil_iff] using ht

end BuildAlign.BlankText

namespace BuildAlign.XmlNode
open PomPath

def isElement (node : XmlNode) : Bool := node.name?.isSome

/-- What is written behind the comments that begin a list of children. -/
def textBehindComments : List XmlChild → String
  | [] => ""
  | (child, tail) :: rest => if child.isElement then "" else tail ++ textBehindComments rest

mutual
/-- Deletes the comments below a node.  The text behind a comment goes on with the text before
it. -/
def withoutComments : XmlNode → XmlNode
  | .element name attributes text children =>
    .element name attributes (text ++ textBehindComments children) (elementsOnly children)
  | .comment text => .comment text

def elementsOnly : List XmlChild → List XmlChild
  | [] => []
  | (child, tail) :: rest =>
    if child.isElement then (withoutComments child,
      tail ++ textBehindComments rest) :: elementsOnly rest
    else elementsOnly rest
end

/-- How many elements stand before a child. -/
def elementsBefore (children : List XmlChild) (i : Nat) : Nat :=
  (children.take i).countP fun child => child.1.isElement

/-- The place that a place in a tree has when the comments are not counted. -/
def placeWithoutComments : XmlNode → List Nat → List Nat
  | _, [] => []
  | node, i :: place =>
    elementsBefore node.children i ::
      match node.children[i]? with
      | none => place
      | some (child, _) => placeWithoutComments child place

variable {node : XmlNode} {label name : String} {children : List XmlChild}

@[simp] theorem name?_withoutComments (node : XmlNode) :
    node.withoutComments.name? = node.name? := by
  cases node <;> rfl

@[simp] theorem localName_withoutComments (node : XmlNode) :
    node.withoutComments.localName = node.localName := by
  cases node <;> rfl

private theorem text_withoutComments (node : XmlNode) :
    node.withoutComments.text = node.text ++ textBehindComments node.children := by
  cases node with
  | element name attributes text children => rfl
  | comment text => exact String.append_empty.symm

private theorem children_withoutComments (node : XmlNode) :
    node.withoutComments.children = elementsOnly node.children := by
  cases node <;> rfl

private theorem isElement_of_localName (h : node.localName ≠ "") : node.isElement = true := by
  cases node with
  | element name attributes text children => rfl
  | comment text => exact absurd rfl h

private theorem nodes_elementsOnly (children : List XmlChild) :
    (elementsOnly children).map Prod.fst =
      ((children.map Prod.fst).filter isElement).map withoutComments := by
  induction children with
  | nil => rfl
  | cons c children ih =>
    obtain ⟨child, tail⟩ := c
    cases hc : child.isElement <;> simp [elementsOnly, hc, ih]

section Places

private theorem elementsBefore_cons (c : XmlChild) (children : List XmlChild) (i : Nat) :
    elementsBefore (c :: children) (i + 1) =
      elementsBefore children i + if c.1.isElement then 1 else 0 := by
  simp only [elementsBefore, List.take_succ_cons, List.countP_cons]

private theorem position?_elementsOnly (hn : name ≠ "") (index : Nat) (children : List XmlChild) :
    position? name index (elementsOnly children) =
      (position? name index children).map (elementsBefore children) := by
  induction children generalizing index with
  | nil => rfl
  | cons c children ih =>
    obtain ⟨child, tail⟩ := c
    have hlater : ∀ index, (position? name index (elementsOnly children)).map
          (· + if child.isElement then 1 else 0) =
        ((position? name index children).map (· + 1)).map
          (elementsBefore ((child, tail) :: children)) := by
      intro index
      rw [ih, Option.map_map, Option.map_map]
      exact congrArg (Option.map · _)
        (funext fun i => (elementsBefore_cons (child, tail) children i).symm)
    by_cases hc : child.localName = name
    · have he : child.isElement = true := isElement_of_localName (hc ▸ hn)
      cases index with
      | zero => simp [elementsOnly, he, position?, hc, elementsBefore]
      | succ index => simpa [elementsOnly, he, position?, hc] using hlater index
    · cases he : child.isElement with
      | true => simpa [elementsOnly, he, position?, hc] using hlater index
      | false => simpa [elementsOnly, he, position?, hc] using hlater index

private theorem getElem?_elementsOnly {i : Nat} {child : XmlNode} {tail : String}
    (hi : children[i]? = some (child, tail)) (he : child.isElement = true) :
    ∃ tail', (elementsOnly children)[elementsBefore children i]? =
      some (child.withoutComments, tail') := by
  induction children generalizing i with
  | nil => simp at hi
  | cons c children ih =>
    obtain ⟨first, firstTail⟩ := c
    cases i with
    | zero =>
      cases hi
      simp [elementsOnly, he, elementsBefore]
    | succ i =>
      obtain ⟨tail', ht⟩ := ih (by simpa using hi)
      refine ⟨tail', ?_⟩
      rw [elementsBefore_cons]
      cases hf : first.isElement <;> simpa [elementsOnly, hf] using ht

/-- Steps lead to the same element, whose place counts no comments. -/
theorem locate_withoutComments {steps : List PomStep}
    (hs : ∀ step ∈ steps, step.name ≠ "") (node : XmlNode) :
    locate steps node.withoutComments = (locate steps node).map (placeWithoutComments node) := by
  induction steps generalizing node with
  | nil => rfl
  | cons step rest ih =>
    rw [List.forall_mem_cons] at hs
    simp only [locate, children_withoutComments, position?_elementsOnly hs.1, Option.bind_eq_bind]
    cases hp : position? step.name step.index node.children with
    | none => rfl
    | some i =>
      obtain ⟨child, tail, hc, hn⟩ := child_of_position? hp
      obtain ⟨tail', ht⟩ := getElem?_elementsOnly hc (isElement_of_localName (hn ▸ hs.1))
      simp only [Option.map_some, Option.bind_some, ht, hc, ih hs.2]
      cases locate rest child with
      | none => rfl
      | some place => simp [placeWithoutComments, hc]

private theorem isElement_of_at? {place : List Nat} {found : XmlNode}
    (h : node.at? place = some found)
    (he : found.isElement = true) : node.isElement = true := by
  cases place with
  | nil =>
    cases h
    exact he
  | cons i place =>
    cases node with
    | element name attributes text children => rfl
    | comment text => simp [at?, XmlNode.children] at h

/-- At its new place stands the same element, without the comments below it. -/
theorem at?_withoutComments {place : List Nat} {found : XmlNode} (h : node.at? place = some found)
    (he : found.isElement = true) :
    node.withoutComments.at? (placeWithoutComments node place) = some found.withoutComments := by
  induction place generalizing node with
  | nil =>
    cases h
    rfl
  | cons i place ih =>
    obtain ⟨⟨child, tail⟩, hc, hf⟩ := Option.bind_eq_some_iff.1 h
    obtain ⟨tail', ht⟩ := getElem?_elementsOnly hc (isElement_of_at? hf he)
    simp only [placeWithoutComments, at?, children_withoutComments, ht, hc, Option.bind_some]
    exact ih hf

private theorem elementsBefore_injective {i j : Nat} {c d : XmlChild} (hi : children[i]? = some c)
    (hj : children[j]? = some d) (hc : c.1.isElement = true) (hd : d.1.isElement = true)
    (h : elementsBefore children i = elementsBefore children j) : i = j := by
  induction children generalizing i j with
  | nil => simp at hi
  | cons first children ih =>
    cases i with
    | zero =>
      cases hi
      cases j with
      | zero => rfl
      | succ j => simp [hc, elementsBefore] at h
    | succ i =>
      cases j with
      | zero =>
        cases hj
        simp [hd, elementsBefore] at h
      | succ j =>
        rw [elementsBefore_cons, elementsBefore_cons, Nat.add_right_cancel_iff] at h
        exact congrArg (· + 1) (ih (by simpa using hi) (by simpa using hj) h)

/-- Different elements have different places. -/
theorem placeWithoutComments_injective {place place' : List Nat} {found found' : XmlNode}
    (h : node.at? place = some found) (h' : node.at? place' = some found')
    (he : found.isElement = true)
    (he' : found'.isElement = true)
    (hp : placeWithoutComments node place = placeWithoutComments node place') :
    place = place' := by
  induction place generalizing node place' with
  | nil =>
    cases place' with
    | nil => rfl
    | cons j place' => simp [placeWithoutComments] at hp
  | cons i place ih =>
    cases place' with
    | nil => simp [placeWithoutComments] at hp
    | cons j place' =>
      obtain ⟨⟨child, tail⟩, hc, hf⟩ := Option.bind_eq_some_iff.1 h
      obtain ⟨⟨child', tail'⟩, hc', hf'⟩ := Option.bind_eq_some_iff.1 h'
      simp only [placeWithoutComments, List.cons.injEq] at hp
      have hij :=
        elementsBefore_injective hc hc' (isElement_of_at? hf he) (isElement_of_at? hf' he') hp.1
      subst hij
      rw [hc] at hc'
      cases hc'
      simp only [hc] at hp
      rw [ih hf hf' hp.2]

end Places

end BuildAlign.XmlNode

namespace BuildAlign.PomModule
open XmlNode PomNamespace PomPath

variable {root node : XmlNode}

private theorem find?_withoutComments (path : String) (root : XmlNode) :
    find? path root.withoutComments =
      (find? path root).map (Option.map (placeWithoutComments root)) := by
  unfold find?
  cases hp : parse path with
  | error cause => rfl
  | ok steps => exact congrArg Except.ok (locate_withoutComments (names_of_parse hp) root)

private theorem named_withoutComments (node : XmlNode) (label : String) :
    named label node.withoutComments = (named label node).map withoutComments := by
  have hfilter : ∀ name : XmlName, ∀ node : XmlNode,
      (node.children.filter fun child => decide (child.1.name? = some name)).map Prod.fst =
        (node.children.map Prod.fst).filter fun child => decide (child.name? = some name) :=
    fun name node => by rw [List.filter_map]; rfl
  have hsame : ∀ name : XmlName,
      (node.withoutComments.children.filter fun child =>
        decide (child.1.name? = some name)).map Prod.fst =
        ((node.children.filter fun child => decide (child.1.name? = some name)).map Prod.fst).map
          withoutComments := by
    intro name
    rw [hfilter, hfilter, children_withoutComments, nodes_elementsOnly,
      List.filter_map, List.filter_filter]
    refine congrArg _ (List.filter_congr fun child _ => ?_)
    cases hc : child.name? <;> simp [isElement, hc]
  rw [named, named, List.map_append, List.map_append, List.map_append]
  exact congrArg₂ _ (hsame _) (hsame _)

private theorem namedChildren_withoutComments (node : XmlNode) :
    namedChildren node.withoutComments = (namedChildren node).map withoutComments := by
  rw [namedChildren, namedChildren, children_withoutComments, nodes_elementsOnly,
    List.filter_map, List.filter_filter]
  refine congrArg _ (List.filter_congr fun child _ => ?_)
  by_cases hn : child.localName = ""
  · simp [hn]
  · simp [hn, isElement_of_localName hn]

private theorem keepsLookups_withoutComments : KeepsLookups (fun _ => True) withoutComments where
  localName := localName_withoutComments
  named node _ label _ := named_withoutComments node label
  namedChildren node _ := namedChildren_withoutComments node
  below _ _ _ _ := trivial

/-- No comment stands inside the text of the element: there is nothing but blanks behind the
comments that follow it, and nothing at all if the element has no text before them. -/
structure Unbroken (node : XmlNode) : Prop where
  blank : ∀ c ∈ (textBehindComments node.children).toList, BlankText.isBlank c = true
  absent : node.text = "" → textBehindComments node.children = ""

instance (node : XmlNode) : Decidable (Unbroken node) :=
  decidable_of_iff ((textBehindComments node.children).toList.all BlankText.isBlank = true ∧
      (node.text = "" → textBehindComments node.children = ""))
    ⟨fun h => ⟨List.all_eq_true.1 h.1, h.2⟩, fun h => ⟨List.all_eq_true.2 h.blank, h.absent⟩⟩

/-- The text of an element is read as without comments if and only if no comment stands inside. -/
theorem keepsText_iff (node : XmlNode) : KeepsText withoutComments node ↔ Unbroken node := by
  rw [KeepsText, trimmedText?, trimmedText?, text_withoutComments]
  by_cases ht : node.text = ""
  · rw [if_pos ht, ht, String.empty_append]
    constructor
    · intro h
      have hb : textBehindComments node.children = "" := by simpa using h
      exact ⟨by simp [hb], fun _ => hb⟩
    · intro h
      rw [h.absent ht, if_pos rfl]
  · have hne : node.text ++ textBehindComments node.children ≠ "" := by simp [ht]
    rw [if_neg ht, if_neg hne, Option.some.injEq, BlankText.trimmed_append_eq_iff]
    exact ⟨fun h => ⟨h, fun he => absurd he ht⟩, Unbroken.blank⟩

/-- Comments are no matter to paths: with and without them, a path leads to the same element.  They
are no matter to what is read as long as none stands inside a text that is read, and a text that one
stands inside is read differently. -/
theorem comments_matter_in_texts_alone (root : XmlNode) :
    (∀ path, find? path root.withoutComments =
      (find? path root).map (Option.map (placeWithoutComments root))) ∧
    (∀ place node, root.at? place = some node → node.isElement = true →
      root.withoutComments.at? (placeWithoutComments root place) = some node.withoutComments ∧
      ∀ place' node', root.at? place' = some node' → node'.isElement = true →
        placeWithoutComments root place = placeWithoutComments root place' → place = place') ∧
    ((∀ node ∈ textElements root, Unbroken node) → ofRoot root.withoutComments = ofRoot root) ∧
    ∀ node : XmlNode, trimmedText? node.withoutComments = trimmedText? node ↔ Unbroken node := by
  refine ⟨fun path => find?_withoutComments path root,
    fun place node h he => ⟨at?_withoutComments h he, ?_⟩, ?_,
    keepsText_iff⟩
  · intro place' node' h' he' hp
    exact placeWithoutComments_injective h h' he he' hp
  · intro hu
    exact keepsLookups_withoutComments.ofRoot_eq trivial fun node hm =>
      (keepsText_iff node).2 (hu node hm)

/-- Comments before, between and behind elements, and behind a text with a blank after it. -/
def annotated : XmlNode :=
  let leaf label text children : XmlChild := (.element ⟨none, label⟩ [] text children, "\n")
  let node label children : XmlNode := .element ⟨none, label⟩ [] "" children
  let note text : XmlChild := (.comment text, "\n")
  node "project" [
    note "a module", leaf "artifactId" "m" [],
    (node "properties" [note "versions",
      leaf "v" "1.0" [(.comment "pinned", " ")], note "last"], ""),
    (node "dependencies" [
      note "dependency",
      (node "dependency" [leaf "groupId" "g" [], note "which", leaf "artifactId" "a" [],
        leaf "version" "$\x7bv\x7d" []], "")], "")]

private theorem unbroken_annotated :
    ∀ node ∈ textElements annotated, Unbroken node := by decide +kernel

theorem comments_matter_in_texts_alone_annotated :
    (∀ node ∈ textElements annotated, Unbroken node) ∧
    (ofRoot annotated.withoutComments).properties.get? "v" = some "1.0" ∧
    ofRoot annotated.withoutComments = ofRoot annotated ∧
    PomPath.find? "dependencies/dependency[0]/version" annotated = .ok (some [3, 1, 3]) ∧
    PomPath.find? "dependencies/dependency[0]/version" annotated.withoutComments =
      .ok (some [2, 0, 2]) ∧
    annotated.withoutComments.at? [2, 0, 2] =
      some (.element ⟨none, "version"⟩ [] "$\x7bv\x7d" []) := by
  obtain ⟨hpaths, hplaces, hmodule, -⟩ := comments_matter_in_texts_alone annotated
  have hfound : PomPath.find? "dependencies/dependency[0]/version" annotated =
      .ok (some [3, 1, 3]) := by
    decide +kernel
  refine ⟨unbroken_annotated, by decide +kernel, hmodule unbroken_annotated, hfound, ?_, ?_⟩
  · rw [hpaths, hfound]
    rfl
  · exact (hplaces [3, 1, 3] (.element ⟨none, "version"⟩ [] "$\x7bv\x7d" []) rfl rfl).1

/-- A version behind a comment is not read, so the module is not the same without the comment. -/
theorem not_every_comment_is_passed_over :
    ¬ ∀ root : XmlNode, ofRoot root.withoutComments = ofRoot root ∧
      ∀ path, find? path root.withoutComments =
        (find? path root).map (Option.map (placeWithoutComments root)) := by
  intro h
  let version : XmlNode := .element ⟨none, "version"⟩ [] "" [(.comment " pinned ", "1.0")]
  have hread := congrArg PomModule.version (h (.element ⟨none, "project"⟩ [] "" [(version, "")])).1
  exact absurd hread (by decide +kernel)

end BuildAlign.PomModule
