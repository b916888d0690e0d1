import BuildAlign.Proofs.ElementEdits

/-! # Looking children up where namespaces are mixed

A POM is read by qualified names: first the children in its namespace, then those in none.  A step
of a path counts all children of a local name, whatever their namespace.  Both agree as long as no
child of the name is in another namespace and none that is in the namespace of POMs stands behind
one that is in none. -/
namespace BuildAlign.PomNamespace
open PomPath XmlNode

variable {label : String} {root element : XmlNode} {steps : List PomStep}

section Steps

/-- The children of a local name, in whatever namespace. -/
def sameNamed (label : String) (node : XmlNode) : List XmlNode :=
  (childrenNamed label node).map Prod.fst

/-- A step leads to the child of its name that has as many of the name before it as its index
says. -/
theorem reached_step (label : String) (i : Nat) (node : XmlNode) :
    reached [⟨label, i⟩] node = (sameNamed label node)[i]? := by
  rw [sameNamed, List.getElem?_map, childrenNamed, ← child_at_position?, reached, locate_cons]
  cases position? label i node.children with
  | none => rfl
  | some k => cases hk : node.children[k]? <;> simp [locate, at?, hk]

end Steps

section Lookups

/-- Whether an element has this name in the namespace of POMs. -/
def isInPomSpace (label : String) (node : XmlNode) : Bool :=
  node.name? = some ⟨some pomSpace, label⟩

/-- Whether an element has this name in no namespace. -/
def isInNoSpace (label : String) (node : XmlNode) : Bool := node.name? = some ⟨none, label⟩

/-- The first child of the name is in the namespace of POMs, or else in none and no other one is in
that of POMs. -/
def FirstFound (label : String) (node : XmlNode) : Prop :=
  ∀ first others, sameNamed label node = first :: others → isInPomSpace label first = true ∨
    isInNoSpace label first = true ∧ ∀ other ∈ others, isInPomSpace label other = false

/-- The children of the name are in the namespace of POMs up to one of them, and from there on in
none. -/
def PomFirst (label : String) (node : XmlNode) : Prop :=
  ∃ before after, sameNamed label node = before ++ after ∧
    (∀ child ∈ before, isInPomSpace label child = true) ∧
    ∀ child ∈ after, isInNoSpace label child = true

private theorem not_isInNoSpace {node : XmlNode} (h : isInPomSpace label node = true) :
    isInNoSpace label node = false := by
  simp only [isInPomSpace, isInNoSpace, decide_eq_true_eq, decide_eq_false_iff_not] at h ⊢
  simp [h]

private theorem localName_of_name? {space : Option String} {node : XmlNode}
    (braceless : '\x7d' ∉ label.toList)
    (h : node.name? = some ⟨space, label⟩) : node.localName = label := by
  rw [XmlNode.localName, h]
  exact localName_of_braceless braceless

/-- Both look-ups pick from the children of the local name. -/
theorem named_eq (braceless : '\x7d' ∉ label.toList) (node : XmlNode) :
    named label node = (sameNamed label node).filter (isInPomSpace label) ++
      (sameNamed label node).filter (isInNoSpace label) := by
  have hpicks : ∀ p : XmlNode → Bool, (∀ child, p child = true → child.localName = label) →
      (node.children.filter fun child => p child.1).map Prod.fst =
        (sameNamed label node).filter p := by
    intro p hp
    rw [sameNamed, List.filter_map, childrenNamed, List.filter_filter]
    congr 1
    refine List.filter_congr fun child _ => ?_
    by_cases hc : p child.1 = true
    · simp [hc, hp child.1 hc]
    · simp [hc]
  rw [named, List.map_append]
  congr 1
  · exact hpicks (isInPomSpace label) fun child h =>
      localName_of_name? braceless (of_decide_eq_true h)
  · exact hpicks (isInNoSpace label) fun child h =>
      localName_of_name? braceless (of_decide_eq_true h)

/-- Where those of the first kind come first, picking the two kinds one after the other changes
nothing, and only there. -/
theorem filter_append_filter_eq_iff {α : Type} {p q : α → Bool} {l : List α}
    (apart : ∀ x, p x = true → q x = false) :
    l.filter p ++ l.filter q = l ↔
      ∃ before after, l = before ++ after ∧ (∀ x ∈ before, p x = true) ∧
        ∀ x ∈ after, q x = true := by
  constructor
  · intro h
    exact ⟨l.filter p, l.filter q, h.symm, fun x hx => (List.mem_filter.1 hx).2,
      fun x hx => (List.mem_filter.1 hx).2⟩
  · rintro ⟨before, after, rfl, hp, hq⟩
    have hbefore : before.filter q = [] := List.filter_eq_nil_iff.2 fun x hx => by
      simp [apart x (hp x hx)]
    have hafter : after.filter p = [] := by
      refine List.filter_eq_nil_iff.2 fun x hx hpx => ?_
      have hn := apart x hpx
      rw [hq x hx] at hn
      cases hn
    rw [List.filter_append, List.filter_append, hbefore, hafter, List.filter_eq_self.2 hp,
      List.filter_eq_self.2 hq,
      List.append_nil, List.nil_append]

/-- Of two kinds picked one after the other, the first element of a list comes first if it is of the
first kind, or of the second and there is none of the first. -/
theorem head?_filter_append_filter_iff {α : Type} {p q : α → Bool} {x : α} {l : List α} :
    ((x :: l).filter p ++ (x :: l).filter q).head? = some x ↔
      p x = true ∨ q x = true ∧ ∀ y ∈ l, p y = false := by
  by_cases hp : p x = true
  · simp [hp]
  · rw [List.filter_cons_of_neg hp, List.head?_append]
    constructor
    · intro h
      cases hf : l.filter p with
      | cons y ys =>
        have hy : y ∈ l.filter p := hf ▸ List.mem_cons_self
        rw [hf] at h
        cases h
        exact absurd (List.mem_filter.1 hy).2 hp
      | nil =>
        rw [hf] at h
        have hx := List.mem_of_mem_head? (show x ∈ _ from h)
        exact .inr ⟨(List.mem_filter.1 hx).2, by simpa using List.filter_eq_nil_iff.1 hf⟩
    · rintro (hp' | ⟨hq, hn⟩)
      · exact absurd hp' hp
      · rw [List.filter_eq_nil_iff.2 (by simpa using hn), List.filter_cons_of_pos hq]
        rfl

private theorem filter_append_filter_perm {α : Type} {p q : α → Bool}
    (apart : ∀ x, p x = true → q x = false) (l : List α) :
    (l.filter p ++ l.filter q).Perm (l.filter fun x => p x || q x) := by
  have hperm := List.filter_append_perm p (l.filter fun x => p x || q x)
  have hp : ∀ x, (p x && (p x || q x)) = p x := fun x => by cases p x <;> rfl
  have hq : ∀ x, (!p x && (p x || q x)) = q x := by
    intro x
    cases h : p x with
    | true => simp [apart x h]
    | false => simp
  simpa only [List.filter_filter, hp, hq] using hperm

private theorem named_eq_sameNamed_iff (braceless : '\x7d' ∉ label.toList) :
    named label element = sameNamed label element ↔ PomFirst label element := by
  rw [named_eq braceless]
  exact filter_append_filter_eq_iff fun _ => not_isInNoSpace

/-- The first element that is read is the first one of the local name exactly where that one is to
be read first. -/
theorem firstNamed?_eq_iff (braceless : '\x7d' ∉ label.toList) :
    firstNamed? label element = (sameNamed label element).head? ↔ FirstFound label element := by
  rw [firstNamed?, named_eq braceless, FirstFound]
  cases sameNamed label element with
  | nil => simp
  | cons first others =>
    rw [List.head?_cons, head?_filter_append_filter_iff]
    constructor
    · rintro h _ _ ⟨⟩
      exact h
    · intro h
      exact h first others rfl

/-- A POM is read by look-ups that find, of the children of a local name, those in its namespace and
those in none, each once.  A step by this name, behind steps to their parent, leads to one of all
these children, in their order.  The first child that is read is where the step leads to if and only
if it is `FirstFound`, and all of them are if and only if they are `PomFirst`. -/
theorem lookups_agree_iff (braceless : '\x7d' ∉ label.toList)
    (h : reached steps root = some element) :
    (∀ i, reached (steps ++ [⟨label, i⟩]) root = (sameNamed label element)[i]?) ∧
    (named label element).Perm ((sameNamed label element).filter fun child =>
      isInPomSpace label child || isInNoSpace label child) ∧
    (firstNamed? label element = reached (steps ++ [⟨label, 0⟩]) root ↔ FirstFound label element) ∧
    ((∀ i, (named label element)[i]? = reached (steps ++ [⟨label, i⟩]) root) ↔
      PomFirst label element) := by
  obtain ⟨above, ha, hp⟩ := Option.bind_eq_some_iff.1 h
  have hstep : ∀ i, reached (steps ++ [⟨label, i⟩]) root = (sameNamed label element)[i]? := by
    intro i
    rw [reached_append ha hp, reached_step]
  refine ⟨hstep, ?_, ?_, ?_⟩
  · rw [named_eq braceless]
    exact filter_append_filter_perm (fun _ => not_isInNoSpace) _
  · rw [hstep, ← List.head?_eq_getElem?, firstNamed?_eq_iff braceless]
  · simp only [hstep]
    rw [← List.ext_getElem?_iff, named_eq_sameNamed_iff braceless]

end Lookups

section Mixed

def leafIn (space : Option String) (label text : String) : XmlNode :=
  .element ⟨space, label⟩ [] text []

/-- A section of the POM's namespace with these elements in it. -/
def mixedSection (elements : List XmlNode) : XmlNode :=
  .element ⟨some pomSpace, "dependencies"⟩ [] "" (elements.map (·, ""))

def mixedPom (elements : List XmlNode) : XmlNode :=
  .element ⟨some pomSpace, "project"⟩ [] "" [(mixedSection elements, "")]

def inSpaceThenPlain : List XmlNode :=
  [leafIn (some pomSpace) "dependency" "a", leafIn none "dependency" "b",
    leafIn (some "urn:x") "note" ""]

def plainThenInSpace : List XmlNode :=
  [leafIn none "dependency" "b", leafIn (some pomSpace) "dependency" "a"]

/-- In a mixed section the look-ups agree in the one order and not in the other. -/
theorem lookups_agree_iff_mixed :
    '\x7d' ∉ "dependency".toList ∧
    (∀ elements, reached [⟨"dependencies", 0⟩] (mixedPom elements) = some (mixedSection elements)) ∧
    (∀ i, (named "dependency" (mixedSection inSpaceThenPlain))[i]? =
      reached [⟨"dependencies", 0⟩, ⟨"dependency", i⟩] (mixedPom inSpaceThenPlain)) ∧
    firstNamed? "dependency" (mixedSection plainThenInSpace) ≠
      reached [⟨"dependencies", 0⟩, ⟨"dependency", 0⟩] (mixedPom plainThenInSpace) := by
  have hsection : ∀ elements, reached [⟨"dependencies", 0⟩] (mixedPom elements) =
      some (mixedSection elements) :=
    fun elements => by rw [reached_step]; rfl
  have braceless : '\x7d' ∉ "dependency".toList := by decide
  have hagree := (lookups_agree_iff braceless (hsection inSpaceThenPlain)).2.2.2
  have hdiffer := (lookups_agree_iff braceless (hsection plainThenInSpace)).2.2.1
  refine ⟨braceless, hsection, hagree.2 ?_, fun h => ?_⟩
  · exact ⟨[leafIn (some pomSpace) "dependency" "a"], [leafIn none "dependency" "b"],
      rfl, by decide, by decide⟩
  · rcases hdiffer.1 h _ _ rfl with hfirst | ⟨-, hothers⟩
    · exact absurd hfirst (by decide)
    · exact absurd (hothers _ List.mem_cons_self) (by decide)

/-- A location may lead to another element than the one that was read there. -/
theorem not_all_lookups_agree :
    ¬ ∀ (label : String) (element : XmlNode), '\x7d' ∉ label.toList →
      ∀ i, (named label element)[i]? = reached [⟨label, i⟩] element := by
  intro h
  have hfirst := h "dependency" (mixedSection plainThenInSpace) (by decide) 0
  rw [reached_step] at hfirst
  exact absurd (congrArg (Option.map name?) hfirst) (by decide)

end Mixed

end BuildAlign.PomNamespace
