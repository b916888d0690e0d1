import BuildAlign.PomElements
import BuildAlign.Proofs.VersionEdits

/-! # Reading a POM after the edit of a property

A property is edited in the first element of its name, and read from the last one that has a text.
The new value is therefore read unless an element behind the first one has a text as well, and then
nothing that is read has changed. -/
namespace BuildAlign.XmlNode
open PomPath PomSections

variable {name : String} {f g : XmlNode → XmlNode} {node : XmlNode}
  {children before after : List XmlChild}

/-- What is changed at the end of a step depends on the node that is there alone. -/
theorem updateNamed_congr {step : PomStep} {child : XmlNode} {tail : String}
    (hc : (PomNamespace.childrenNamed step.name node)[step.index]? = some (child, tail))
    (h : f child = g child) :
    updateNamed step f node = updateNamed step g node := by
  obtain ⟨k, hk, hg⟩ := PomNamespace.position?_of_filter hc
  refine updateChildren_congr ?_
  rw [modifyNamed_of_position? hk, modifyNamed_of_position? hk]
  exact modify_congr hg h

theorem position?_zero (name : String) (children : List XmlChild) :
    position? name 0 children = children.findIdx? (isNamed name) := by
  induction children with
  | nil => rfl
  | cons c children ih =>
    obtain ⟨child, tail⟩ := c
    by_cases hn : child.localName = name <;> simp [position?, List.findIdx?_cons, isNamed, hn, ih]

/-- A section that is there is the first child of its name. -/
theorem updateSection_of_first (space : XmlName) {first : XmlChild}
    (hc : (PomNamespace.childrenNamed name node)[0]? = some first) :
    updateSection space name f node = updateNamed ⟨name, 0⟩ f node := by
  obtain ⟨k, hk, -⟩ := PomNamespace.position?_of_filter hc
  refine updateChildren_congr ?_
  rw [modifyNamed_of_position? hk]
  rw [position?_zero] at hk
  simp only [hk]

/-- A list of children cut at the first one of a name. -/
structure CutAtFirst (name : String) (children before : List XmlChild)
    (child : XmlNode) (tail : String)
    (after : List XmlChild) : Prop where
  children : children = before ++ (child, tail) :: after
  named : child.localName = name
  first : ∀ c ∈ before, c.1.localName ≠ name

private theorem exists_cutAtFirst (h : ∃ child ∈ children, child.1.localName = name) :
    ∃ before child tail after, CutAtFirst name children before child tail after := by
  have hf : (children.find? (isNamed name)).isSome := by
    simpa [List.find?_isSome, isNamed] using h
  obtain ⟨⟨child, tail⟩, hc⟩ := Option.isSome_iff_exists.1 hf
  obtain ⟨hn, before, after, he, hb⟩ := List.find?_eq_some_iff_append.1 hc
  exact ⟨before, child, tail, after, he, by simpa [isNamed] using hn, by simpa [isNamed] using hb⟩

private theorem modifyNamed_append (h : ∀ c ∈ before, c.1.localName ≠ name) (index : Nat) :
    modifyNamed name f index (before ++ after) = before ++ modifyNamed name f index after := by
  induction before with
  | nil => rfl
  | cons c before ih =>
    obtain ⟨child, tail⟩ := c
    rw [List.forall_mem_cons] at h
    simp [modifyNamed, h.1, ih h.2]

private theorem CutAtFirst.children_updateNamed {child : XmlNode} {tail : String}
    (h : CutAtFirst name node.children before child tail after) (f : XmlNode → XmlNode) :
    (updateNamed ⟨name, 0⟩ f node).children = before ++ (f child, tail) :: after := by
  rw [updateNamed, children_updateChildren _ _ rfl, h.children, modifyNamed_append h.first]
  simp [modifyNamed, h.named]

end BuildAlign.XmlNode

namespace BuildAlign.PomModule
open PomNamespace PomPath XmlNode ModuleAlignment OrderedMap

variable {space : Option String} {root list child : XmlNode} {name value old tail : String}
  {before after : List XmlChild}

section Entries

/-- The property that a child of the section gives. -/
def propertyOf? (child : XmlNode) : Option (String × String) :=
  if child.localName = "" then none else (trimmedText? child).map (child.localName, ·)

def propertyEntries (children : List XmlChild) : List (String × String) :=
  children.filterMap fun (child, _) => propertyOf? child

theorem propertiesIn_eq (list : XmlNode) :
    propertiesIn list = ofList (propertyEntries list.children) := rfl

private theorem mem_keys_propertyEntries {children : List XmlChild} :
    name ∈ (propertyEntries children).map Prod.fst ↔
      ∃ child ∈ children, child.1.localName = name ∧ name ≠ "" ∧ child.1.text ≠ "" := by
  simp only [propertyEntries, List.map_filterMap, List.mem_filterMap]
  refine exists_congr fun ⟨child, tail⟩ => and_congr_right fun _ => ?_
  by_cases hn : child.localName = ""
  · simp only [propertyOf?, hn, if_true]
    constructor
    · rintro ⟨⟩
    · rintro ⟨rfl, hne, -⟩
      exact absurd rfl hne
  · by_cases ht : child.text = ""
    · simp [propertyOf?, trimmedText?, ht]
    · have he : propertyOf? child = some (child.localName, BlankText.trimmed child.text) := by
        simp [propertyOf?, trimmedText?, hn, ht]
      rw [he]
      constructor
      · rintro ⟨⟩
        exact ⟨rfl, hn, ht⟩
      · rintro ⟨rfl, -, -⟩
        rfl

private theorem propertyOf?_setText (hv : Clean value) (hn : child.localName ≠ "") :
    propertyOf? (child.setText value) = some (child.localName, value) := by
  rw [propertyOf?, localName_setText, if_neg hn, hv.trimmedText?]
  rfl

/-- The properties of a section, read up to a child, from it, and behind it. -/
theorem propertiesIn_append (hc : list.children = before ++ (child, tail) :: after) :
    propertiesIn list =
      ((ofList (propertyEntries before)).insertAll (propertyOf? child).toList).insertAll
      (propertyEntries after) := by
  rw [propertiesIn_eq, hc]
  cases he : propertyOf? child <;>
    simp [propertyEntries, he, ofList, insertAll, List.foldl_append]

private theorem propertiesIn_setText (hv : Clean value) (hne : name ≠ "")
    (cut : CutAtFirst name list.children before child tail after) :
    propertiesIn (updateNamed ⟨name, 0⟩ (setText value) list) =
      ((ofList (propertyEntries before)).insert name value).insertAll (propertyEntries after) := by
  have hentry := propertyOf?_setText hv (cut.named ▸ hne : child.localName ≠ "")
  rw [propertiesIn_append (cut.children_updateNamed _), hentry, cut.named]
  rfl

/-- A property that no later element has a text for is read from the first one. -/
theorem propertyOf?_first (cut : CutAtFirst name list.children before child tail after)
    (hp : (propertiesIn list).get? name = some old)
    (hafter : name ∉ (propertyEntries after).map Prod.fst) :
    propertyOf? child = some (name, BlankText.trimmed child.text) := by
  have hmem : name ∈ (propertyEntries list.children).map Prod.fst :=
    List.mem_map_of_mem (f := Prod.fst) (mem_of_get?_ofList hp)
  obtain ⟨c, hm, hl, hne, ht⟩ := mem_keys_propertyEntries.1 hmem
  rw [cut.children] at hm
  rcases List.mem_append.1 hm with hm | hm
  · exact absurd hl (cut.first c hm)
  · rcases List.mem_cons.1 hm with rfl | hm
    · simp [propertyOf?, trimmedText?, cut.named, hne, ht]
    · exact absurd (mem_keys_propertyEntries.2 ⟨c, hm, hl, hne, ht⟩) hafter

end Entries

section Sections

/-- An element behind the first one of a name has a text, which is then the one that is read. -/
def OverriddenIn (name : String) (list : XmlNode) : Prop :=
  ∃ child ∈ (childrenNamed name list).tail, child.1.text ≠ ""

private theorem overriddenIn_iff (hne : name ≠ "")
    (cut : CutAtFirst name list.children before child tail after) :
    OverriddenIn name list ↔ name ∈ (propertyEntries after).map Prod.fst := by
  have hnone : before.filter (fun c => c.1.localName = name) = [] := by
    simpa [List.filter_eq_nil_iff] using cut.first
  have ht : (childrenNamed name list).tail = after.filter fun c => c.1.localName = name := by
    rw [childrenNamed, cut.children, List.filter_append, hnone]
    simp [cut.named]
  rw [OverriddenIn, ht, mem_keys_propertyEntries]
  simp only [List.mem_filter, decide_eq_true_eq, and_assoc, hne, ne_eq, not_false_eq_true, true_and]

/-- Where only the first element of a name has a text, setting it sets the property. -/
theorem propertiesIn_setText_of_not_overridden (hv : Clean value)
    (hp : (propertiesIn list).get? name = some old)
    (ho : ¬ OverriddenIn name list) :
    propertiesIn (updateNamed ⟨name, 0⟩ (setText value) list) =
      (propertiesIn list).insert name value := by
  obtain ⟨element, hm, hl, hne⟩ := child_of_property hp
  obtain ⟨before, child, tail, after, cut⟩ := exists_cutAtFirst ⟨element, hm, hl⟩
  have hafter : name ∉ (propertyEntries after).map Prod.fst :=
    fun h => ho ((overriddenIn_iff hne cut).2 h)
  rw [propertiesIn_setText hv hne cut, propertiesIn_append cut.children,
    propertyOf?_first cut hp hafter]
  change _ =
    (((ofList (propertyEntries before)).insert name _).insertAll
    (propertyEntries after)).insert name value
  rw [insert_insertAll (mem_keys_insert ..) hafter, insert_insert]

/-- Where a later element of the name has a text, setting the first one changes no property. -/
theorem get?_propertiesIn_setText_of_overridden (hv : Clean value)
    (hp : (propertiesIn list).get? name = some old)
    (ho : OverriddenIn name list) (other : String) :
    (propertiesIn (updateNamed ⟨name, 0⟩ (setText value) list)).get? other =
      (propertiesIn list).get? other := by
  obtain ⟨element, hm, hl, hne⟩ := child_of_property hp
  obtain ⟨before, child, tail, after, cut⟩ := exists_cutAtFirst ⟨element, hm, hl⟩
  rw [propertiesIn_setText hv hne cut, propertiesIn_append cut.children, get?_insertAll,
    get?_insertAll _ _ other]
  by_cases hother : name = other
  · subst hother
    obtain ⟨⟨_, text⟩, hm, rfl⟩ := List.mem_map.1 ((overriddenIn_iff hne cut).1 ho)
    obtain ⟨found, hfound⟩ := exists_find_of_mem (List.mem_reverse.2 hm)
    simp [hfound]
  · have hentry :
      ((ofList (propertyEntries before)).insertAll (propertyOf? child).toList).get? other =
        (ofList (propertyEntries before)).get? other := by
      simp only [propertyOf?, cut.named, if_neg hne]
      cases trimmedText? child <;> simp [insertAll, hother]
    rw [hentry, get?_insert, if_neg hother]

end Sections

/-- In the section that is read, an element behind the first one of a name has a text. -/
def Overridden (name : String) (root : XmlNode) : Prop :=
  ∃ list, firstNamed? "properties" root = some list ∧ OverriddenIn name list

/-- Adding a property that was read sets the text of its first element. -/
theorem addProperties_of_read (hs : space = some pomSpace ∨ space = none) (h : InSpace space root)
    (hf : firstNamed? "properties" root = some list) (hp : (propertiesIn list).get? name = some old)
    (value : String) :
    PomSections.addProperties [(name, value)] root =
      updateAlong [⟨"properties", 0⟩, ⟨name, 0⟩] (setText value) root := by
  have hsection : ∃ tail, (childrenNamed "properties" root)[0]? = some (list, tail) := by
    have hz := named_zero_of_first hf
    rw [named_eq_childrenNamed h hs (by decide), List.getElem?_map, Option.map_eq_some_iff] at hz
    obtain ⟨⟨_, tail⟩, hz, rfl⟩ := hz
    exact ⟨tail, hz⟩
  obtain ⟨tail, hc⟩ := hsection
  obtain ⟨first, hentry⟩ := first_of_property hp
  rw [PomSections.addProperties, updateSection_of_first _ hc]
  apply updateNamed_congr hc
  exact updateSection_of_first _ hentry

/-- A property that was read can always be set, by an edit or by an addition, which make the same
change.  Reading the POM again gives the module with the new value if only the first element of the
property has a text, and a module with the old value, which is that of another element, if not. -/
theorem property_edit_is_read_unless_overridden (pom : UnmixedPom root) (clean : Clean value)
    (hp : (ofRoot root).properties.get? name = some old) (document : Option String) :
    (PlainName name → DocumentEdits.pomEditor.apply ⟨document, propertyPath name, some value⟩ root =
      .ok (PomSections.addProperties [(name, value)] root)) ∧
    (¬ Overridden name root → ofRoot (PomSections.addProperties [(name, value)] root) =
      { ofRoot root with properties := (ofRoot root).properties.insert name value }) ∧
    (Overridden name root → ∃ properties : OrderedMap String String,
      ofRoot (PomSections.addProperties [(name, value)] root) = { ofRoot root with properties } ∧
        ∀ other, properties.get? other = (ofRoot root).properties.get? other) := by
  have hleads := leads_property pom hp
  obtain ⟨space, hs, h⟩ := pom
  obtain ⟨list, hf, hp⟩ := section_of_property hp
  have hread : (ofRoot root).properties = propertiesIn list := by
    have he : (ofRoot root).properties =
      ((firstNamed? "properties" root).map propertiesIn).getD ∅ := rfl
    rw [he, hf]
    rfl
  have hadd := addProperties_of_read hs h hf hp value
  have hedited :=
    ofRoot_updateProperties hs ((keepsNames_setText space value).updateNamed ⟨name, 0⟩) h
  rw [hf] at hedited
  have ho : Overridden name root ↔ OverriddenIn name list := by simp [Overridden, hf]
  rw [hadd, ho, hread]
  refine ⟨fun plain => ?_, fun hlast => ?_, fun hover => ?_⟩
  · have hpath := parse_propertyPath plain
    exact apply_of_parse hpath (resolves_of_leads hpath hleads) document value
  · have hset := propertiesIn_setText_of_not_overridden clean hp hlast
    exact hedited.trans (by rw [Option.map_some, Option.getD_some, hset])
  · have hsame := get?_propertiesIn_setText_of_overridden clean hp hover
    exact ⟨_, hedited, hsame⟩

/-- A section with two elements for one property. -/
def repeated : XmlNode :=
  let leaf label text : XmlChild := (.element ⟨none, label⟩ [] text [], "")
  let node label children : XmlNode := .element ⟨none, label⟩ [] "" children
  node "project" [(node "properties" [leaf "v" "1.0", leaf "v" "2.0", leaf "w" "1.0"], "")]

private theorem unmixedPom_repeated : UnmixedPom repeated := by
  refine ⟨none, .inr rfl, ?_⟩
  repeat' first
    | refine .element _ _ (by decide) ?_
    | refine List.forall_mem_cons.2 ⟨?_, ?_⟩
    | exact List.forall_mem_nil _

private theorem clean_laterVersion : Clean "3.0" := ⟨by decide, by decide +kernel⟩

private theorem not_overridden_repeated : ¬ Overridden "w" repeated := by
  rintro ⟨list, hf, child, hm, -⟩
  cases hf
  exact absurd hm
    (by simp [childrenNamed, XmlNode.children, XmlNode.localName, name?, XmlName.localName,
    XmlName.cutLast?])

theorem property_edit_is_read_unless_overridden_repeated :
    UnmixedPom repeated ∧ Clean "3.0" ∧ (ofRoot repeated).properties.get? "w" = some "1.0" ∧
    DocumentEdits.pomEditor.apply ⟨some "pom.xml", "properties/w", some "3.0"⟩ repeated =
      .ok (PomSections.addProperties [("w", "3.0")] repeated) ∧
    ofRoot (PomSections.addProperties [("w", "3.0")] repeated) =
      { ofRoot repeated with properties := (ofRoot repeated).properties.insert "w" "3.0" } := by
  have hp : (ofRoot repeated).properties.get? "w" = some "1.0" := by decide +kernel
  have plain : PlainName "w" := plainName_of_chars (by decide +kernel)
  have hread :=
    property_edit_is_read_unless_overridden unmixedPom_repeated
      clean_laterVersion hp (some "pom.xml")
  exact ⟨unmixedPom_repeated, clean_laterVersion, hp, hread.1 plain,
    hread.2.1 not_overridden_repeated⟩

/-- The edit of a property that two elements have a text for changes the one that is not read. -/
theorem not_every_property_edit_is_read :
    ¬ ∀ (root : XmlNode) (name value old : String), UnmixedPom root → Clean value →
      (ofRoot root).properties.get? name = some old →
      ∃ edited,
        DocumentEdits.pomEditor.apply ⟨some "pom.xml", propertyPath name, some value⟩ root =
          .ok edited ∧
        ofRoot edited =
          { ofRoot root with properties := (ofRoot root).properties.insert name value } := by
  intro hread
  have hp : (ofRoot repeated).properties.get? "v" = some "2.0" := by decide +kernel
  have hpath : parse (propertyPath "v") = _ :=
    parse_propertyPath (plainName_of_chars (by decide +kernel))
  obtain ⟨edited, ha, he⟩ :=
    hread repeated "v" "3.0" "2.0" unmixedPom_repeated clean_laterVersion hp
  have hr := resolves_of_leads hpath (leads_property unmixedPom_repeated hp)
  rw [apply_of_parse hpath hr] at ha
  cases ha
  have hv := congrArg (fun m => m.properties.get? "v") he
  exact absurd hv (by decide +kernel)

end BuildAlign.PomModule
