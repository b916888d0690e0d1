import BuildAlign.DocumentEdits
import BuildAlign.Proofs.DecimalSpelling

/-! # What holds at every node of a document

An edit puts a text in the place of a node or takes a node out of its container.  What holds at
every node, and has to do with the names of the members only, holds at every node afterwards. -/
namespace BuildAlign.JsonValue

/-- Every node of a value has the property, the value itself included. -/
inductive Everywhere (good : JsonValue → Prop) : JsonValue → Prop
  | node {v : JsonValue} (here : good v) (below : ∀ child ∈ v.children, Everywhere good child.2) :
      Everywhere good v

/-- A text without halves of surrogate pairs. -/
def Whole (s : LooseText) : Prop := ∀ c ∈ s, LooseText.half? c = none

/-- What is written as it is: whole texts and numbers without a fraction. -/
def Writable : JsonValue → Prop
  | .double _ => False
  | .text s => Whole s
  | .object members => ∀ name ∈ members.map Prod.fst, Whole name
  | _ => True

/-- The members have different names. -/
def Keyed : JsonValue → Prop
  | .object members => (members.map Prod.fst).Nodup
  | _ => True

/-- An integer has few enough digits to be read. -/
def Brief : JsonValue → Prop
  | .integer n => DecimalDigits.Short n.natAbs
  | _ => True

/-- What is true of every value that is read. -/
structure Readable (v : JsonValue) : Prop where
  keyed : Keyed v
  brief : Brief v

/-- A property of values that does not get lost with items and members. -/
structure Lasting (good : JsonValue → Prop) : Prop where
  array : ∀ items, good (.array items)
  object : ∀ {members members'}, (members'.map Prod.fst).Sublist (members.map Prod.fst) →
    good (.object members) → good (.object members')

variable {good : JsonValue → Prop} {doc : JsonValue} {f : JsonValue → JsonValue}

theorem lasting_writable : Lasting Writable where
  array _ := trivial
  object hs h name hm := h name (hs.subset hm)

theorem lasting_keyed : Lasting Keyed where
  array _ := trivial
  object hs h := h.sublist hs

theorem lasting_readable : Lasting Readable where
  array items := ⟨lasting_keyed.array items, trivial⟩
  object hs h := ⟨lasting_keyed.object hs h.keyed, trivial⟩

theorem Everywhere.imp {other : JsonValue → Prop} (h : Everywhere good doc)
    (hi : ∀ v, good v → other v) :
    Everywhere other doc := by
  induction h with
  | node here below ih => exact ⟨hi _ here, ih⟩

private theorem whole_ofList (cs : List Char) : Whole (.ofList cs) := by
  intro c hc
  obtain ⟨c, -, rfl⟩ := List.mem_map.1 hc
  rfl

theorem whole_ofString (s : String) : Whole (.ofString s) := whole_ofList s.toList

theorem eq_ofList_of_whole {s : LooseText} (h : Whole s) : ∃ cs, s = .ofList cs := by
  induction s with
  | nil => exact ⟨[], rfl⟩
  | cons c s ih =>
    obtain ⟨cs, rfl⟩ := ih fun c hc => h c (List.mem_cons_of_mem _ hc)
    cases c with
    | char c => exact ⟨c :: cs, rfl⟩
    | half code => exact absurd (h (.half code) List.mem_cons_self) (by simp [LooseText.half?])

section Nodes

theorem forall_items {P : JsonValue → Prop} {items : List JsonValue} :
    (∀ child ∈ (JsonValue.array items).children, P child.2) ↔ ∀ item ∈ items, P item := by
  constructor
  · intro h item hm
    obtain ⟨i, hi⟩ := List.mem_iff_getElem?.1 hm
    exact h (.index i, item) (List.mem_map.2 ⟨(item, i), List.mem_zipIdx_iff_getElem?.2 hi, rfl⟩)
  · intro h child hm
    obtain ⟨⟨item, i⟩, hi, rfl⟩ := List.mem_map.1 hm
    exact h item (List.mem_of_getElem? (List.mem_zipIdx_iff_getElem?.1 hi))

theorem forall_members {P : JsonValue → Prop} {members : List (LooseText × JsonValue)} :
    (∀ child ∈ (JsonValue.object members).children, P child.2) ↔
      ∀ member ∈ members, P member.2 := by
  constructor
  · intro h member hm
    exact h (.key member.1, member.2) (List.mem_map.2 ⟨member, hm, rfl⟩)
  · intro h child hm
    obtain ⟨⟨name, value⟩, hv, rfl⟩ := List.mem_map.1 hm
    exact h (name, value) hv

theorem everywhere_array {items : List JsonValue} :
    Everywhere good (.array items) ↔ good (.array items) ∧ ∀ item ∈ items, Everywhere good item :=
  ⟨fun ⟨here, below⟩ => ⟨here, forall_items.1 below⟩,
    fun ⟨here, below⟩ => ⟨here, forall_items.2 below⟩⟩

theorem everywhere_object {members : List (LooseText × JsonValue)} :
    Everywhere good (.object members) ↔
      good (.object members) ∧ ∀ member ∈ members, Everywhere good member.2 :=
  ⟨fun ⟨here, below⟩ => ⟨here, forall_members.1 below⟩,
    fun ⟨here, below⟩ => ⟨here, forall_members.2 below⟩⟩

theorem everywhere_leaf (h : doc.children = []) : Everywhere good doc ↔ good doc :=
  ⟨fun ⟨here, _⟩ => here, fun here => ⟨here, by simp [h]⟩⟩

end Nodes

section Edits

private theorem mem_modify {items : List JsonValue} {i : Nat} {item : JsonValue}
    (h : item ∈ items.modify i f) :
    item ∈ items ∨ ∃ before ∈ items, item = f before := by
  obtain ⟨k, hk⟩ := List.mem_iff_getElem?.1 h
  rw [List.getElem?_modify] at hk
  cases hg : items[k]? with
  | none => simp [hg] at hk
  | some before =>
    have hm := List.mem_of_getElem? hg
    by_cases hi : i = k
    · exact .inr ⟨before, hm, by simpa [hg, hi, eq_comm] using hk⟩
    · have he : before = item := by simpa [hg, hi] using hk
      exact .inl (he ▸ hm)

theorem keys_updateMember (name : LooseText) (f : JsonValue → JsonValue)
    (members : List (LooseText × JsonValue)) :
    (updateMember name f members).map Prod.fst = members.map Prod.fst := by
  induction members with
  | nil => rfl
  | cons m members ih =>
    obtain ⟨k, v⟩ := m
    by_cases hk : k = name
    · simp [updateMember, hk]
    · simp [updateMember, hk, ih]

private theorem mem_updateMember {name : LooseText} {members : List (LooseText × JsonValue)}
    {member : LooseText × JsonValue} (h : member ∈ updateMember name f members) :
    member ∈ members ∨ ∃ before ∈ members, member.2 = f before.2 := by
  induction members with
  | nil => exact .inl h
  | cons m members ih =>
    obtain ⟨k, v⟩ := m
    simp only [updateMember] at h
    split at h
    · rcases List.mem_cons.1 h with rfl | h
      · exact .inr ⟨(k, v), List.mem_cons_self, rfl⟩
      · exact .inl (List.mem_cons_of_mem _ h)
    · rcases List.mem_cons.1 h with rfl | h
      · exact .inl List.mem_cons_self
      · rcases ih h with h | ⟨before, hb, he⟩
        · exact .inl (List.mem_cons_of_mem _ h)
        · exact .inr ⟨before, List.mem_cons_of_mem _ hb, he⟩

theorem Everywhere.updateChild (lasting : Lasting good)
    (hf : ∀ child, Everywhere good child → Everywhere good (f child))
    (step : JsonStep) (h : Everywhere good doc) : Everywhere good (updateChild f step doc) := by
  unfold JsonValue.updateChild
  split
  · obtain ⟨-, below⟩ := everywhere_array.1 h
    refine everywhere_array.2 ⟨lasting.array _, fun item hm => ?_⟩
    rcases mem_modify hm with hm | ⟨before, hb, rfl⟩
    · exact below item hm
    · exact hf before (below before hb)
  · obtain ⟨here, below⟩ := everywhere_object.1 h
    refine everywhere_object.2 ⟨lasting.object ?_ here, fun member hm => ?_⟩
    · simp only [keys_updateMember, List.Sublist.refl]
    · rcases mem_updateMember hm with hm | ⟨before, hb, he⟩
      · exact below member hm
      · exact he ▸ hf before.2 (below before hb)
  · exact h

theorem Everywhere.set (lasting : Lasting good) {value : JsonValue} (hv : Everywhere good value)
    (route : JsonRoute) (h : Everywhere good doc) : Everywhere good (set value route doc) := by
  induction route generalizing doc with
  | nil => exact hv
  | cons step route ih => exact h.updateChild lasting (fun child hc => ih hc) step

theorem Everywhere.eraseChild (lasting : Lasting good) (step : JsonStep) (h : Everywhere good doc) :
    Everywhere good (eraseChild step doc) := by
  unfold JsonValue.eraseChild
  split
  · obtain ⟨-, below⟩ := everywhere_array.1 h
    exact everywhere_array.2 ⟨lasting.array _,
      fun item hm => below item (List.mem_of_mem_eraseIdx hm)⟩
  · obtain ⟨here, below⟩ := everywhere_object.1 h
    exact everywhere_object.2 ⟨lasting.object (List.eraseP_sublist.map _) here,
      fun member hm => below member (List.mem_of_mem_eraseP hm)⟩
  · exact h

theorem Everywhere.erase (lasting : Lasting good) (route : JsonRoute) (h : Everywhere good doc) :
    Everywhere good (erase route doc) := by
  induction route generalizing doc with
  | nil => exact h
  | cons step route ih =>
    cases route with
    | nil => exact h.eraseChild lasting step
    | cons next route => exact h.updateChild lasting (fun child hc => ih hc) step

private theorem scalarKind?_updateChild (f : JsonValue → JsonValue)
    (step : JsonStep) (doc : JsonValue) :
    DocumentEdits.scalarKind? (updateChild f step doc) = DocumentEdits.scalarKind? doc := by
  unfold JsonValue.updateChild
  split <;> rfl

private theorem scalarKind?_eraseChild (step : JsonStep) (doc : JsonValue) :
    DocumentEdits.scalarKind? (eraseChild step doc) = DocumentEdits.scalarKind? doc := by
  unfold JsonValue.eraseChild
  split <;> rfl

end Edits

end BuildAlign.JsonValue

namespace BuildAlign.DocumentEdits
open JsonValue

variable {good : JsonValue → Prop} {doc edited : JsonValue} {edit : DocumentEdit}

private theorem firstRoute?_ne_nil {segments : List Segment}
    (hs : segments ≠ []) {route : JsonRoute}
    (h : JsonMatches.firstRoute? segments doc = some route) : route ≠ [] := by
  cases segments with
  | nil => exact absurd rfl hs
  | cons segment rest =>
    simp only [JsonMatches.firstRoute?] at h
    obtain ⟨⟨above, node⟩, -, h⟩ := List.exists_of_findSome?_eq_some h
    obtain ⟨⟨step, child⟩, -, h⟩ := List.exists_of_findSome?_eq_some h
    obtain ⟨below, -, rfl⟩ := Option.map_eq_some_iff.1 h
    simp

private theorem locateJson_ne_nil {path : String} {route : JsonRoute}
    (h : locateJson path doc = .ok (some route)) :
    route ≠ [] := by
  unfold locateJson at h
  split at h
  · cases h
  · next segments _ =>
    unfold JsonMatches.first? at h
    split at h
    · cases h
    · next hs => exact firstRoute?_ne_nil hs (Except.ok.inj h)

/-- What an edit can do to a document: it replaces a node below the root by a text or takes one
out. -/
theorem apply_cases (h : jsonEditor.apply edit doc = .ok edited) :
    ∃ step route, (∃ value, edited = JsonValue.set (.text (.ofString value)) (step :: route) doc) ∨
      edited = doc.erase (step :: route) := by
  simp only [Editor.apply] at h
  split at h
  · cases h
  · cases h
  · next route hl =>
    cases h
    cases route with
    | nil => exact absurd rfl (locateJson_ne_nil hl)
    | cons step route =>
      refine ⟨step, route, ?_⟩
      cases edit.value with
      | none => exact .inr rfl
      | some value => exact .inl ⟨value, rfl⟩

/-- An edit keeps what holds everywhere and has to do with names only. -/
theorem everywhere_apply (lasting : Lasting good) (ht : ∀ value, good (.text (.ofString value)))
    (hd : Everywhere good doc) (h : jsonEditor.apply edit doc = .ok edited) :
    Everywhere good edited := by
  obtain ⟨step, route, ⟨value, rfl⟩ | rfl⟩ := apply_cases h
  · exact .set lasting ((everywhere_leaf rfl).2 (ht value)) _ hd
  · exact hd.erase lasting _

/-- A container stays one. -/
theorem scalarKind?_apply (h : jsonEditor.apply edit doc = .ok edited) :
    scalarKind? edited = scalarKind? doc := by
  obtain ⟨step, route, ⟨value, rfl⟩ | rfl⟩ := apply_cases h
  · exact scalarKind?_updateChild _ step doc
  · cases route with
    | nil => exact scalarKind?_eraseChild step doc
    | cons next route => exact scalarKind?_updateChild _ step doc

end BuildAlign.DocumentEdits
