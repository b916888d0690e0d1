import BuildAlign.Proofs.OrderedMapLookup
import BuildAlign.PropertyReferences

/-! # The property that a version comes from

A chain of references either ends in the value of some property, its source, or in a text that still
mentions a reference.  Setting properties that mention none moves no source: the version afterwards
is the new value of the old source. -/
namespace BuildAlign.PropertyReferences

/-- The name under which a property is defined, also when only the project's mention is in the
way. -/
def definedName? (props : PropertyMap) (name : String) : Option String :=
  if props.contains name then some name
  else
    let short := String.ofList (withoutProject name.toList)
    if props.contains short then some short else none

/-- The property whose value the chain ends in, if that value mentions no reference. -/
def lastSource (props : PropertyMap) : Nat → String → Option String
  | 0, _ => none
  | steps + 1, text =>
    match (reference? text).bind (definedName? props) with
    | none => none
    | some name =>
      match props.value? name with
      | some value =>
        if mentionsReference value.toList then lastSource props steps value else some name
      | none => some name

/-- The property that `resolve` takes the version from. -/
def source? (props : PropertyMap) (text : String) : Option String :=
  lastSource props (longestChain + 1) text

theorem reference?_eq_none {text : String} (h : mentionsReference text.toList = false) :
    reference? text = none := by
  unfold reference?
  split
  · next cs hc => simp [hc, mentionsReference] at h
  · rfl

private theorem mentionsReference_of_reference? {text name : String}
    (h : reference? text = some name) :
    mentionsReference text.toList = true := by
  cases hm : mentionsReference text.toList with
  | true => rfl
  | false => rw [reference?_eq_none hm] at h; cases h

theorem value?_eq (props : PropertyMap) (name : String) :
    props.value? name = (props.get? name).join := rfl

private theorem definition?_eq (props : PropertyMap) (name : String) :
    definition? props name = (definedName? props name).bind props.get? := by
  unfold definition? definedName? OrderedMap.contains
  cases h : props.get? name with
  | some value => simp [h]
  | none =>
    cases hs : props.get? (String.ofList (withoutProject name.toList)) with
    | some value => simp [hs]
    | none => simp [hs]

private theorem contains_of_definedName? {props : PropertyMap} {name key : String}
    (h : definedName? props name = some key) : props.contains key = true := by
  simp only [definedName?] at h
  split at h
  · next hc => cases h; exact hc
  · split at h
    · next hc => cases h; exact hc
    · cases h

/-- All properties have values. -/
def Valued (props : PropertyMap) : Prop := ∀ name value, props.get? name = some value → value.isSome

/-- One step of `lastValue`, by the property that is read. -/
theorem lastValue_succ {props : PropertyMap} (hv : Valued props) (steps : Nat) (text : String) :
    lastValue props (steps + 1) text =
      match (reference? text).bind (definedName? props) with
      | none => some text
      | some name =>
        match props.value? name with
        | some value => if mentionsReference value.toList then lastValue props steps value
        else some value
        | none => none := by
  have hd : (reference? text).bind (definition? props) =
      ((reference? text).bind (definedName? props)).bind props.get? := by
    cases reference? text with
    | none => rfl
    | some name => exact definition?_eq props name
  rw [lastValue, hd]
  cases hb : (reference? text).bind (definedName? props) with
  | none => rfl
  | some name =>
    obtain ⟨r, _, hr⟩ := Option.bind_eq_some_iff.1 hb
    obtain ⟨value, hg⟩ := OrderedMap.contains_iff.1 (contains_of_definedName? hr)
    obtain ⟨v, rfl⟩ := Option.isSome_iff_exists.1 (hv name value hg)
    simp [value?_eq, hg]

/-- A chain that has a source ends in its value. -/
theorem lastValue_of_lastSource {props : PropertyMap} (hv : Valued props)
    {steps : Nat} {text name : String}
    (h : lastSource props steps text = some name) :
    lastValue props steps text = props.value? name := by
  induction steps generalizing text with
  | zero => cases h
  | succ steps ih =>
    rw [lastValue_succ hv]
    simp only [lastSource] at h
    cases hb : (reference? text).bind (definedName? props) with
    | none => simp [hb] at h
    | some key =>
      cases hk : props.value? key with
      | none => simp only [hb, hk, Option.some.injEq] at h ⊢; rw [← h, hk]
      | some value =>
        simp only [hb, hk] at h ⊢
        split at h
        · next hm => simp only [hm, if_true]; exact ih h
        · next hm => cases h; simp [hm, hk]

private theorem definedName?_of_contains {props : PropertyMap} {name : String}
    (h : props.contains name = true) :
    definedName? props name = some name := by
  rw [definedName?, if_pos h]

/-- Where properties have values, every chain ends in a text. -/
theorem lastValue_isSome {props : PropertyMap} (hv : Valued props) (steps : Nat) (text : String) :
    ∃ current, lastValue props steps text = some current := by
  induction steps generalizing text with
  | zero => exact ⟨text, rfl⟩
  | succ steps ih =>
    rw [lastValue_succ hv]
    cases hb : (reference? text).bind (definedName? props) with
    | none => exact ⟨text, rfl⟩
    | some name =>
      obtain ⟨_, -, hr⟩ := Option.bind_eq_some_iff.1 hb
      obtain ⟨value, hg⟩ := OrderedMap.contains_iff.1 (contains_of_definedName? hr)
      obtain ⟨v, rfl⟩ := Option.isSome_iff_exists.1 (hv name value hg)
      simp only [value?_eq, hg, Option.join_some]
      split
      · exact ih v
      · exact ⟨v, rfl⟩

/-- A property whose value leads no further is the source of what refers to it. -/
theorem lastSource_of_reference {props : PropertyMap} (hv : Valued props) {steps : Nat}
    {text name current : String} (ht : reference? text = some name)
    (hc : props.contains name = true)
    (hr : lastValue props (steps + 1) text = some current)
    (hm : mentionsReference current.toList = false)
    (hstop : ∀ value, props.value? name = some value → lastValue props steps value = some value) :
    lastSource props (steps + 1) text = some name := by
  obtain ⟨value, hg⟩ := OrderedMap.contains_iff.1 hc
  obtain ⟨v, rfl⟩ := Option.isSome_iff_exists.1 (hv name value hg)
  have hk : props.value? name = some v := by simp [value?_eq, hg]
  have hd := definedName?_of_contains hc
  rw [lastValue_succ hv] at hr
  simp only [lastSource, ht, Option.bind_some, hd, hk] at hr ⊢
  split
  · next hmv =>
    simp only [hmv, if_true, hstop v hk, Option.some.injEq] at hr
    rw [hr, hm] at hmv
    cases hmv
  · rfl

/-- The property chosen for editing is the one that a version without references comes from. -/
theorem lastSource_of_lastName {props : PropertyMap} (hv : Valued props) {steps : Nat}
    {text name current : String} (hn : lastName props steps text = some name)
    (hc : props.contains name = true) (hr : lastValue props (steps + 1) text = some current)
    (hm : mentionsReference current.toList = false) :
    lastSource props (steps + 1) text = some name := by
  induction steps generalizing text with
  | zero => exact lastSource_of_reference hv hn hc hr hm fun _ _ => rfl
  | succ steps ih =>
    simp only [lastName] at hn
    cases ht : reference? text with
    | none => simp [ht] at hn
    | some key =>
      simp only [ht] at hn
      cases hk : props.value? key with
      | none =>
        simp only [hk, Option.some.injEq] at hn
        exact lastSource_of_reference hv (hn ▸ ht) hc hr hm fun value hs => by
          rw [← hn, hk] at hs; cases hs
      | some value =>
        simp only [hk] at hn
        split at hn
        · next hs =>
          -- The value is a reference itself, so the chain goes on.
          obtain ⟨next, hnext⟩ := Option.isSome_iff_exists.1 hs
          have hmv := mentionsReference_of_reference? hnext
          have hd :=
            definedName?_of_contains (OrderedMap.contains_iff.2 ⟨_, Option.join_eq_some_iff.1 hk⟩)
          rw [lastValue_succ hv] at hr
          rw [lastSource]
          simp only [ht, Option.bind_some, hd, hk, hmv, if_true] at hr ⊢
          exact ih hn hr
        · next hs =>
          simp only [Option.some.injEq] at hn
          refine lastSource_of_reference hv (hn ▸ ht) hc hr hm fun v hv' => ?_
          rw [← hn, hk, Option.some.injEq] at hv'
          rw [lastValue_succ hv, ← hv', Option.not_isSome_iff_eq_none.1 hs]
          rfl

/-- What begins a chain has a last property. -/
theorem lastName_isSome (props : PropertyMap) (steps : Nat) {text : String}
    (h : (reference? text).isSome) :
    (lastName props steps text).isSome := by
  induction steps generalizing text with
  | zero => exact h
  | succ steps ih =>
    obtain ⟨name, hn⟩ := Option.isSome_iff_exists.1 h
    simp only [lastName, hn]
    split
    · split
      · next hs => exact ih hs
      · rfl
    · rfl

private theorem reference?_of_resolveName {props : PropertyMap} {text : String}
    (h : resolveName props text = none) : reference? text = none := by
  cases hr : reference? text with
  | none => rfl
  | some name =>
    have hs : (resolveName props text).isSome :=
      lastName_isSome props longestChain (by rw [hr]; rfl)
    rw [h] at hs
    cases hs

/-- Without a property to edit, a text stands for itself. -/
theorem resolve_of_resolveName {props : PropertyMap} {text : String}
    (h : resolveName props text = none) :
    resolve props text = some text := by
  rw [resolve, lastValue, reference?_of_resolveName h]
  rfl

section Edits

/-- The same properties, some of them set from one text without references to another. -/
structure Reset (props props' : PropertyMap) : Prop where
  contains : ∀ name, props'.contains name = props.contains name
  plain : ∀ name, props'.value? name = props.value? name ∨
    ∃ old new, props.value? name = some old ∧ props'.value? name = some new ∧
      mentionsReference old.toList = false ∧ mentionsReference new.toList = false

variable {props props' : PropertyMap}

private theorem Reset.definedName?_eq (h : Reset props props') (name : String) :
    definedName? props' name = definedName? props name := by
  simp [definedName?, h.contains]

private theorem Reset.lastSource_eq (h : Reset props props') (steps : Nat) (text : String) :
    lastSource props' steps text = lastSource props steps text := by
  induction steps generalizing text with
  | zero => rfl
  | succ steps ih =>
    have hd : definedName? props' = definedName? props := funext h.definedName?_eq
    simp only [lastSource, hd, ih]
    cases (reference? text).bind (definedName? props) with
    | none => rfl
    | some name =>
      rcases h.plain name with he | ⟨old, new, ho, hn, hmo, hmn⟩
      · simp only [he]
      · simp [ho, hn, hmo, hmn]

/-- A chain without a source never comes to a property that was set. -/
theorem Reset.lastValue_eq_of_none (hr : Reset props props')
    (hv : Valued props) (hv' : Valued props')
    {steps : Nat} {text : String} (h : lastSource props steps text = none) :
    lastValue props' steps text = lastValue props steps text := by
  induction steps generalizing text with
  | zero => rfl
  | succ steps ih =>
    have hd : definedName? props' = definedName? props :=
      funext hr.definedName?_eq
    rw [lastValue_succ hv, lastValue_succ hv', hd]
    simp only [lastSource] at h
    cases hb : (reference? text).bind (definedName? props) with
    | none => rfl
    | some name =>
      simp only [hb] at h ⊢
      rcases hr.plain name with he | ⟨old, new, ho, hn, hmo, hmn⟩
      · rw [he]
        cases hk : props.value? name with
        | none => rfl
        | some value =>
          simp only [hk] at h ⊢
          split at h
          · next hm => simp only [hm, if_true]; exact ih h
          · cases h
      · simp [ho, hmo] at h

/-- After properties were set, a version is what its source is set to, or what it was. -/
theorem Reset.resolve_eq (hr : Reset props props') (hv : Valued props) (hv' : Valued props')
    (text : String) :
    resolve props' text =
      match source? props text with
      | some name => props'.value? name
      | none => resolve props text := by
  cases h : source? props text with
  | none => exact hr.lastValue_eq_of_none hv hv' h
  | some name => exact lastValue_of_lastSource hv' ((hr.lastSource_eq _ _).trans h)

end Edits

end BuildAlign.PropertyReferences
