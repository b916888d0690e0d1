import BuildAlign.Proofs.PathReadings

/-! # What an edit leaves as it is

Setting and deleting are both changes of one node, the deleted one being taken out of its container.
All nodes that are neither above nor below the changed one stay, and those above keep the names and
the number of their children.  Of a batch, the edits before the first that cannot be made are made,
and no others. -/
namespace BuildAlign.JsonValue

variable {f : JsonValue → JsonValue} {doc : JsonValue} {route above other : JsonRoute}

/-- Changes the node at a route. -/
def modifyAt (f : JsonValue → JsonValue) : JsonRoute → JsonValue → JsonValue
  | [], doc => f doc
  | step :: route, doc => updateChild (modifyAt f route) step doc

/-- A node without what is below it: a scalar, the number of the items, or the names of the
members. -/
def shell : JsonValue → JsonValue
  | array items => array (items.map fun _ => null)
  | object members => object (members.map fun (name, _) => (name, null))
  | scalar => scalar

section Changes

theorem set_eq_modifyAt (value : JsonValue) (route : JsonRoute) (doc : JsonValue) :
    set value route doc = modifyAt (fun _ => value) route doc := by
  induction route generalizing doc with
  | nil => rfl
  | cons step route ih =>
    have hf : set value route = modifyAt (fun _ => value) route := funext ih
    rw [set, modifyAt, hf]

private theorem erase_eq_modifyAt (above : JsonRoute) (step : JsonStep) (doc : JsonValue) :
    erase (above ++ [step]) doc = modifyAt (eraseChild step) above doc := by
  induction above generalizing doc with
  | nil => rfl
  | cons first above ih =>
    have hf : erase (above ++ [step]) = modifyAt (eraseChild step) above := funext ih
    have hne : above ++ [step] ≠ [] := by simp
    rw [List.cons_append, modifyAt, ← hf]
    cases hr : above ++ [step] with
    | nil => exact absurd hr hne
    | cons next route => rfl

private theorem find_updateMember (name other : LooseText) (f : JsonValue → JsonValue)
    (members : List (LooseText × JsonValue)) :
    OrderedMap.find other (updateMember name f members) =
      if name = other then (OrderedMap.find name members).map f
      else OrderedMap.find other members := by
  induction members with
  | nil => simp [updateMember, OrderedMap.find]
  | cons member members ih =>
    obtain ⟨k, v⟩ := member
    by_cases hk : k = name
    · subst hk
      by_cases ho : k = other <;> simp [updateMember, OrderedMap.find, ho]
    · by_cases ho : name = other
      · subst ho
        simp [updateMember, OrderedMap.find, hk, ih]
      · simp [updateMember, OrderedMap.find, hk, ih, ho]

private theorem child?_updateChild (f : JsonValue → JsonValue)
    (step other : JsonStep) (doc : JsonValue) :
    (updateChild f step doc).child? other =
      if step = other then (doc.child? step).map f else doc.child? other := by
  cases doc with
  | array items =>
    cases step with
    | index i =>
      cases other with
      | index j => by_cases h : i = j <;> simp [updateChild, child?, h]
      | key name => simp [updateChild, child?]
    | key name => cases other <;> simp [updateChild, child?]
  | object members =>
    cases step with
    | key name =>
      cases other with
      | key other => simp [updateChild, child?, find_updateMember]
      | index j => simp [updateChild, child?]
    | index i => cases other <;> simp [updateChild, child?]
  | _ => simp [updateChild, child?]

private theorem shell_updateChild (f : JsonValue → JsonValue) (step : JsonStep) (doc : JsonValue) :
    (updateChild f step doc).shell = doc.shell := by
  have named : ∀ members : List (LooseText × JsonValue),
      members.map (fun (name, _) => (name, null)) =
        (members.map Prod.fst).map fun name => (name, null) := by
    intro members
    rw [List.map_map]
    rfl
  unfold updateChild
  split
  · simp only [shell, List.map_const', List.length_modify]
  · simp only [shell, named, keys_updateMember]
  · rfl

theorem get?_append (doc : JsonValue) (above below : JsonRoute) :
    doc.get? (above ++ below) = (doc.get? above).bind (·.get? below) := by
  induction above generalizing doc with
  | nil => rfl
  | cons step above ih => cases hc : doc.child? step <;> simp [get?, hc, ih]

private theorem get?_modifyAt_below (f : JsonValue → JsonValue)
    (above below : JsonRoute) (doc : JsonValue) :
    (modifyAt f above doc).get? (above ++ below) = (doc.get? above).bind fun node =>
      (f node).get? below := by
  induction above generalizing doc with
  | nil => rfl
  | cons step above ih =>
    rw [modifyAt, List.cons_append, get?, child?_updateChild, if_pos rfl, get?]
    cases doc.child? step with
    | none => rfl
    | some child => exact ih child

/-- The changed node itself. -/
theorem get?_modifyAt_self (f : JsonValue → JsonValue) (route : JsonRoute) (doc : JsonValue) :
    (modifyAt f route doc).get? route = (doc.get? route).map f := by
  have h := get?_modifyAt_below f route [] doc
  rw [List.append_nil] at h
  rw [h]
  cases doc.get? route <;> rfl

/-- Nodes that are neither above nor below the changed one stay. -/
theorem get?_modifyAt_apart (f : JsonValue → JsonValue) (doc : JsonValue) (h : ¬ route <+: other)
    (h' : ¬ other <+: route) : (modifyAt f route doc).get? other = doc.get? other := by
  induction route generalizing doc other with
  | nil => exact absurd List.nil_prefix h
  | cons step route ih =>
    cases other with
    | nil => exact absurd List.nil_prefix h'
    | cons first other =>
      rw [modifyAt, get?, child?_updateChild, get?]
      split
      · next he =>
        subst he
        rw [List.prefix_cons_inj] at h h'
        cases doc.child? step with
        | none => rfl
        | some child => exact ih child h h'
      · rfl

/-- Above the changed node, and beside it, names and numbers of children stay. -/
theorem shell_modifyAt (f : JsonValue → JsonValue) (doc : JsonValue) (h : ¬ route <+: other) :
    ((modifyAt f route doc).get? other).map shell = (doc.get? other).map shell := by
  induction route generalizing doc other with
  | nil => exact absurd List.nil_prefix h
  | cons step route ih =>
    cases other with
    | nil => simp [modifyAt, get?, shell_updateChild]
    | cons first other =>
      rw [modifyAt, get?, child?_updateChild, get?]
      split
      · next he =>
        subst he
        rw [List.prefix_cons_inj] at h
        cases doc.child? step with
        | none => rfl
        | some child => exact ih child h
      · rfl

end Changes

section Effects

/-- The node at the route has the value, and all other nodes are the same.  Those above it have the
same names and numbers of children, and there is no node where there was none. -/
structure Replaced (route : JsonRoute) (value doc edited : JsonValue) : Prop where
  here : edited.get? route = some value
  elsewhere : ∀ other, ¬ route <+: other → ¬ other <+: route → edited.get? other = doc.get? other
  shells : ∀ other, ¬ route <+: other → (edited.get? other).map shell = (doc.get? other).map shell
  nothing_new : ∀ other, (edited.get? other).isSome → (doc.get? other).isSome

/-- A container without the child at a step.  The other children stay in order, and in an array
those behind it move up. -/
inductive TakenOut : JsonStep → JsonValue → JsonValue → Prop
  | member {name : LooseText} {before after : List (LooseText × JsonValue)} (value : JsonValue)
    (gone : name ∉ (before ++ after).map Prod.fst) :
    TakenOut (.key name) (.object (before ++ (name, value) :: after)) (.object (before ++ after))
  | item (before after : List JsonValue) (item : JsonValue) :
    TakenOut (.index before.length) (.array (before ++ item :: after)) (.array (before ++ after))

/-- The child at a step is taken out of its container, and outside of the container all is the
same. -/
structure Removed (above : JsonRoute) (step : JsonStep) (doc edited : JsonValue) : Prop where
  container : ∃ node left, doc.get? above = some node ∧ edited.get? above = some left ∧
    TakenOut step node left
  elsewhere : ∀ other, ¬ above <+: other → ¬ other <+: above → edited.get? other = doc.get? other
  shells : ∀ other, ¬ above <+: other → (edited.get? other).map shell = (doc.get? other).map shell

theorem get?_leaf {value : JsonValue} (leaf : value.children = [])
    {below : JsonRoute} (h : below ≠ []) :
    value.get? below = none := by
  cases below with
  | nil => exact absurd rfl h
  | cons step below =>
    have hn : value.child? step = none := by
      rw [← find_children, leaf]
      rfl
    rw [get?, hn]
    rfl

theorem replaced_set {value : JsonValue} (leaf : value.children = [])
    (h : (doc.get? route).isSome) :
    Replaced route value doc (set value route doc) := by
  rw [set_eq_modifyAt]
  obtain ⟨node, hn⟩ := Option.isSome_iff_exists.1 h
  have shells : ∀ other, ¬ route <+: other →
      ((modifyAt (fun _ => value) route doc).get? other).map shell = (doc.get? other).map shell :=
    fun _ => shell_modifyAt _ doc
  refine ⟨?_, fun other => get?_modifyAt_apart _ doc, shells, fun other ho => ?_⟩
  · rw [get?_modifyAt_self, hn, Option.map_some]
  · by_cases hp : route <+: other
    · obtain ⟨below, rfl⟩ := hp
      rw [get?_modifyAt_below, hn, Option.bind_some] at ho
      by_cases hb : below = []
      · rw [hb, List.append_nil, hn]
        rfl
      · rw [get?_leaf leaf hb] at ho
        cases ho
    · have hs := congrArg Option.isSome (shells other hp)
      rwa [Option.isSome_map, Option.isSome_map, ho, eq_comm] at hs

private theorem takenOut_eraseChild (keyed : Keyed doc) {step : JsonStep} {child : JsonValue}
    (h : doc.child? step = some child) : TakenOut step doc (eraseChild step doc) := by
  cases doc with
  | array items =>
    cases step with
    | key name => cases h
    | index i =>
      obtain ⟨hi, -⟩ := List.getElem?_eq_some_iff.1 h
      have hitems : items = items.take i ++ items[i] :: items.drop (i + 1) := by
        rw [List.getElem_cons_drop, List.take_append_drop]
      have hlen : (items.take i).length = i := List.length_take_of_le (Nat.le_of_lt hi)
      have ht := TakenOut.item (items.take i) (items.drop (i + 1)) items[i]
      rw [hlen, ← hitems, ← List.eraseIdx_eq_take_drop_succ] at ht
      exact ht
  | object members =>
    cases step with
    | index i => cases h
    | key name =>
      obtain ⟨before, after, rfl⟩ := List.append_of_mem (OrderedMap.mem_of_find h)
      have gone : name ∉ (before ++ after).map Prod.fst := by
        have hk : ((before ++ (name, child) :: after).map Prod.fst).Nodup := keyed
        rw [List.map_append, List.map_cons, List.nodup_middle, List.nodup_cons,
          ← List.map_append] at hk
        exact hk.1
      have hbefore : ∀ member ∈ before, ¬ decide (member.1 = name) = true := by
        intro member hm he
        refine gone ?_
        rw [← of_decide_eq_true he]
        exact List.mem_map_of_mem (List.mem_append_left _ hm)
      have herase : (before ++ (name, child) :: after).eraseP (fun (k, _) => decide (k = name)) =
          before ++ after := by
        rw [List.eraseP_append_right _ hbefore, List.eraseP_cons_of_pos (by simp)]
      have ht := TakenOut.member child gone
      rwa [← herase] at ht
  | _ => cases step <;> cases h

theorem Everywhere.of_get? {good : JsonValue → Prop} (h : Everywhere good doc) {node : JsonValue}
    (hn : doc.get? route = some node) : Everywhere good node := by
  induction route generalizing doc with
  | nil => exact Option.some.inj hn ▸ h
  | cons step route ih =>
    obtain ⟨child, hc, hn⟩ := Option.bind_eq_some_iff.1 hn
    exact ih (h.child hc) hn

private theorem removed_erase (keyed : Everywhere Keyed doc) {step : JsonStep}
    (h : (doc.get? (above ++ [step])).isSome) :
    Removed above step doc (erase (above ++ [step]) doc) := by
  rw [erase_eq_modifyAt]
  rw [get?_append, Option.isSome_bind, Option.any_eq_true] at h
  obtain ⟨node, hn, hs⟩ := h
  obtain ⟨child, hc⟩ : ∃ child, node.child? step = some child := by
    rw [get?, Option.isSome_bind, Option.any_eq_true] at hs
    obtain ⟨child, hc, -⟩ := hs
    exact ⟨child, hc⟩
  refine ⟨⟨node, eraseChild step node, hn, ?_, ?_⟩, fun other => get?_modifyAt_apart _ doc,
    fun other => shell_modifyAt _ doc⟩
  · rw [get?_modifyAt_self, hn, Option.map_some]
  · exact takenOut_eraseChild (keyed.of_get? hn).here hc

end Effects

end BuildAlign.JsonValue

namespace BuildAlign.DocumentEdits
open JsonValue JsonMatches

variable {doc edited : JsonValue} {edit : DocumentEdit} {path : String} {route : JsonRoute}

/-- What an edit with that value makes of the node at a route. -/
def Changed (value : Option String) (route : JsonRoute) (doc edited : JsonValue) : Prop :=
  match value with
  | some value => Replaced route (.text (.ofString value)) doc edited
  | none => ∃ above step, route = above ++ [step] ∧ Removed above step doc edited

theorem locateJson_eq (path : String) (doc : JsonValue) :
    locateJson path doc = ((find path doc).map List.head?).mapError .jsonPath := by
  unfold locateJson find
  cases JsonPath.compile path with
  | error fault => rfl
  | ok segments => simp only [Except.map, Except.mapError, first?_eq_head?]

/-- What a path matches is a node of the document below the root. -/
theorem exists_of_mem_find (keyed : Everywhere Keyed doc) {found : List JsonRoute}
    (hf : find path doc = .ok found) (hr : route ∈ found) :
    (doc.get? route).isSome ∧ route ≠ [] := by
  unfold find at hf
  cases hc : JsonPath.compile path with
  | error fault => rw [hc] at hf; cases hf
  | ok segments =>
    rw [hc] at hf
    cases hf
    simp only [locate] at hr
    split at hr
    · cases hr
    · next ne =>
      obtain ⟨segment, rest, rfl⟩ := List.exists_cons_of_ne_nil ne
      refine ⟨?_, ne_nil_of_mem_walk hr⟩
      have hcount := List.count_pos_iff.2 hr
      rw [count_walk keyed] at hcount
      by_contra hs
      rw [if_neg hs] at hcount
      cases hcount

/-- An edit of a JSON document, by what its path matches. -/
theorem apply_eq (edit : DocumentEdit) (doc : JsonValue) :
    jsonEditor.apply edit doc =
      match find edit.path doc with
      | .error fault => .error (.jsonPath fault)
      | .ok [] => .error (.notFound edit.document edit.path)
      | .ok (route :: _) => .ok (jsonEditor.change route edit.value doc) := by
  have hl : jsonEditor.locate edit.path doc = _ := locateJson_eq edit.path doc
  rw [Editor.apply, hl]
  cases find edit.path doc with
  | error fault => rfl
  | ok found => cases found <;> rfl

private theorem changed_change (keyed : Everywhere Keyed doc) (value : Option String)
    (h : (doc.get? route).isSome ∧ route ≠ []) :
    Changed value route doc (jsonEditor.change route value doc) := by
  cases value with
  | some value => exact replaced_set rfl h.1
  | none =>
    obtain hn | ⟨above, step, hr⟩ := List.eq_nil_or_concat route
    · exact absurd hn h.2
    · rw [List.concat_eq_append] at hr
      subst hr
      exact ⟨above, step, rfl, removed_erase keyed h.1⟩

/-- An edit that fails, because its text is no path or its path matches nothing, leaves the
document; one that is made changes the first match and no other node.  A batch leaves what its edits
leave before the first that fails, and if none does, it returns how many they are. -/
theorem edits_change_first_match (keyed : Everywhere Keyed doc) :
    (∀ edit cause, jsonEditor.apply edit doc = .error cause →
      ((∃ fault, find edit.path doc = .error fault ∧ cause = .jsonPath fault) ∨
        (find edit.path doc = .ok [] ∧ cause = .notFound edit.document edit.path)) ∧
      (jsonEditor.applyAll [edit] doc).document = doc) ∧
    (∀ edit edited, jsonEditor.apply edit doc = .ok edited →
      ∃ route later, find edit.path doc = .ok (route :: later) ∧
        Changed edit.value route doc edited) ∧
    ∀ edits,
      ((jsonEditor.applyAll edits doc).failure = none →
        (jsonEditor.applyAll edits doc).applied = edits.length ∧
          jsonEditor.applyEach edits doc = .ok (jsonEditor.applyAll edits doc).document) ∧
      ∀ cause, (jsonEditor.applyAll edits doc).failure = some cause →
        ∃ made edit left, edits = made ++ edit :: left ∧
          jsonEditor.applyEach made doc = .ok (jsonEditor.applyAll edits doc).document ∧
          jsonEditor.apply edit (jsonEditor.applyAll edits doc).document = .error cause := by
  refine ⟨fun edit cause h => ⟨?_, ?_⟩, fun edit edited h => ?_, fun edits => ?_⟩
  · rw [apply_eq] at h
    split at h
    · next fault hf => exact .inl ⟨fault, hf, (Except.error.inj h).symm⟩
    · next hf => exact .inr ⟨hf, (Except.error.inj h).symm⟩
    · cases h
  · simp only [Editor.applyAll, h]
  · rw [apply_eq] at h
    split at h
    · cases h
    · cases h
    · next route later hf =>
      cases h
      exact ⟨route, later, hf,
        changed_change keyed _ (exists_of_mem_find keyed hf List.mem_cons_self)⟩
  · refine ⟨jsonEditor.applyAll_complete, fun cause hcause => ?_⟩
    obtain ⟨made, left, hedits, -, hmade, hstop⟩ := jsonEditor.applyAll_stops edits doc
    cases left with
    | nil =>
      rw [hstop] at hcause
      cases hcause
    | cons edit left =>
      obtain ⟨cause', hc, hf⟩ := hstop
      cases hf.symm.trans hcause
      exact ⟨made, edit, left, hedits, hmade, hc⟩

/-- The second edit finds nothing, so the third is not made. -/
def threeEdits : List DocumentEdit :=
  [⟨none, "$..b", some "x"⟩, ⟨none, "$.c", none⟩, ⟨none, "$.a", none⟩]

theorem edits_change_first_match_nested :
    Everywhere Keyed nested ∧
    (∃ edited, jsonEditor.apply ⟨none, "$.a[0]", none⟩ nested = .ok edited ∧
      Removed [.key (.ofString "a")] (.index 0) nested edited) ∧
    ∃ made edit left cause, threeEdits = made ++ edit :: left ∧
      jsonEditor.applyEach made nested = .ok (jsonEditor.applyAll threeEdits nested).document ∧
      jsonEditor.apply edit (jsonEditor.applyAll threeEdits nested).document = .error cause := by
  obtain ⟨-, hmade, hbatch⟩ := edits_change_first_match keyed_nested
  refine ⟨keyed_nested, ?_, ?_⟩
  · have hok : (jsonEditor.apply ⟨none, "$.a[0]", none⟩ nested).isOk = true := by decide +kernel
    cases ha : jsonEditor.apply ⟨none, "$.a[0]", none⟩ nested with
    | error cause => rw [ha] at hok; cases hok
    | ok edited =>
      obtain ⟨route, later, hf, above, step, rfl, hr⟩ := hmade _ _ ha
      have hroute : find "$.a[0]" nested = .ok [[.key (.ofString "a")] ++ [.index 0]] := by
        decide +kernel
      rw [hroute] at hf
      obtain ⟨rfl, hstep⟩ := List.append_inj' (List.cons.inj (Except.ok.inj hf)).1 rfl
      cases hstep
      exact ⟨edited, rfl, hr⟩
  · have hfails : (jsonEditor.applyAll threeEdits nested).failure.isSome = true := by decide +kernel
    obtain ⟨cause, hc⟩ := Option.isSome_iff_exists.1 hfails
    obtain ⟨made, edit, left, hrun⟩ := (hbatch threeEdits).2 cause hc
    exact ⟨made, edit, left, cause, hrun⟩

end BuildAlign.DocumentEdits
