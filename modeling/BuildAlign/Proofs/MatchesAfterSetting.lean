import BuildAlign.Proofs.NodeEdits

/-! # Matches after a node is set

A node that is set to a text loses what is below it.  To a path this is all that happens: it matches
what it matched before, in the same order, without the routes that lead below the node.  A first
match has no match before it, so it is found again, and what is set there last counts alone. -/
namespace BuildAlign.JsonValue

variable {doc : JsonValue} {f g : JsonValue → JsonValue}

private theorem updateMember_updateMember (name : LooseText) (f g : JsonValue → JsonValue)
    (members : List (LooseText × JsonValue)) :
    updateMember name g (updateMember name f members) = updateMember name (g ∘ f) members := by
  induction members with
  | nil => rfl
  | cons member members ih =>
    obtain ⟨k, v⟩ := member
    by_cases hk : k = name
    · simp [updateMember, hk]
    · simp [updateMember, hk, ih]

theorem updateChild_updateChild (f g : JsonValue → JsonValue) (step : JsonStep) (doc : JsonValue) :
    updateChild g step (updateChild f step doc) = updateChild (g ∘ f) step doc := by
  cases step with
  | index i =>
    cases doc with
    | array items => simp only [updateChild, List.modify_modify_eq]
    | _ => rfl
  | key name =>
    cases doc with
    | object members => simp only [updateChild, updateMember_updateMember]
    | _ => rfl

theorem modifyAt_modifyAt (f g : JsonValue → JsonValue) (route : JsonRoute) (doc : JsonValue) :
    modifyAt g route (modifyAt f route doc) = modifyAt (g ∘ f) route doc := by
  induction route generalizing doc with
  | nil => rfl
  | cons step route ih =>
    have hf : modifyAt g route ∘ modifyAt f route = modifyAt (g ∘ f) route := funext ih
    rw [modifyAt, modifyAt, updateChild_updateChild, hf, modifyAt]

/-- What is set last at a route counts alone. -/
theorem set_set (value other : JsonValue) (route : JsonRoute) (doc : JsonValue) :
    set other route (set value route doc) = set other route doc := by
  simp only [set_eq_modifyAt, modifyAt_modifyAt]
  rfl

private theorem updateMember_eq_map {members : List (LooseText × JsonValue)}
    (nodup : (members.map Prod.fst).Nodup)
    (name : LooseText) (f : JsonValue → JsonValue) :
    updateMember name f members = members.map fun (k, v) => (k, if k = name then f v else v) := by
  induction members with
  | nil => rfl
  | cons member members ih =>
    obtain ⟨k, v⟩ := member
    simp only [List.map_cons, List.nodup_cons] at nodup
    by_cases hk : k = name
    · subst hk
      have same : members = members.map fun (k', v) => (k', if k' = k then f v else v) := by
        refine (List.map_id' members).symm.trans (List.map_congr_left fun (k', v) hm => ?_)
        have hne : k' ≠ k := by
          rintro rfl
          exact nodup.1 (List.mem_map_of_mem (f := Prod.fst) hm)
        simp only [if_neg hne]
      simp only [updateMember, List.map_cons, if_true, ← same]
    · simp [updateMember, hk, ih nodup.2]

/-- Changes a child if it is the one at a step. -/
def changeIfAt (f : JsonValue → JsonValue) (step : JsonStep) :
    JsonStep × JsonValue → JsonStep × JsonValue
  | (other, child) => (other, if other = step then f child else child)

/-- Where different children have different steps, one of them changes. -/
theorem children_updateChild (keyed : Keyed doc) (f : JsonValue → JsonValue) (step : JsonStep) :
    (updateChild f step doc).children = doc.children.map (changeIfAt f step) := by
  cases doc with
  | array items =>
    cases step with
    | key name => simp [updateChild, children, changeIfAt]
    | index i =>
      refine List.ext_getElem? fun j => ?_
      by_cases h : i = j
      · simp [updateChild, children, changeIfAt, h, Function.comp_def]
      · simp [updateChild, children, changeIfAt, h, Ne.symm h, Function.comp_def]
  | object members =>
    cases step with
    | index i => simp [updateChild, children, changeIfAt]
    | key name => simp [updateChild, children, changeIfAt, updateMember_eq_map keyed]
  | _ => simp [updateChild, children]

private theorem keyed_leaf (leaf : doc.children = []) : Keyed doc := by
  cases doc with
  | object members => exact List.map_eq_nil_iff.1 leaf ▸ List.nodup_nil
  | _ => trivial

private theorem keyed_updateChild (keyed : Keyed doc)
    (f : JsonValue → JsonValue) (step : JsonStep) :
    Keyed (updateChild f step doc) := by
  unfold updateChild
  split
  · trivial
  · simpa only [Keyed, keys_updateMember] using keyed
  · exact keyed

end BuildAlign.JsonValue

namespace BuildAlign.JsonMatches
open JsonValue

variable {doc value : JsonValue} {children : List (JsonStep × JsonValue)} {route other : JsonRoute}

/-- Whether another route does not lead below the node at a route. -/
def notBelow (route other : JsonRoute) : Bool := decide (route <+: other → other = route)

private theorem notBelow_self (route : JsonRoute) :
    notBelow route route = true := by simp [notBelow]

private theorem notBelow_cons (step : JsonStep) (route : JsonRoute)
    (first : JsonStep) (other : JsonRoute) :
    notBelow (step :: route) (first :: other) =
      (decide (first ≠ step) || notBelow route other) := by
  by_cases h : first = step
  · simp [notBelow, h]
  · simp [notBelow, List.cons_prefix_cons, h, Ne.symm h]

/-- A selector selects the same children when one of them changes. -/
theorem select_updateChild (keyed : Keyed doc) (selector : Selector) (f : JsonValue → JsonValue)
    (step : JsonStep) :
    select selector (updateChild f step doc) = (select selector doc).map (changeIfAt f step) := by
  rw [select_eq_filter (keyed_updateChild keyed f step), select_eq_filter keyed,
    children_updateChild keyed,
    List.filter_map]
  rfl

/-- If a changed child loses the routes below one of its nodes, so do the children that it is
among. -/
theorem routes_findBelow_changed {found : JsonValue → List (JsonRoute × JsonValue)}
    {f : JsonValue → JsonValue}
    {step : JsonStep} (h : ∀ child, (step, child) ∈ children →
      (found (f child)).map Prod.fst = ((found child).map Prod.fst).filter (notBelow route)) :
    (findBelow found (children.map (changeIfAt f step))).map Prod.fst =
      ((findBelow found children).map Prod.fst).filter (notBelow (step :: route)) := by
  rw [routes_findBelow, routes_findBelow, List.flatMap_map, List.filter_flatMap]
  refine List.flatMap_congr fun (other, child) hm => ?_
  rw [List.filter_map, changeIfAt]
  by_cases ho : other = step
  · subst ho
    simp only [if_true, h child hm, Function.comp_def, notBelow_cons, ne_eq, not_true, decide_false,
      Bool.false_or]
  · simp [ho, Function.comp_def, notBelow_cons]

private theorem walk_leaf (leaf : value.children = []) (segment : Segment) (rest : List Segment) :
    walk (segment :: rest) value = [] := by
  rw [walk_cons, walkHere, select_eq_filter (keyed_leaf leaf), leaf]
  simp [findBelow]

/-- A walk through a document with a leaf set in it goes along the routes that it went along before,
in the same order, without those that lead below the leaf. -/
theorem routes_walk_set (leaf : value.children = []) (keyed : Everywhere Keyed doc)
    (segments : List Segment) (route : JsonRoute) :
    (walk segments (set value route doc)).map Prod.fst =
      ((walk segments doc).map Prod.fst).filter (notBelow route) := by
  induction route generalizing segments doc with
  | nil =>
    cases segments with
    | nil => rfl
    | cons segment rest =>
      -- All matches at this node were below it, as a segment leads away from where it begins.
      rw [JsonValue.set, walk_leaf leaf, List.map_nil, eq_comm, List.filter_eq_nil_iff]
      intro other hm
      simpa [notBelow] using ne_nil_of_mem_walk hm
  | cons step route ih =>
    cases segments with
    | nil => rfl
    | cons segment rest =>
      have hstep : ∀ segments child, (step, child) ∈ doc.children →
          (walk segments (set value route child)).map Prod.fst =
            ((walk segments child).map Prod.fst).filter (notBelow route) := by
        intro segments child hm
        obtain ⟨-, below⟩ := keyed
        exact ih (below (step, child) hm) segments
      have hselect : ∀ child, (step, child) ∈ select segment.selector doc →
          (step, child) ∈ doc.children := by
        intro child hm
        rw [select_eq_filter keyed.here] at hm
        exact List.mem_of_mem_filter hm
      rw [JsonValue.set, walk_cons, walk_cons, List.map_append, List.map_append, List.filter_append,
        walkHere, walkHere, select_updateChild keyed.here, children_updateChild keyed.here,
        routes_findBelow_changed fun child hm => hstep rest child (hselect child hm)]
      congr 1
      split
      · exact routes_findBelow_changed (hstep (segment :: rest))
      · rfl

/-- What a path matches after a leaf is set in the document. -/
theorem find_set (leaf : value.children = []) (keyed : Everywhere Keyed doc) (path : String)
    (route : JsonRoute) :
    find path (set value route doc) = (find path doc).map (·.filter (notBelow route)) := by
  unfold find
  cases JsonPath.compile path with
  | error fault => rfl
  | ok segments =>
    simp only [Except.map, locate]
    split
    · rfl
    · rw [routes_walk_set leaf keyed]

end BuildAlign.JsonMatches

namespace BuildAlign.DocumentEdits
open JsonValue JsonMatches

variable {doc : JsonValue} {path : String} {route : JsonRoute}

private theorem find_of_locateJson (h : locateJson path doc = .ok (some route)) :
    ∃ later, find path doc = .ok (route :: later) := by
  rw [locateJson_eq] at h
  cases hf : find path doc with
  | error fault => rw [hf] at h; cases h
  | ok found =>
    rw [hf] at h
    obtain ⟨later, rfl⟩ := List.head?_eq_some_iff.1 (Except.ok.inj h)
    exact ⟨later, rfl⟩

theorem apply_some (h : locateJson path doc = .ok (some route))
    (document : Option String) (value : String) :
    jsonEditor.apply ⟨document, path, some value⟩ doc =
      .ok (set (.text (.ofString value)) route doc) := by
  obtain ⟨later, hf⟩ := find_of_locateJson h
  rw [apply_eq, hf]
  rfl

private theorem locateJson_set (keyed : Everywhere Keyed doc)
    (h : locateJson path doc = .ok (some route))
    (value : String) :
    locateJson path (set (.text (.ofString value)) route doc) = .ok (some route) := by
  obtain ⟨later, hf⟩ := find_of_locateJson h
  have leaf : (JsonValue.text (.ofString value)).children = [] := rfl
  rw [locateJson_eq, find_set leaf keyed, hf]
  simp only [Except.map, List.filter_cons_of_pos (notBelow_self route)]
  rfl

/-- A scalar has no nodes to match, so what is matched is in a container. -/
theorem editorFor_eq (keyed : Everywhere Keyed doc) (h : locateJson path doc = .ok (some route)) :
    editorFor doc = .ok jsonEditor := by
  obtain ⟨later, hf⟩ := find_of_locateJson h
  obtain ⟨hs, hne⟩ := exists_of_mem_find keyed hf List.mem_cons_self
  cases doc with
  | array items => rfl
  | object members => rfl
  | _ =>
    rw [get?_leaf rfl hne] at hs
    cases hs

/-- Where a path matches, setting a value makes the same match its first again, with the value at
it.  A value that is set afterwards replaces this one, and setting the same value again changes
nothing. -/
theorem setting_keeps_first_match (keyed : Everywhere Keyed doc)
    (matched : locateJson path doc = .ok (some route))
    (target later : Option String) (v w : String) :
    ∃ edited final,
      editorFor doc = .ok jsonEditor ∧ jsonEditor.apply ⟨target, path, some v⟩ doc = .ok edited ∧
      locateJson path edited = .ok (some route) ∧ valueAt path edited = .ok (.text (.ofString v)) ∧
      editorFor edited = .ok jsonEditor ∧
        jsonEditor.apply ⟨later, path, some w⟩ edited = .ok final ∧
      jsonEditor.apply ⟨later, path, some w⟩ doc = .ok final ∧ (v = w → final = edited) := by
  have again := locateJson_set keyed matched v
  have leaf : (JsonValue.text (.ofString v)).children = [] := rfl
  have hkeyed :=
    everywhere_apply lasting_keyed (fun _ => trivial) keyed (apply_some matched target v)
  have hs : (doc.get? route).isSome := by
    obtain ⟨_, hf⟩ := find_of_locateJson matched
    exact (exists_of_mem_find keyed hf List.mem_cons_self).1
  have hvalue : valueAt path (set (.text (.ofString v)) route doc) = .ok (.text (.ofString v)) := by
    simp only [valueAt, again, Option.bind_some, (replaced_set leaf hs).here]
  refine ⟨_, _, editorFor_eq keyed matched, apply_some matched target v, again, hvalue,
    editorFor_eq hkeyed again, apply_some again later w, ?_, ?_⟩
  · rw [set_set]
    exact apply_some matched later w
  · rintro rfl
    exact set_set _ _ route doc

/-- The first match is an array, and the matches in it go with it. -/
theorem setting_keeps_first_match_nested :
    Everywhere Keyed nested ∧ locateJson "$..*" nested = .ok (some [.key (.ofString "a")]) ∧
    ∃ edited final, jsonEditor.apply ⟨none, "$..*", some "x"⟩ nested = .ok edited ∧
      find "$..*" edited = .ok [[.key (.ofString "a")]] ∧
      valueAt "$..*" edited = .ok (.text (.ofString "x")) ∧
      jsonEditor.apply ⟨none, "$..*", some "y"⟩ edited = .ok final ∧
      jsonEditor.apply ⟨none, "$..*", some "y"⟩ nested = .ok final := by
  have matched : locateJson "$..*" nested = .ok (some [.key (.ofString "a")]) := by decide +kernel
  obtain ⟨edited, final, -, happly, -, hvalue, -, hagain, hdirect, -⟩ :=
    setting_keeps_first_match keyed_nested matched none none "x" "y"
  have hrun : (jsonEditor.apply ⟨none, "$..*", some "x"⟩ nested).toOption.map (find "$..*") =
      some (.ok [[.key (.ofString "a")]]) := by decide +kernel
  rw [happly] at hrun
  exact ⟨keyed_nested, matched, edited, final, happly, Option.some.inj hrun,
    hvalue, hagain, hdirect⟩

end BuildAlign.DocumentEdits
