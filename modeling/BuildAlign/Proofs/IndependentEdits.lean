import BuildAlign.Proofs.JsonPhase
import BuildAlign.Proofs.MatchesAfterSetting

/-! # Edits in either order

A path of names and numbers leads to one node at most.  Where two such nodes are neither above nor
below each other, setting one of them neither moves nor removes the other.  So each edit is made or
refused as it would be without the other, and which of them comes first cannot be seen in the
document. -/
namespace BuildAlign.JsonValue

variable {route other : JsonRoute}

private theorem updateMember_comm {name other : LooseText} (h : name ≠ other)
    (f g : JsonValue → JsonValue)
    (members : List (LooseText × JsonValue)) :
    updateMember name f (updateMember other g members) =
      updateMember other g (updateMember name f members) := by
  induction members with
  | nil => rfl
  | cons member members ih =>
    obtain ⟨k, v⟩ := member
    by_cases hk : k = name
    · subst hk
      simp [updateMember, h]
    · by_cases ho : k = other
      · simp [updateMember, ho, Ne.symm h]
      · simp [updateMember, hk, ho, ih]

private theorem updateChild_comm {step other : JsonStep} (h : step ≠ other)
    (f g : JsonValue → JsonValue)
    (doc : JsonValue) :
    updateChild f step (updateChild g other doc) =
      updateChild g other (updateChild f step doc) := by
  cases doc with
  | array items =>
    cases step with
    | key name => cases other <;> rfl
    | index i =>
      cases other with
      | key name => rfl
      | index j =>
        have hij : i ≠ j := fun he => h (congrArg JsonStep.index he)
        simp only [updateChild, List.modify_modify_ne g f items hij.symm]
  | object members =>
    cases step with
    | index i => cases other <;> rfl
    | key name =>
      cases other with
      | index j => rfl
      | key other =>
        have hne : name ≠ other := fun he => h (congrArg JsonStep.key he)
        simp only [updateChild, updateMember_comm hne]
  | _ => cases step <;> cases other <;> rfl

/-- Below their last common container, two nodes are changed independently of each other. -/
theorem modifyAt_comm (h : ¬ route <+: other) (h' : ¬ other <+: route) (f g : JsonValue → JsonValue)
    (doc : JsonValue) :
    modifyAt f route (modifyAt g other doc) = modifyAt g other (modifyAt f route doc) := by
  induction route generalizing other doc with
  | nil => exact absurd List.nil_prefix h
  | cons step route ih =>
    cases other with
    | nil => exact absurd List.nil_prefix h'
    | cons first other =>
      simp only [modifyAt]
      by_cases he : step = first
      · subst he
        rw [List.prefix_cons_inj] at h h'
        have hcomm : modifyAt f route ∘ modifyAt g other = modifyAt g other ∘ modifyAt f route :=
          funext (ih h h')
        rw [updateChild_updateChild, updateChild_updateChild, hcomm]
      · exact updateChild_comm he _ _ doc

end BuildAlign.JsonValue

namespace BuildAlign.JsonMatches
open JsonValue

variable {segment other : Segment} {step : JsonStep} {segments others : List Segment}
  {route route' : JsonRoute}

/-- A segment that selects one child of a node by its name or number. -/
structure Direct (segment : Segment) : Prop where
  here : segment.recursive = false
  single : segment.selector ≠ .wildcard

/-- The step that a direct segment takes. -/
inductive Takes : Segment → JsonStep → Prop
  | key (name : String) : Takes ⟨.key name, false⟩ (.key (.ofString name))
  | index (i : Nat) : Takes ⟨.index i, false⟩ (.index i)

private theorem Direct.exists_step (direct : Direct segment) : ∃ step, Takes segment step := by
  obtain ⟨selector, recursive⟩ := segment
  obtain ⟨rfl, single⟩ := direct
  cases selector with
  | key name => exact ⟨_, .key name⟩
  | index i => exact ⟨_, .index i⟩
  | wildcard => exact absurd rfl single

private theorem exists_route (direct : ∀ segment ∈ segments, Direct segment) :
    ∃ route, List.Forall₂ Takes segments route := by
  induction segments with
  | nil => exact ⟨[], .nil⟩
  | cons segment segments ih =>
    obtain ⟨step, hstep⟩ := (direct segment List.mem_cons_self).exists_step
    obtain ⟨route, hroute⟩ := ih fun segment hm => direct segment (List.mem_cons_of_mem _ hm)
    exact ⟨step :: route, .cons hstep hroute⟩

/-- Different segments take different steps. -/
theorem Takes.injective (h : Takes segment step) (h' : Takes other step) : segment = other := by
  generalize hs : step = same at h'
  cases h with
  | key name =>
    cases h' with
    | key name' => rw [LooseText.ofString_injective (JsonStep.key.inj hs)]
    | index j => cases hs
  | index i =>
    cases h' with
    | key name' => cases hs
    | index j => cases hs; rfl

/-- If a route goes on from another, so do the segments. -/
theorem prefix_of_routes (h : List.Forall₂ Takes segments route)
    (h' : List.Forall₂ Takes others route')
    (hp : route <+: route') : segments <+: others := by
  induction h generalizing others route' with
  | nil => exact List.nil_prefix
  | @cons segment step segments route hstep _ ih =>
    cases h' with
    | nil => exact absurd (List.prefix_nil.1 hp) (List.cons_ne_nil _ _)
    | @cons segment' step' others route' hstep' hroute' =>
      obtain ⟨rfl, below⟩ := List.cons_prefix_cons.1 hp
      obtain rfl := hstep.injective hstep'
      exact List.cons_prefix_cons.2 ⟨rfl, ih hroute' below⟩

private theorem select_takes (h : Takes segment step) (doc : JsonValue) :
    select segment.selector doc = ((doc.child? step).map fun child => (step, child)).toList := by
  cases h <;> rfl

private theorem scope_takes (h : Takes segment step) (doc : JsonValue) :
    scope segment.recursive doc = [([], doc)] := by
  cases h <;> rfl

/-- Direct segments lead to the node at the end of their steps, if it is there. -/
theorem firstRoute?_direct (h : List.Forall₂ Takes segments route) (doc : JsonValue) :
    firstRoute? segments doc = (doc.get? route).map fun _ => route := by
  induction h generalizing doc with
  | nil => rfl
  | @cons segment step segments route hstep _ ih =>
    rw [firstRoute?, scope_takes hstep, get?]
    simp only [List.findSome?_singleton, select_takes hstep]
    cases doc.child? step with
    | none => rfl
    | some child =>
      simp only [Option.map_some, Option.toList_some, List.findSome?_singleton, ih, List.nil_append,
        Option.map_map, Option.bind_some]
      rfl

end BuildAlign.JsonMatches

namespace BuildAlign.Editor

variable {δ : Type} {e : Editor δ} {edit next : DocumentEdit} {doc once twice : δ}

/-- Two edits that can be made one after the other are made as a batch. -/
theorem applyAll_pair (h : e.apply edit doc = .ok once) (h' : e.apply next once = .ok twice) :
    (e.applyAll [edit, next] doc).document = twice ∧ (e.applyAll [edit, next] doc).applied = 2 ∧
      (e.applyAll [edit, next] doc).failure = none := by
  simp only [applyAll, h, h']
  exact ⟨trivial, trivial, trivial⟩

end BuildAlign.Editor

namespace BuildAlign.DocumentEdits
open JsonValue JsonMatches BuildPass

variable {doc edited : JsonValue} {edit other : DocumentEdit} {segments others : List Segment}
  {route route' : JsonRoute} {value : String}

/-- An edit that sets a value, with the segments of its path, all of them direct. -/
structure SetsDirectly (edit : DocumentEdit) (segments : List Segment) : Prop where
  value : edit.value.isSome
  compiled : JsonPath.compile edit.path = .ok segments
  direct : ∀ segment ∈ segments, Direct segment

/-- An edit that sets a value at a route, and finds nothing where the route leads nowhere. -/
def SetsAt (edit : DocumentEdit) (route : JsonRoute) (value : String) : Prop :=
  ∀ doc, jsonEditor.apply edit doc =
    if (doc.get? route).isSome then .ok (set (.text (.ofString value)) route doc)
    else .error (.notFound edit.document edit.path)

/-- A direct path that is not empty is looked up as a route. -/
theorem locateJson_direct {path : String}
    (hc : JsonPath.compile path = .ok segments) (hne : segments ≠ [])
    (hs : List.Forall₂ Takes segments route) (doc : JsonValue) :
    locateJson path doc = .ok ((doc.get? route).map fun _ => route) := by
  simp only [locateJson, hc, first?, if_neg hne, firstRoute?_direct hs]

private theorem SetsDirectly.exists_setsAt (h : SetsDirectly edit segments) (hne : segments ≠ []) :
    ∃ route value, List.Forall₂ Takes segments route ∧ SetsAt edit route value := by
  obtain ⟨route, hr⟩ := exists_route h.direct
  obtain ⟨target, path, text⟩ := edit
  obtain ⟨value, rfl⟩ := Option.isSome_iff_exists.1 h.value
  refine ⟨route, value, hr, fun doc => ?_⟩
  have hl := locateJson_direct h.compiled hne hr doc
  cases hn : doc.get? route with
  | none =>
    rw [hn] at hl
    have located : jsonEditor.locate path doc = .ok none := hl
    rw [Editor.apply, located]
    rfl
  | some node =>
    rw [hn] at hl
    exact apply_some hl target value

theorem SetsAt.isOk (h : SetsAt edit route value) (doc : JsonValue) :
    (jsonEditor.apply edit doc).isOk = (doc.get? route).isSome := by
  rw [h doc]
  cases (doc.get? route).isSome <;> rfl

private theorem SetsAt.of_made (h : SetsAt edit route value)
    (hm : jsonEditor.apply edit doc = .ok edited) :
    edited = set (.text (.ofString value)) route doc := by
  rw [h doc] at hm
  split at hm
  · exact (Except.ok.inj hm).symm
  · cases hm

section Apart

variable {edit other : DocumentEdit} {route route' : JsonRoute} {value value' : String}

private theorem get?_set_apart (h : ¬ route <+: route') (h' : ¬ route' <+: route)
    (value doc : JsonValue) :
    (set value route doc).get? route' = doc.get? route' := by
  rw [set_eq_modifyAt]
  exact get?_modifyAt_apart _ doc h h'

/-- An edit is made in the document just if it is made after one elsewhere. -/
theorem SetsAt.isOk_after (h : SetsAt edit route value) (h' : SetsAt other route' value')
    (apart : ¬ route <+: route') (apart' : ¬ route' <+: route)
    (first : jsonEditor.apply other doc = .ok edited) :
    (jsonEditor.apply edit edited).isOk = (jsonEditor.apply edit doc).isOk := by
  rw [h'.of_made first, h.isOk, h.isOk, get?_set_apart apart' apart]

/-- If both edits are made in the document, the second is made after the first. -/
theorem SetsAt.applyAll_both (h : SetsAt edit route value) (h' : SetsAt other route' value')
    (apart : ¬ route <+: route') (apart' : ¬ route' <+: route) (hs : (doc.get? route).isSome)
    (hs' : (doc.get? route').isSome) :
    (jsonEditor.applyAll [edit, other] doc).document =
        set (.text (.ofString value')) route' (set (.text (.ofString value)) route doc) ∧
      (jsonEditor.applyAll [edit, other] doc).applied = 2 ∧
      (jsonEditor.applyAll [edit, other] doc).failure = none := by
  refine Editor.applyAll_pair ((h doc).trans (if_pos hs)) ((h' _).trans (if_pos ?_))
  rwa [get?_set_apart apart apart']

end Apart

/-- Two edits that set values at places of which neither lies in the other one leave a container as
an editor takes it.  Each of them is made in the document just if it is made after the other one,
and if both are made, their order makes no difference to what they leave. -/
theorem independent_edits_commute (container : scalarKind? doc = none)
    (sets : SetsDirectly edit segments)
    (others_set : SetsDirectly other others) (apart : ¬ segments <+: others)
    (apart' : ¬ others <+: segments) :
    editorFor doc = .ok jsonEditor ∧
    (∀ edited, jsonEditor.apply other doc = .ok edited → editorFor edited = .ok jsonEditor ∧
      (jsonEditor.apply edit edited).isOk = (jsonEditor.apply edit doc).isOk) ∧
    (∀ edited, jsonEditor.apply edit doc = .ok edited → editorFor edited = .ok jsonEditor ∧
      (jsonEditor.apply other edited).isOk = (jsonEditor.apply other doc).isOk) ∧
    ((jsonEditor.apply edit doc).isOk → (jsonEditor.apply other doc).isOk →
      (jsonEditor.applyAll [edit, other] doc).failure = none ∧
      (jsonEditor.applyAll [edit, other] doc).applied = 2 ∧
      (jsonEditor.applyAll [other, edit] doc).failure = none ∧
      (jsonEditor.applyAll [other, edit] doc).applied = 2 ∧
      (jsonEditor.applyAll [edit, other] doc).document =
        (jsonEditor.applyAll [other, edit] doc).document) := by
  have hne : segments ≠ [] := by
    rintro rfl
    exact apart List.nil_prefix
  have hne' : others ≠ [] := by
    rintro rfl
    exact apart' List.nil_prefix
  obtain ⟨route, value, hr, hset⟩ := sets.exists_setsAt hne
  obtain ⟨route', value', hr', hset'⟩ := others_set.exists_setsAt hne'
  have routes_apart : ¬ route <+: route' := fun hp => apart (prefix_of_routes hr hr' hp)
  have routes_apart' : ¬ route' <+: route := fun hp => apart' (prefix_of_routes hr' hr hp)
  refine ⟨editorFor_container container, fun edited h => ⟨?_, ?_⟩,
    fun edited h => ⟨?_, ?_⟩, fun h h' => ?_⟩
  · exact editorFor_container ((scalarKind?_apply h).trans container)
  · exact hset.isOk_after hset' routes_apart routes_apart' h
  · exact editorFor_container ((scalarKind?_apply h).trans container)
  · exact hset'.isOk_after hset routes_apart' routes_apart h
  · rw [hset.isOk] at h
    rw [hset'.isOk] at h'
    obtain ⟨left, applied, ends⟩ := hset.applyAll_both hset' routes_apart routes_apart' h h'
    obtain ⟨left', applied', ends'⟩ := hset'.applyAll_both hset routes_apart' routes_apart h' h
    refine ⟨ends, applied, ends', applied', ?_⟩
    rw [left, left', set_eq_modifyAt, set_eq_modifyAt, set_eq_modifyAt, set_eq_modifyAt]
    exact modifyAt_comm routes_apart' routes_apart _ _ doc

/-- Two places in one array: a member of its first item, and its second item. -/
theorem independent_edits_commute_nested :
    SetsDirectly ⟨none, "$.a[0].b", some "x"⟩
      [⟨.key "a", false⟩, ⟨.index 0, false⟩, ⟨.key "b", false⟩] ∧
    SetsDirectly ⟨none, "$['a'][1]", some "y"⟩ [⟨.key "a", false⟩, ⟨.index 1, false⟩] ∧
    (jsonEditor.applyAll [⟨none, "$.a[0].b", some "x"⟩,
      ⟨none, "$['a'][1]", some "y"⟩] nested).document =
      (jsonEditor.applyAll [⟨none, "$['a'][1]", some "y"⟩, ⟨none, "$.a[0].b", some "x"⟩]
        nested).document := by
  have sets : SetsDirectly ⟨none, "$.a[0].b", some "x"⟩
      [⟨.key "a", false⟩, ⟨.index 0, false⟩, ⟨.key "b", false⟩] := by
    refine ⟨rfl, by decide +kernel, ?_⟩
    simp only [List.forall_mem_cons, List.not_mem_nil, false_implies, implies_true, and_true]
    exact ⟨⟨rfl, nofun⟩, ⟨rfl, nofun⟩, ⟨rfl, nofun⟩⟩
  have others_set :
      SetsDirectly ⟨none, "$['a'][1]", some "y"⟩ [⟨.key "a", false⟩, ⟨.index 1, false⟩] := by
    refine ⟨rfl, by decide +kernel, ?_⟩
    simp only [List.forall_mem_cons, List.not_mem_nil, false_implies, implies_true, and_true]
    exact ⟨⟨rfl, nofun⟩, ⟨rfl, nofun⟩⟩
  have container : scalarKind? nested = none := rfl
  obtain ⟨-, -, -, both⟩ :=
    independent_edits_commute container sets others_set (by decide) (by decide)
  obtain ⟨-, -, -, -, same⟩ := both (by decide +kernel) (by decide +kernel)
  exact ⟨sets, others_set, same⟩

end BuildAlign.DocumentEdits
