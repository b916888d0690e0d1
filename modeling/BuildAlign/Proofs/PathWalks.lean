import BuildAlign.Proofs.JsonDocuments
import BuildAlign.Proofs.OrderedMapLookup
import Mathlib.Data.List.Nodup

/-! # One step of a walk

A path matches below a child what it selects there.  So the walk of a path is one list of matches
for each child that the first segment selects and, if that segment is recursive, one for each child
at all.  Where the members of objects have different names, a step leads to one child only. -/
namespace BuildAlign.JsonValue

/-- What is found in children, with the steps to them in front. -/
def findBelow (found : JsonValue → List (JsonRoute × JsonValue))
    (children : List (JsonStep × JsonValue)) :
    List (JsonRoute × JsonValue) :=
  children.flatMap fun (step, child) => (found child).map fun (route, node) => (step :: route, node)

variable {found : JsonValue → List (JsonRoute × JsonValue)} {children : List (JsonStep × JsonValue)}
  {doc : JsonValue}

private theorem findBelow_cons (found : JsonValue → List (JsonRoute × JsonValue))
    (step : JsonStep) (child : JsonValue)
    (children : List (JsonStep × JsonValue)) :
    findBelow found ((step, child) :: children) =
      (found child).map (fun (route, node) => (step :: route, node)) ++
        findBelow found children := rfl

/-- The routes that are found, by the children they go through. -/
theorem routes_findBelow (found : JsonValue → List (JsonRoute × JsonValue))
    (children : List (JsonStep × JsonValue)) :
    (findBelow found children).map Prod.fst =
      children.flatMap fun (step, child) => ((found child).map Prod.fst).map (step :: ·) := by
  simp only [findBelow, List.map_flatMap, List.map_map]
  rfl

theorem ne_nil_of_mem_findBelow {route : JsonRoute}
    (h : route ∈ (findBelow found children).map Prod.fst) :
    route ≠ [] := by
  rintro rfl
  simp [routes_findBelow] at h

private theorem itemNodes_eq (i : Nat) (items : List JsonValue) :
    itemNodes i items =
      findBelow nodes ((items.zipIdx i).map fun (item, i) => (.index i, item)) := by
  induction items generalizing i with
  | nil => simp [itemNodes, findBelow]
  | cons item items ih =>
    rw [List.zipIdx_cons, List.map_cons, findBelow_cons, ← ih, itemNodes]

private theorem memberNodes_eq (members : List (LooseText × JsonValue)) :
    memberNodes members =
      findBelow nodes (members.map fun (name, value) => (.key name, value)) := by
  induction members with
  | nil => simp [memberNodes, findBelow]
  | cons member members ih =>
    obtain ⟨name, value⟩ := member
    rw [List.map_cons, findBelow_cons, ← ih, memberNodes]

theorem nodes_eq (doc : JsonValue) : doc.nodes = ([], doc) :: findBelow nodes doc.children := by
  cases doc with
  | array items => rw [nodes, itemNodes_eq]; rfl
  | object members => rw [nodes, memberNodes_eq]; rfl
  | _ => rw [nodes] <;> simp [children, findBelow]

section Steps

private theorem find_indexed (items : List JsonValue) (i j : Nat) :
    OrderedMap.find (.index j) ((items.zipIdx i).map fun (item, i) => (JsonStep.index i, item)) =
      if j < i then none else items[j - i]? := by
  induction items generalizing i with
  | nil => simp [OrderedMap.find]
  | cons item items ih =>
    rw [List.zipIdx_cons, List.map_cons, OrderedMap.find, ih]
    obtain h | rfl | h := Nat.lt_trichotomy j i
    · simp [h, Nat.lt_succ_of_lt h, Nat.ne_of_gt h]
    · simp
    · obtain ⟨k, rfl⟩ := Nat.exists_eq_add_of_lt h
      have hn : ¬ i + k + 1 < i + 1 := by omega
      have hs : i + k + 1 - (i + 1) = k := by omega
      have he : i + k + 1 - i = k + 1 := by omega
      simp [hn, hs, he, Nat.ne_of_lt h, Nat.not_lt_of_gt h]

private theorem find_named (members : List (LooseText × JsonValue)) (name : LooseText) :
    OrderedMap.find (.key name) (members.map fun (name, value) => (JsonStep.key name, value)) =
      OrderedMap.find name members := by
  induction members with
  | nil => rfl
  | cons member members ih =>
    obtain ⟨other, value⟩ := member
    by_cases h : other = name <;> simp [OrderedMap.find, h, ih]

/-- A step leads to the first child that has it. -/
theorem find_children (doc : JsonValue) (step : JsonStep) :
    OrderedMap.find step doc.children = doc.child? step := by
  cases doc with
  | array items =>
    cases step with
    | index j => simpa [children, child?] using find_indexed items 0 j
    | key name => exact OrderedMap.find_of_notMem (by simp [children])
  | object members =>
    cases step with
    | key name => exact find_named members name
    | index j => exact OrderedMap.find_of_notMem (by simp [children])
  | _ => rfl

/-- Different children have different steps. -/
theorem nodup_children (keyed : Keyed doc) : (doc.children.map Prod.fst).Nodup := by
  cases doc with
  | array items =>
    have hs : (JsonValue.array items).children.map Prod.fst =
        (items.zipIdx.map Prod.snd).map JsonStep.index := by
      simp only [children, List.map_map]
      rfl
    rw [hs, List.zipIdx_map_snd]
    exact (List.nodup_range' 1).map fun _ _ => JsonStep.index.inj
  | object members =>
    have hs : (JsonValue.object members).children.map Prod.fst =
        (members.map Prod.fst).map JsonStep.key := by
      simp only [children, List.map_map]
      rfl
    rw [hs]
    exact List.Nodup.map (fun _ _ => JsonStep.key.inj) keyed
  | _ => exact List.nodup_nil

theorem Everywhere.here {good : JsonValue → Prop} (h : Everywhere good doc) : good doc := by
  obtain ⟨here, -⟩ := h
  exact here

theorem Everywhere.child {good : JsonValue → Prop} (h : Everywhere good doc) {step : JsonStep}
    {child : JsonValue} (hc : doc.child? step = some child) : Everywhere good child := by
  rw [← find_children] at hc
  obtain ⟨-, rest⟩ := h
  exact rest (step, child) (OrderedMap.mem_of_find hc)

end Steps

end BuildAlign.JsonValue

namespace BuildAlign.JsonMatches
open JsonValue

variable {doc : JsonValue} {selector : Selector}

/-- Whether a selector selects the child at a step, if there is one. -/
def picks : Selector → JsonStep → Bool
  | .key name, step => step = .key (.ofString name)
  | .index i, step => step = .index i
  | .wildcard, _ => true

/-- A selector selects the children at the steps that it picks, in their order. -/
theorem select_eq_filter (keyed : Keyed doc) (selector : Selector) :
    select selector doc = doc.children.filter fun (step, _) => picks selector step := by
  have single : ∀ step, ((doc.child? step).map fun child => (step, child)).toList =
      doc.children.filter fun (other, _) => decide (other = step) := by
    intro step
    rw [← find_children, OrderedMap.filter_eq_find (nodup_children keyed)]
  cases selector with
  | key name => exact single (.key (.ofString name))
  | index i => exact single (.index i)
  | wildcard => simp [select, picks]

theorem nodup_select (keyed : Keyed doc) (selector : Selector) :
    ((select selector doc).map Prod.fst).Nodup := by
  rw [select_eq_filter keyed]
  exact (nodup_children keyed).sublist (List.filter_sublist.map _)

theorem find_select (keyed : Keyed doc) (selector : Selector) (step : JsonStep) :
    OrderedMap.find step (select selector doc) =
      if picks selector step then doc.child? step else none := by
  rw [select_eq_filter keyed, OrderedMap.find_filter, find_children]

/-- The matches of a path whose first segment is not looked for further below. -/
def walkHere (selector : Selector) (rest : List Segment) (doc : JsonValue) :
    List (JsonRoute × JsonValue) :=
  findBelow (walk rest) (select selector doc)

private theorem walk_eq_scope (segment : Segment) (rest : List Segment) (doc : JsonValue) :
    walk (segment :: rest) doc =
      (scope segment.recursive doc).flatMap fun (above, node) =>
        (walkHere segment.selector rest node).map fun (route, found) =>
          (above ++ route, found) := by
  simp only [walk, walkHere, findBelow, List.map_flatMap, List.map_map]
  rfl

/-- The first segment selects here or, if it is recursive, below any child. -/
theorem walk_cons (segment : Segment) (rest : List Segment) (doc : JsonValue) :
    walk (segment :: rest) doc =
      walkHere segment.selector rest doc ++
        if segment.recursive then findBelow (walk (segment :: rest)) doc.children else [] := by
  rw [walk_eq_scope]
  cases hs : segment.recursive with
  | false => simp [scope]
  | true =>
    have deeper : ∀ step child,
        ((walk (segment :: rest) child).map fun (route, found) => (step :: route, found)) =
          (child.nodes.map fun (route, node) => (step :: route, node)).flatMap fun (above, node) =>
            (walkHere segment.selector rest node).map fun (route, found) =>
              (above ++ route, found) := by
      intro step child
      simp only [walk_eq_scope, hs, scope, List.map_flatMap, List.flatMap_map, List.map_map]
      rfl
    simp only [scope, if_true, nodes_eq doc, List.flatMap_cons, findBelow,
      deeper, List.flatMap_assoc]
    simp

/-- A segment leads away from where the walk begins. -/
theorem ne_nil_of_mem_walk {segment : Segment} {rest : List Segment} {route : JsonRoute}
    (h : route ∈ (walk (segment :: rest) doc).map Prod.fst) : route ≠ [] := by
  rw [walk_cons, List.map_append, List.mem_append] at h
  rcases h with h | h
  · exact ne_nil_of_mem_findBelow h
  · split at h
    · exact ne_nil_of_mem_findBelow h
    · cases h

end BuildAlign.JsonMatches
