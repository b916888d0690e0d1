import BuildAlign.Proofs.NodeEdits
import BuildAlign.Proofs.PathGrammar

/-! # Matches of paths written one behind the other

A walk returns nodes of the document with the routes to them, and nothing else.  A path that is
written behind another one goes on from there: its matches below the first match of the other come
first, then those below the second, and so on. -/
namespace BuildAlign.JsonValue

variable {doc node : JsonValue} {route : JsonRoute}

theorem mem_children (keyed : Keyed doc) {step : JsonStep} {child : JsonValue} :
    (step, child) ∈ doc.children ↔ doc.child? step = some child := by
  rw [← find_children]
  exact (OrderedMap.find_eq_some_iff (nodup_children keyed)).symm

theorem cons_mem_findBelow {found : JsonValue → List (JsonRoute × JsonValue)}
    {children : List (JsonStep × JsonValue)} {step : JsonStep} :
    (step :: route, node) ∈ findBelow found children ↔
      ∃ child, (step, child) ∈ children ∧ (route, node) ∈ found child := by
  constructor
  · intro h
    obtain ⟨⟨_, child⟩, hc, h⟩ := List.mem_flatMap.1 h
    obtain ⟨_, hf, he⟩ := List.mem_map.1 h
    cases he
    exact ⟨child, hc, hf⟩
  · rintro ⟨child, hc, hf⟩
    exact List.mem_flatMap.2 ⟨(step, child), hc, List.mem_map.2 ⟨(route, node), hf, rfl⟩⟩

private theorem mem_nodes (keyed : Everywhere Keyed doc) :
    (route, node) ∈ doc.nodes ↔ doc.get? route = some node := by
  rw [nodes_eq, List.mem_cons]
  induction route generalizing doc with
  | nil =>
    have hb : ([], node) ∉ findBelow nodes doc.children := fun h =>
      ne_nil_of_mem_findBelow (List.mem_map_of_mem h) rfl
    simp [get?, hb, eq_comm]
  | cons step route ih =>
    rw [cons_mem_findBelow, get?, Option.bind_eq_some_iff, or_iff_right (by simp)]
    refine exists_congr fun child => ?_
    rw [mem_children keyed.here, nodes_eq, List.mem_cons]
    exact and_congr_right fun hc => ih (keyed.child hc)

end BuildAlign.JsonValue

namespace BuildAlign.JsonMatches
open JsonValue

variable {doc node : JsonValue} {route : JsonRoute} {segments first later : List Segment}

section Nodes

theorem mem_select (keyed : Keyed doc) {selector : Selector} {step : JsonStep} {child : JsonValue} :
    (step, child) ∈ select selector doc ↔
      doc.child? step = some child ∧ picks selector step = true := by
  rw [select_eq_filter keyed, List.mem_filter, mem_children keyed]

theorem mem_scope (keyed : Everywhere Keyed doc) {recursive : Bool} :
    (route, node) ∈ scope recursive doc ↔
      doc.get? route = some node ∧ (recursive = false → route = []) := by
  cases recursive with
  | false =>
    constructor
    · intro h
      cases List.mem_singleton.1 h
      exact ⟨rfl, fun _ => rfl⟩
    · rintro ⟨h, hn⟩
      cases hn rfl
      cases h
      exact List.mem_singleton.2 rfl
  | true => simp [scope, mem_nodes keyed]

/-- A walk leads along the routes of the document to the nodes at their ends. -/
theorem get?_of_mem_walk (keyed : Everywhere Keyed doc) (h : (route, node) ∈ walk segments doc) :
    doc.get? route = some node := by
  induction segments generalizing doc route with
  | nil =>
    cases List.mem_singleton.1 h
    rfl
  | cons segment rest ih =>
    obtain ⟨⟨above, mid⟩, hscope, h⟩ := List.mem_flatMap.1 h
    obtain ⟨⟨step, child⟩, hselect, h⟩ := List.mem_flatMap.1 h
    obtain ⟨⟨below, _⟩, hwalk, he⟩ := List.mem_map.1 h
    cases he
    have hmid := ((mem_scope keyed).1 hscope).1
    have kmid := keyed.of_get? hmid
    have hchild := ((mem_select kmid.here).1 hselect).1
    rw [get?_append, hmid, Option.bind_some, get?, hchild, Option.bind_some]
    exact ih (kmid.child hchild) hwalk

end Nodes

/-- Behind other segments, a walk goes on from each node that those lead to. -/
theorem walk_append (first later : List Segment) (doc : JsonValue) :
    walk (first ++ later) doc = (walk first doc).flatMap fun (above, node) =>
      (walk later node).map fun (below, found) => (above ++ below, found) := by
  induction first generalizing doc with
  | nil => simp [walk]
  | cons segment rest ih =>
    simp only [List.cons_append, walk, ih, List.flatMap_assoc, List.map_flatMap,
      List.flatMap_map, List.map_map]
    simp [Function.comp_def]

section Paths

variable {path more : String}

theorem find_eq_walk (compiled : JsonPath.compile path = .ok segments)
    (ne : segments ≠ []) (doc : JsonValue) :
    find path doc = .ok ((walk segments doc).map Prod.fst) := by
  rw [find, compiled]
  simp only [Except.map, locate, if_neg ne]

/-- The matches of a path below the node at a route, with that route in front. -/
def MatchesBelow (path : String) (doc : JsonValue) (route : JsonRoute)
    (part : List JsonRoute) : Prop :=
  ∃ node below, doc.get? route = some node ∧ find path node = .ok below ∧
    part = below.map (route ++ ·)

/-- The matches of a path behind another one are the matches of the one below each match of the
other, one after the other and none left out. -/
theorem matches_of_joined_paths
    (compiled : JsonPath.compile ("$" ++ path) = .ok first) (ne : first ≠ [])
    (compiled_more : JsonPath.compile ("$" ++ more) = .ok later) (ne_more : later ≠ [])
    (keyed : Everywhere Keyed doc) :
    ∃ found parts, find ("$" ++ path) doc = .ok found ∧
      List.Forall₂ (MatchesBelow ("$" ++ more) doc) found parts ∧
      find ("$" ++ path ++ more) doc = .ok parts.flatten := by
  have joined : JsonPath.compile ("$" ++ path ++ more) = .ok (first ++ later) := by
    rw [JsonPath.compile_root] at compiled compiled_more
    rw [String.append_assoc, JsonPath.compile_root, String.toList_append]
    exact JsonPath.segments_append compiled compiled_more
  refine ⟨(walk first doc).map Prod.fst,
    (walk first doc).map fun (above, node) => ((walk later node).map Prod.fst).map (above ++ ·),
    find_eq_walk compiled ne doc, ?_, ?_⟩
  · refine List.forall₂_map_left_iff.2 (List.forall₂_map_right_iff.2 (List.forall₂_same.2 ?_))
    rintro ⟨above, node⟩ hm
    exact ⟨node, _, get?_of_mem_walk keyed hm, find_eq_walk compiled_more ne_more node, rfl⟩
  · rw [find_eq_walk joined (List.append_ne_nil_of_left_ne_nil ne later),
      walk_append, List.map_flatMap,
      ← List.flatMap_def]
    simp only [List.map_map]
    rfl

/-- The member is below two of the matches of the first path, and so it is matched twice. -/
theorem matches_of_joined_paths_nested :
    JsonPath.compile "$..*" = .ok [⟨.wildcard, true⟩] ∧
      JsonPath.compile "$..b" = .ok [⟨.key "b", true⟩] ∧
    ∃ found parts, find "$..*" nested = .ok found ∧
      List.Forall₂ (MatchesBelow "$..b" nested) found parts ∧
      parts.flatten = [[.key (.ofString "a"), .index 0, .key (.ofString "b")],
        [.key (.ofString "a"), .index 0, .key (.ofString "b")]] := by
  have compiled : JsonPath.compile ("$" ++ "..*") = .ok [⟨.wildcard, true⟩] := by decide +kernel
  have compiled_more : JsonPath.compile ("$" ++ "..b") = .ok [⟨.key "b", true⟩] := by decide +kernel
  obtain ⟨found, parts, hf, hp, hj⟩ :=
    matches_of_joined_paths compiled (List.cons_ne_nil _ _) compiled_more
    (List.cons_ne_nil _ _) keyed_nested
  have hrun : find "$..*..b" nested = .ok [[.key (.ofString "a"), .index 0, .key (.ofString "b")],
      [.key (.ofString "a"), .index 0, .key (.ofString "b")]] := by decide +kernel
  exact ⟨compiled, compiled_more, found, parts, hf, hp, Except.ok.inj (hj.symm.trans hrun)⟩

end Paths

end BuildAlign.JsonMatches
