import BuildAlign.JsonPath
import BuildAlign.JsonValue

/-! # Nodes that a path matches

A recursive segment picks among the children of a node before it goes on to the nodes below them, so
a match that lies behind another one in the document can come before it.  A node that is reached in
several ways by recursive segments is matched once for each of them. -/
namespace BuildAlign.JsonMatches

/-- The children that a selector picks. -/
def select (selector : Selector) (doc : JsonValue) : List (JsonStep × JsonValue) :=
  match selector with
  | .key name =>
    let step := JsonStep.key (.ofString name)
    ((doc.child? step).map fun v => (step, v)).toList
  | .index i => ((doc.child? (.index i)).map fun v => (.index i, v)).toList
  | .wildcard => doc.children

/-- Where a segment selects: at the node, or at every node of its subtree. -/
def scope (recursive : Bool) (doc : JsonValue) : List (JsonRoute × JsonValue) :=
  if recursive then doc.nodes else [([], doc)]

/-- The routes that the segments lead along, with the nodes at their ends. -/
def walk : List Segment → JsonValue → List (JsonRoute × JsonValue)
  | [], doc => [([], doc)]
  | segment :: rest, doc =>
    (scope segment.recursive doc).flatMap fun (above, node) =>
      (select segment.selector node).flatMap fun (step, child) =>
        (walk rest child).map fun (below, found) => (above ++ step :: below, found)

/-- The matches of a path.  The bare root is in no container and is not matched. -/
def locate (segments : List Segment) (doc : JsonValue) : List JsonRoute :=
  if segments = [] then [] else (walk segments doc).map Prod.fst

/-- The matches of a path as it is written. -/
def find (path : String) (doc : JsonValue) : Except JsonPathError (List JsonRoute) :=
  (JsonPath.compile path).map (locate · doc)

/-- The route of the first match, without looking for any other. -/
def firstRoute? : List Segment → JsonValue → Option JsonRoute
  | [], _ => some []
  | segment :: rest, doc =>
    (scope segment.recursive doc).findSome? fun (above, node) =>
      (select segment.selector node).findSome? fun (step, child) =>
        (firstRoute? rest child).map fun below => above ++ step :: below

def first? (segments : List Segment) (doc : JsonValue) : Option JsonRoute :=
  if segments = [] then none else firstRoute? segments doc

private theorem firstRoute?_eq_head? (segments : List Segment) (doc : JsonValue) :
    firstRoute? segments doc = (walk segments doc).head?.map Prod.fst := by
  induction segments generalizing doc with
  | nil => rfl
  | cons segment rest ih =>
    simp only [firstRoute?, walk, List.head?_flatMap, List.map_findSome?, ih]
    congr 1; funext ⟨above, node⟩
    simp only [Function.comp_def, List.map_findSome?, List.head?_map, Option.map_map]

theorem first?_eq_head? (segments : List Segment) (doc : JsonValue) :
    first? segments doc = (locate segments doc).head? := by
  by_cases h : segments = []
  · simp [first?, locate, h]
  · simp [first?, locate, h, firstRoute?_eq_head?]

end BuildAlign.JsonMatches
