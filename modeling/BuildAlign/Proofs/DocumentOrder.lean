import BuildAlign.Proofs.MatchComposition

/-! # The order of matches

In the order of a document a node comes before all that is below it, and that before the next node
beside it.  A recursive segment visits nodes in this order, but picks among the children of one node
before it goes on to the nodes below them.  So matches come in the order of their readings, compared
piece by piece from the front, and this is the order of the document for few recursive paths
only. -/
namespace BuildAlign.JsonValue

variable {doc child : JsonValue} {step step' : JsonStep} {route route' : JsonRoute}

/-- One of two children comes before the other. -/
def Precedes (doc : JsonValue) (step step' : JsonStep) : Prop :=
  [step, step'].Sublist (doc.children.map Prod.fst)

/-- The order of the nodes of a document, by the routes to them. -/
inductive Before : JsonValue → JsonRoute → JsonRoute → Prop
  | above (doc : JsonValue) (step : JsonStep) (route : JsonRoute) : Before doc [] (step :: route)
  | beside {doc : JsonValue} {step step' : JsonStep} (h : Precedes doc step step')
    (route route' : JsonRoute) :
    Before doc (step :: route) (step' :: route')
  | inside {doc child : JsonValue} {step : JsonStep} {route route' : JsonRoute}
    (hc : doc.child? step = some child) (h : Before child route route') :
    Before doc (step :: route) (step :: route')

/-- Routes in the order of the document, equal ones side by side. -/
def InOrder (doc : JsonValue) (routes : List JsonRoute) : Prop :=
  routes.Pairwise fun route route' => route = route' ∨ Before doc route route'

section Order

private theorem not_sublist_swap {l : List JsonStep} (nodup : l.Nodup)
    (h : [step, step'].Sublist l) :
    ¬ [step', step].Sublist l := by
  induction l with
  | nil => cases h
  | cons first l ih =>
    obtain ⟨hfirst, nodup⟩ := List.nodup_cons.1 nodup
    intro h'
    cases h with
    | cons _ h =>
      cases h' with
      | cons _ h' => exact ih nodup h h'
      | cons_cons _ h' => exact hfirst (h.subset (by simp))
    | cons_cons _ h =>
      cases h' with
      | cons _ h' => exact hfirst (h'.subset (by simp))
      | cons_cons _ h' => exact hfirst (h.subset (by simp))

private theorem Precedes.asymm (keyed : Keyed doc) (h : Precedes doc step step') :
    ¬ Precedes doc step' step :=
  not_sublist_swap (nodup_children keyed) h

theorem Precedes.ne (keyed : Keyed doc) (h : Precedes doc step step') : step ≠ step' := by
  rintro rfl
  exact h.asymm keyed h

private theorem Before.asymm (keyed : Everywhere Keyed doc) (h : Before doc route route') :
    ¬ Before doc route' route := by
  induction h with
  | above => nofun
  | beside h route route' =>
    intro h'
    cases h' with
    | beside h' => exact h.asymm keyed.here h'
    | inside => exact h.ne keyed.here rfl
  | inside hc h ih =>
    intro h'
    cases h' with
    | beside h' => exact h'.ne keyed.here rfl
    | inside hc' h' =>
      cases hc.symm.trans hc'
      exact ih (keyed.child hc) h'

theorem Before.ne (keyed : Everywhere Keyed doc) (h : Before doc route route') :
    route ≠ route' := by
  rintro rfl
  exact h.asymm keyed h

/-- A later route that comes before an earlier one in the document. -/
theorem not_inOrder_append (keyed : Everywhere Keyed doc)
    {routes routes' : List JsonRoute} (hr : route ∈ routes)
    (hr' : route' ∈ routes') (h : Before doc route' route) : ¬ InOrder doc (routes ++ routes') := by
  intro ho
  rcases (List.pairwise_append.1 ho).2.2 route hr route' hr' with rfl | h'
  · exact h.ne keyed rfl
  · exact h.asymm keyed h'

theorem inOrder_of_pairwise {routes : List JsonRoute} (h : routes.Pairwise (Before doc)) :
    InOrder doc routes :=
  h.imp .inr

/-- What is found in order below each child is found in order below all of them. -/
theorem pairwise_findBelow {found : JsonValue → List (JsonRoute × JsonValue)}
    {children : List (JsonStep × JsonValue)} (keyed : Keyed doc)
    (hs : children.Sublist doc.children)
    (h : ∀ step child, (step, child) ∈ doc.children →
      ((found child).map Prod.fst).Pairwise (Before child)) :
    ((findBelow found children).map Prod.fst).Pairwise (Before doc) := by
  rw [routes_findBelow, List.pairwise_flatMap]
  constructor
  · rintro ⟨step, child⟩ hm
    have hc := hs.subset hm
    exact List.pairwise_map.2
      ((h step child hc).imp fun hb => .inside ((mem_children keyed).1 hc) hb)
  · refine List.pairwise_iff_forall_sublist.2 ?_
    rintro ⟨step, child⟩ ⟨step', child'⟩ hp
    have hp' : Precedes doc step step' := (hp.trans hs).map Prod.fst
    intro route hr route' hr'
    obtain ⟨below, -, rfl⟩ := List.mem_map.1 hr
    obtain ⟨below', -, rfl⟩ := List.mem_map.1 hr'
    exact .beside hp' below below'

/-- All nodes come in the order of the document. -/
theorem pairwise_nodes (keyed : Everywhere Keyed doc) :
    (doc.nodes.map Prod.fst).Pairwise (Before doc) := by
  induction keyed with
  | @node doc here below ih =>
    rw [nodes_eq, List.map_cons, List.pairwise_cons]
    refine ⟨fun route hr => ?_,
      pairwise_findBelow here (List.Sublist.refl _) fun step child hc => ih _ hc⟩
    obtain ⟨step, route, rfl⟩ := List.exists_cons_of_ne_nil (ne_nil_of_mem_findBelow hr)
    exact .above doc step route

end Order
end BuildAlign.JsonValue

namespace BuildAlign.JsonMatches
open JsonValue

variable {doc : JsonValue} {segments rest : List Segment} {path : String}

section Readings

/-- The order of readings.  The pieces are compared from the front, and in the first that differs
the steps that are passed over come before the one that is picked. -/
inductive Earlier : JsonValue → List Piece → List Piece → Prop
  | passing {doc : JsonValue} {passed passed' : JsonRoute} (h : Before doc passed passed')
    (picked picked' : JsonStep) (others others' : List Piece) :
    Earlier doc ((passed, picked) :: others) ((passed', picked') :: others')
  | picking {doc node : JsonValue} {passed : JsonRoute} {picked picked' : JsonStep}
    (hn : doc.get? passed = some node) (h : Precedes node picked picked')
      (others others' : List Piece) :
    Earlier doc ((passed, picked) :: others) ((passed, picked') :: others')
  | further {doc child : JsonValue} {passed : JsonRoute} {picked : JsonStep}
    {others others' : List Piece}
    (hc : doc.get? (passed ++ [picked]) = some child) (h : Earlier child others others') :
    Earlier doc ((passed, picked) :: others) ((passed, picked) :: others')

/-- The readings along which a walk finds its nodes. -/
def ways : List Segment → JsonValue → List (List Piece)
  | [], _ => [[]]
  | segment :: rest, doc =>
    (scope segment.recursive doc).flatMap fun (above, node) =>
      (select segment.selector node).flatMap fun (step, child) =>
        (ways rest child).map ((above, step) :: ·)

theorem routes_ways (segments : List Segment) (doc : JsonValue) :
    (ways segments doc).map routeOf = (walk segments doc).map Prod.fst := by
  induction segments generalizing doc with
  | nil => rfl
  | cons segment rest ih =>
    have hrest : ∀ above step child, ((ways rest child).map ((above, step) :: ·)).map routeOf =
        ((walk rest child).map Prod.fst).map (above ++ step :: ·) := by
      intro above step child
      rw [← ih, List.map_map, List.map_map]
      exact List.map_congr_left fun way _ => routeOf_cons above step way
    simp only [ways, walk, List.map_flatMap, hrest, List.map_map]
    rfl

private theorem cons_mem_ways {segment : Segment} {above : JsonRoute}
    {step : JsonStep} {way : List Piece} :
    (above, step) :: way ∈ ways (segment :: rest) doc ↔ ∃ node child,
      (above, node) ∈ scope segment.recursive doc ∧ (step, child) ∈ select segment.selector node ∧
        way ∈ ways rest child := by
  constructor
  · intro h
    obtain ⟨⟨above, node⟩, hscope, h⟩ := List.mem_flatMap.1 h
    obtain ⟨⟨step, child⟩, hselect, h⟩ := List.mem_flatMap.1 h
    obtain ⟨way, hw, he⟩ := List.mem_map.1 h
    cases he
    exact ⟨node, child, hscope, hselect, hw⟩
  · rintro ⟨node, child, hscope, hselect, hw⟩
    exact List.mem_flatMap.2 ⟨_, hscope, List.mem_flatMap.2 ⟨_, hselect, List.mem_map_of_mem hw⟩⟩

theorem mem_ways (keyed : Everywhere Keyed doc) {way : List Piece} :
    way ∈ ways segments doc ↔ (doc.get? (routeOf way)).isSome ∧
      List.Forall₂ Accounts segments way := by
  induction segments generalizing doc way with
  | nil =>
    rw [ways, List.mem_singleton, List.forall₂_nil_left_iff]
    refine ⟨?_, And.right⟩
    rintro rfl
    exact ⟨rfl, rfl⟩
  | cons segment rest ih =>
    cases way with
    | nil => simp [ways]
    | cons piece way =>
      obtain ⟨above, step⟩ := piece
      have hread : (doc.get? (routeOf ((above, step) :: way))).isSome ↔ ∃ node child,
          doc.get? above = some node ∧ node.child? step = some child ∧
            (child.get? (routeOf way)).isSome := by
        rw [routeOf_cons, get?_append]
        cases hn : doc.get? above with
        | none => simp
        | some node => cases hc : node.child? step <;> simp [get?, hc]
      rw [cons_mem_ways, hread, List.forall₂_cons]
      constructor
      · rintro ⟨node, child, hscope, hselect, hw⟩
        obtain ⟨hn, hr⟩ := (mem_scope keyed).1 hscope
        have knode := keyed.of_get? hn
        obtain ⟨hc, hp⟩ := (mem_select knode.here).1 hselect
        obtain ⟨hsome, haccounts⟩ := (ih (knode.child hc)).1 hw
        exact ⟨⟨node, child, hn, hc, hsome⟩, ⟨hr, hp⟩, haccounts⟩
      · rintro ⟨⟨node, child, hn, hc, hsome⟩, ⟨hr, hp⟩, haccounts⟩
        have knode := keyed.of_get? hn
        exact ⟨node, child, (mem_scope keyed).2 ⟨hn, hr⟩, (mem_select knode.here).2 ⟨hc, hp⟩,
          (ih (knode.child hc)).2 ⟨hsome, haccounts⟩⟩

private theorem pairwise_scope (keyed : Everywhere Keyed doc) (recursive : Bool) :
    ((scope recursive doc).map Prod.fst).Pairwise (Before doc) := by
  cases recursive with
  | false => exact List.pairwise_singleton _ _
  | true => exact pairwise_nodes keyed

private theorem select_sublist (keyed : Keyed doc) (selector : Selector) :
    (select selector doc).Sublist doc.children := by
  rw [select_eq_filter keyed]
  exact List.filter_sublist

/-- A walk follows the earlier of two readings first. -/
theorem pairwise_ways (keyed : Everywhere Keyed doc) :
    (ways segments doc).Pairwise (Earlier doc) := by
  induction segments generalizing doc with
  | nil => exact List.pairwise_singleton _ _
  | cons segment rest ih =>
    rw [ways, List.pairwise_flatMap]
    constructor
    · rintro ⟨above, node⟩ hm
      have hn := ((mem_scope keyed).1 hm).1
      have knode := keyed.of_get? hn
      rw [List.pairwise_flatMap]
      constructor
      · rintro ⟨step, child⟩ hc
        have hc := ((mem_select knode.here).1 hc).1
        have hchild : doc.get? (above ++ [step]) = some child := by
          rw [get?_append, hn, Option.bind_some, get?, hc]
          rfl
        exact List.pairwise_map.2 ((ih (knode.child hc)).imp (.further hchild))
      · refine List.pairwise_iff_forall_sublist.2 ?_
        rintro ⟨step, child⟩ ⟨step', child'⟩ hs way hw way' hw'
        obtain ⟨others, -, rfl⟩ := List.mem_map.1 hw
        obtain ⟨others', -, rfl⟩ := List.mem_map.1 hw'
        have hp : Precedes node step step' :=
          (hs.trans (select_sublist knode.here segment.selector)).map Prod.fst
        exact .picking hn hp others others'
    · refine (List.pairwise_map.1 (pairwise_scope keyed segment.recursive)).imp ?_
      rintro ⟨above, node⟩ ⟨above', node'⟩ hb way hw way' hw'
      obtain ⟨⟨step, child⟩, -, hw⟩ := List.mem_flatMap.1 hw
      obtain ⟨⟨step', child'⟩, -, hw'⟩ := List.mem_flatMap.1 hw'
      obtain ⟨others, -, rfl⟩ := List.mem_map.1 hw
      obtain ⟨others', -, rfl⟩ := List.mem_map.1 hw'
      exact .passing hb step step' others others'

private theorem Earlier.asymm (keyed : Everywhere Keyed doc) {way way' : List Piece}
    (h : Earlier doc way way') :
    ¬ Earlier doc way' way := by
  induction h with
  | passing hb picked picked' others others' =>
    intro h'
    cases h' with
    | passing hb' => exact hb.asymm keyed hb'
    | picking => exact hb.ne keyed rfl
    | further => exact hb.ne keyed rfl
  | picking hn hp others others' =>
    have knode := (keyed.of_get? hn).here
    intro h'
    cases h' with
    | passing hb' => exact hb'.ne keyed rfl
    | picking hn' hp' =>
      cases hn.symm.trans hn'
      exact hp.asymm knode hp'
    | further => exact hp.ne knode rfl
  | further hc h ih =>
    intro h'
    cases h' with
    | passing hb' => exact hb'.ne keyed rfl
    | picking hn' hp' => exact hp'.ne (keyed.of_get? hn').here rfl
    | further hc' h' =>
      cases hc.symm.trans hc'
      exact ih (keyed.of_get? hc) h'

/-- All the readings of the routes of a document, each once, in their order. -/
structure ListsReadings (segments : List Segment) (doc : JsonValue) (listed : List (List Piece)) :
    Prop where
  mem_iff (way : List Piece) : way ∈ listed ↔ way ∈ readings segments doc (routeOf way)
  ordered : listed.Pairwise (Earlier doc)

theorem listsReadings_ways (keyed : Everywhere Keyed doc) :
    ListsReadings segments doc (ways segments doc) where
  mem_iff _ :=
    (mem_ways keyed).trans (and_congr_right fun _ => ⟨fun ha => ⟨ha, rfl⟩, Divides.accounts⟩)
  ordered := pairwise_ways keyed

theorem ListsReadings.nodup (keyed : Everywhere Keyed doc) {listed : List (List Piece)}
    (h : ListsReadings segments doc listed) : listed.Nodup := by
  refine h.ordered.imp ?_
  rintro way _ he rfl
  exact he.asymm keyed he

/-- There is one such list only. -/
theorem ListsReadings.eq (keyed : Everywhere Keyed doc) {listed listed' : List (List Piece)}
    (h : ListsReadings segments doc listed) (h' : ListsReadings segments doc listed') :
    listed = listed' := by
  have perm : listed.Perm listed' :=
    (List.perm_ext_iff_of_nodup (h.nodup keyed) (h'.nodup keyed)).2 fun way =>
      (h.mem_iff way).trans (h'.mem_iff way).symm
  exact perm.eq_of_pairwise (fun _ _ _ _ he he' => absurd he' (he.asymm keyed)) h.ordered h'.ordered

end Readings

end BuildAlign.JsonMatches
