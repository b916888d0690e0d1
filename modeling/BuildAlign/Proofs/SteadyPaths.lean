import BuildAlign.Proofs.DocumentOrder

/-! # Paths that keep the order of documents

Where no segment is recursive, matches come in the order of the document.  A recursive segment keeps
this order only if it picks first items, and only first items are picked behind it: nothing that is
visited later can come before a first item.  For every other path there is a document in which a
later match comes before an earlier one. -/
namespace BuildAlign.JsonValue

variable {doc : JsonValue}

theorem Before.append {above route route' : JsonRoute} {node : JsonValue}
    (hn : doc.get? above = some node)
    (h : Before node route route') : Before doc (above ++ route) (above ++ route') := by
  induction above generalizing doc with
  | nil =>
    cases hn
    exact h
  | cons step above ih =>
    obtain ⟨child, hc, hn⟩ := Option.bind_eq_some_iff.1 hn
    exact .inside hc (ih hn)

/-- The route to the first item of the first item, and so on. -/
def firsts (n : Nat) : JsonRoute := List.replicate n (.index 0)

private theorem precedes_items {items : List JsonValue} {i : Nat} (hi : i + 1 < items.length) :
    Precedes (.array items) (.index 0) (.index (i + 1)) := by
  have hs : (JsonValue.array items).children.map Prod.fst =
      (List.range' 0 items.length).map .index := by
    rw [← List.zipIdx_map_snd 0 items, children, List.map_map, List.map_map]
    rfl
  cases items with
  | nil => cases hi
  | cons first items =>
    rw [Precedes, hs, List.length_cons, List.range'_succ, List.map_cons]
    refine (List.singleton_sublist.2 (List.mem_map_of_mem ?_)).cons_cons _
    rw [List.mem_range'_1]
    rw [List.length_cons] at hi
    omega

private theorem exists_child {step : JsonStep} {route : JsonRoute}
    (h : (doc.get? (step :: route)).isSome) :
    ∃ child, doc.child? step = some child ∧ (child.get? route).isSome := by
  simpa [get?, Option.isSome_bind, Option.any_eq_true] using h

/-- First items come before all that lies deeper. -/
theorem before_of_firsts {n : Nat} {route : JsonRoute} (hn : n < route.length)
    (hfirsts : (doc.get? (firsts n)).isSome) (hroute : (doc.get? route).isSome) :
    Before doc (firsts n) route := by
  induction n generalizing doc route with
  | zero =>
    obtain ⟨step, route, rfl⟩ := List.exists_cons_of_length_pos hn
    exact .above doc step route
  | succ n ih =>
    cases route with
    | nil => cases hn
    | cons step route =>
      obtain ⟨first, hf, hfirst⟩ := exists_child hfirsts
      obtain ⟨child, hc, hchild⟩ := exists_child hroute
      cases doc with
      | array items =>
        cases step with
        | key name => cases hc
        | index j =>
          cases j with
          | zero =>
            cases hf.symm.trans hc
            exact .inside hf (ih (Nat.lt_of_succ_lt_succ hn) hfirst hchild)
          | succ j =>
            obtain ⟨hj, -⟩ := List.getElem?_eq_some_iff.1 hc
            exact .beside (precedes_items hj) _ _
      | _ => cases hf

private theorem before_append_firsts {n : Nat} {route route' : JsonRoute}
    (h : Before doc route route')
    (hr : (doc.get? (route ++ firsts n)).isSome) (hr' : (doc.get? (route' ++ firsts n)).isSome) :
    Before doc (route ++ firsts n) (route' ++ firsts n) := by
  induction h with
  | above doc step route =>
    refine before_of_firsts ?_ hr hr'
    simp [firsts]
  | beside h route route' => exact .beside h _ _
  | inside hc h ih =>
    rw [List.cons_append, get?, hc] at hr hr'
    exact .inside hc (ih hr hr')

end BuildAlign.JsonValue

namespace BuildAlign.JsonMatches
open JsonValue

variable {doc : JsonValue} {segments rest : List Segment} {path : String}

section Steadiness

def firstItem : Segment := ⟨.index 0, false⟩

/-- Without a recursive segment nothing is passed over.  With one that picks the first items of
arrays, and only first items picked behind it, each match lies before all that is visited later. -/
def Steady : List Segment → Prop
  | [] => True
  | segment :: rest =>
    if segment.recursive then segment.selector = .index 0 ∧
      ∀ s ∈ rest, s = firstItem else Steady rest

private theorem steady_of_firstItems (h : ∀ s ∈ rest, s = firstItem) : Steady rest := by
  induction rest with
  | nil => trivial
  | cons segment rest ih =>
    obtain ⟨rfl, hrest⟩ := List.forall_mem_cons.1 h
    exact ih hrest

theorem Steady.tail {segment : Segment} (h : Steady (segment :: rest)) : Steady rest := by
  rw [Steady] at h
  split at h
  · exact steady_of_firstItems h.2
  · exact h

private theorem routeOf_firstItems (h : ∀ s ∈ rest, s = firstItem) {pieces : List Piece}
    (accounts : List.Forall₂ Accounts rest pieces) : routeOf pieces = firsts rest.length := by
  induction accounts with
  | nil => rfl
  | @cons segment piece rest pieces ha _ ih =>
    obtain ⟨rfl, hrest⟩ := List.forall_mem_cons.1 h
    obtain ⟨passed, picked⟩ := piece
    have hp : passed = [] := ha.1 rfl
    have hpicked : picked = .index 0 := of_decide_eq_true ha.2
    rw [routeOf_cons, hp, hpicked, ih hrest]
    rfl

/-- Along a steady path, what is read earlier comes earlier in the document. -/
theorem Earlier.before (steady : Steady segments) (keyed : Everywhere Keyed doc)
    {way way' : List Piece}
    (h : Earlier doc way way') (hw : way ∈ ways segments doc) (hw' : way' ∈ ways segments doc) :
    Before doc (routeOf way) (routeOf way') := by
  induction h generalizing segments with
  | @passing doc passed passed' h picked picked' others others' =>
    obtain ⟨hsome, accounts⟩ := (mem_ways keyed).1 hw
    obtain ⟨hsome', accounts'⟩ := (mem_ways keyed).1 hw'
    cases accounts with
    | @cons segment _ rest _ ha accounts =>
      obtain ⟨ha', accounts'⟩ := List.forall₂_cons.1 accounts'
      rw [Steady] at steady
      split at steady
      · obtain ⟨hs, hrest⟩ := steady
        have hfirst : ∀ {passed picked others}, Accounts segment (passed, picked) →
            List.Forall₂ Accounts rest others →
            routeOf ((passed, picked) :: others) = passed ++ firsts (rest.length + 1) := by
          intro passed picked others ha accounts
          have hp : picks segment.selector picked = true := ha.2
          rw [hs] at hp
          rw [routeOf_cons, of_decide_eq_true hp, routeOf_firstItems hrest accounts]
          rfl
        rw [hfirst ha accounts] at hsome ⊢
        rw [hfirst ha' accounts'] at hsome' ⊢
        exact before_append_firsts h hsome hsome'
      · next hs =>
        -- Nothing is passed over, so neither reading is the earlier one here.
        cases ha.1 (by simpa using hs)
        cases ha'.1 (by simpa using hs)
        cases h
  | picking hn h others others' =>
    rw [routeOf_cons, routeOf_cons]
    exact .append hn (.beside h _ _)
  | @further doc child passed picked others others' hc h ih =>
    have hothers : ∀ {others}, (passed, picked) :: others ∈ ways segments doc →
        others ∈ ways segments.tail child := by
      intro others hw
      obtain ⟨hsome, accounts⟩ := (mem_ways keyed).1 hw
      rw [routeOf_cons, List.append_cons, get?_append, hc] at hsome
      cases accounts with
      | cons _ accounts => exact (mem_ways (keyed.of_get? hc)).2 ⟨hsome, accounts⟩
    cases segments with
    | nil => simp [ways] at hw
    | cons segment rest =>
      rw [routeOf_cons, routeOf_cons, List.append_cons passed picked (routeOf others),
        List.append_cons passed picked (routeOf others')]
      exact .append hc (ih steady.tail (keyed.of_get? hc) (hothers hw) (hothers hw'))

private theorem pairwise_walk (steady : Steady segments) (keyed : Everywhere Keyed doc) :
    ((walk segments doc).map Prod.fst).Pairwise (Before doc) := by
  rw [← routes_ways, List.pairwise_map]
  exact (pairwise_ways keyed).imp_of_mem fun hw hw' h => h.before steady keyed hw hw'

end Steadiness

section Unsteadiness

variable {segment : Segment} {child : JsonValue} {step : JsonStep} {route : JsonRoute}

/-- What is found below a child that a segment picks. -/
theorem cons_mem_walkHere (keyed : Keyed doc) (hc : doc.child? step = some child)
    (hp : picks segment.selector step = true) (h : route ∈ (walk rest child).map Prod.fst) :
    step :: route ∈ (walkHere segment.selector rest doc).map Prod.fst := by
  obtain ⟨⟨_, node⟩, hm, rfl⟩ := List.mem_map.1 h
  exact List.mem_map_of_mem (cons_mem_findBelow.2 ⟨child, (mem_select keyed).2 ⟨hc, hp⟩, hm⟩)

/-- What is found below a child that a recursive segment passes over. -/
theorem cons_mem_walkBelow (keyed : Keyed doc) (hc : doc.child? step = some child)
    (h : route ∈ (walk segments child).map Prod.fst) :
    step :: route ∈ (findBelow (walk segments) doc.children).map Prod.fst := by
  obtain ⟨⟨_, node⟩, hm, rfl⟩ := List.mem_map.1 h
  exact List.mem_map_of_mem (cons_mem_findBelow.2 ⟨child, (mem_children keyed).2 hc, hm⟩)

private theorem keyed_items {items : List JsonValue} (h : ∀ item ∈ items, Everywhere Keyed item) :
    Everywhere Keyed (.array items) := everywhere_array.2 ⟨trivial, h⟩

/-- Unless first items are picked, a child can be picked that comes behind another one. -/
theorem exists_beside {selector : Selector} (hs : selector ≠ .index 0) {first picked : JsonValue}
    (kfirst : Everywhere Keyed first) (kpicked : Everywhere Keyed picked) :
    ∃ doc step step', Everywhere Keyed doc ∧ doc.child? step = some first ∧
      doc.child? step' = some picked ∧
      picks selector step' = true ∧ Precedes doc step step' := by
  have items : ∀ n, picks selector (.index (n + 1)) = true →
    ∃ doc step step', Everywhere Keyed doc ∧
      doc.child? step = some first ∧ doc.child? step' = some picked ∧ picks selector step' = true ∧
      Precedes doc step step' := by
    intro n hn
    refine ⟨.array (first :: (List.replicate n .null ++ [picked])), .index 0, .index (n + 1),
      keyed_items ?_, rfl, ?_,
      hn, precedes_items (by simp)⟩
    · have knull : Everywhere Keyed .null := (everywhere_leaf rfl).2 trivial
      simp only [List.forall_mem_cons, List.forall_mem_append, List.mem_replicate]
      refine ⟨kfirst, ?_, kpicked, nofun⟩
      rintro item ⟨-, rfl⟩
      exact knull
    · simp [child?]
  cases selector with
  | wildcard => exact items 0 rfl
  | index i =>
    cases i with
    | zero => exact absurd rfl hs
    | succ n => exact items n (by simp [picks])
  | key name =>
    have hne : LooseText.ofString (name ++ "'") ≠ .ofString name := by
      intro he
      simpa using congrArg String.length (LooseText.ofString_injective he)
    refine ⟨.object [(.ofString (name ++ "'"), first), (.ofString name, picked)],
      .key (.ofString (name ++ "'")),
      .key (.ofString name), everywhere_object.2 ⟨?_, ?_⟩, ?_, ?_, by
        simp [picks], List.Sublist.refl _⟩
    · simpa [Keyed] using hne
    · simpa using ⟨kfirst, kpicked⟩
    · simp [child?, OrderedMap.find]
    · simp [child?, OrderedMap.find, hne]

private theorem exists_picked (selector : Selector) {picked : JsonValue}
    (keyed : Everywhere Keyed picked) :
    ∃ doc step, Everywhere Keyed doc ∧ doc.child? step = some picked ∧
      picks selector step = true := by
  by_cases hs : selector = .index 0
  · subst hs
    exact ⟨.array [picked], .index 0, keyed_items (by simpa using keyed), rfl, rfl⟩
  · obtain ⟨doc, _, step, kdoc, -, hc, hp, -⟩ := exists_beside hs keyed keyed
    exact ⟨doc, step, kdoc, hc, hp⟩

/-- Every path matches something somewhere. -/
theorem exists_matched (segments : List Segment) :
    ∃ doc, Everywhere Keyed doc ∧ ∃ route, route ∈ (walk segments doc).map Prod.fst := by
  induction segments with
  | nil => exact ⟨.null, (everywhere_leaf rfl).2 trivial, [], List.mem_singleton.2 rfl⟩
  | cons segment rest ih =>
    obtain ⟨child, kchild, route, hr⟩ := ih
    obtain ⟨doc, step, kdoc, hc, hp⟩ := exists_picked segment.selector kchild
    refine ⟨doc, kdoc, step :: route, ?_⟩
    rw [walk_cons, List.map_append, List.mem_append]
    exact .inl (cons_mem_walkHere kdoc.here hc hp hr)

/-- Where not only first items are picked, a recursive path comes late to something before a
match. -/
theorem exists_late (h : ¬ ∀ s ∈ rest, s = firstItem) (hs : segment.recursive = true)
    (others : List Segment) :
    ∃ doc, Everywhere Keyed doc ∧ ∃ route ∈ (walk rest doc).map Prod.fst,
      ∃ late ∈ (findBelow (walk (segment :: others)) doc.children).map Prod.fst,
        Before doc late route := by
  obtain ⟨deep, kdeep, below, hbelow⟩ := exists_matched (segment :: others)
  induction rest with
  | nil => exact absurd nofun h
  | cons next rest ih =>
    by_cases hnext : next = firstItem
    · subst hnext
      obtain ⟨item, kitem, route, hr, late, hl, hb⟩ :=
        ih fun hrest => h (List.forall_mem_cons.2 ⟨rfl, hrest⟩)
      have kdoc : Everywhere Keyed (.array [item]) := keyed_items (by simpa using kitem)
      have hc : (JsonValue.array [item]).child? (.index 0) = some item := rfl
      have hlate : late ∈ (walk (segment :: others) item).map Prod.fst := by
        rw [walk_cons, if_pos hs, List.map_append, List.mem_append]
        exact .inr hl
      refine ⟨_, kdoc, _, ?_, _, cons_mem_walkBelow kdoc.here hc hlate, .inside hc hb⟩
      rw [walk_cons, List.map_append, List.mem_append]
      exact .inl (cons_mem_walkHere kdoc.here hc rfl hr)
    · cases hrec : next.recursive with
      | true =>
        obtain ⟨picked, kpicked, route, hr⟩ := exists_matched (next :: rest)
        have hw : Selector.wildcard ≠ .index 0 := nofun
        obtain ⟨doc, step, step', kdoc, hfirst, hpicked, -, hp⟩ := exists_beside hw kdeep kpicked
        refine ⟨doc, kdoc, step' :: route, ?_, _,
          cons_mem_walkBelow kdoc.here hfirst hbelow, .beside hp _ _⟩
        rw [walk_cons, if_pos hrec, List.map_append, List.mem_append]
        exact .inr (cons_mem_walkBelow kdoc.here hpicked hr)
      | false =>
        have hsel : next.selector ≠ .index 0 := by
          intro hsel
          obtain ⟨selector, recursive⟩ := next
          cases hsel
          cases hrec
          exact hnext rfl
        obtain ⟨picked, kpicked, route, hr⟩ := exists_matched rest
        obtain ⟨doc, step, step', kdoc, hfirst, hpicked, hpicks, hp⟩ :=
          exists_beside hsel kdeep kpicked
        refine ⟨doc, kdoc, step' :: route, ?_, _,
          cons_mem_walkBelow kdoc.here hfirst hbelow, .beside hp _ _⟩
        rw [walk_cons, List.map_append, List.mem_append]
        exact .inl (cons_mem_walkHere kdoc.here hpicked hpicks hr)

/-- Routes into a child are in order when they are in order in the child. -/
theorem inOrder_child (keyed : Keyed doc) (hc : doc.child? step = some child)
    {routes : List JsonRoute}
    (h : InOrder doc (routes.map (step :: ·))) : InOrder child routes := by
  refine (List.pairwise_map.1 h).imp ?_
  rintro route route' (he | hb)
  · exact .inl (List.cons.inj he).2
  · cases hb with
    | beside hp => exact absurd rfl (hp.ne keyed)
    | inside hc' hb =>
      cases hc.symm.trans hc'
      exact .inr hb

private theorem exists_not_inOrder (h : ¬ Steady segments) :
    ∃ doc, Everywhere Keyed doc ∧ ¬ InOrder doc ((walk segments doc).map Prod.fst) := by
  induction segments with
  | nil => exact absurd trivial h
  | cons segment rest ih =>
    cases hs : segment.recursive with
    | true =>
      have hnot : ¬ ∀ s ∈ ⟨segment.selector, false⟩ :: rest, s = firstItem := by
        intro hall
        obtain ⟨hsel, hrest⟩ := List.forall_mem_cons.1 hall
        rw [Steady, if_pos hs] at h
        exact h ⟨congrArg Segment.selector hsel, hrest⟩
      obtain ⟨doc, kdoc, route, hr, late, hl, hb⟩ := exists_late hnot hs rest
      refine ⟨doc, kdoc, ?_⟩
      rw [walk_cons, if_neg Bool.false_ne_true, List.append_nil] at hr
      rw [walk_cons, if_pos hs, List.map_append]
      exact not_inOrder_append kdoc hr hl hb
    | false =>
      rw [Steady, if_neg (by simp [hs])] at h
      obtain ⟨child, kchild, hchild⟩ := ih h
      obtain ⟨doc, step, kdoc, hc, hp⟩ := exists_picked segment.selector kchild
      refine ⟨doc, kdoc, fun ho => hchild (inOrder_child kdoc.here hc (ho.sublist ?_))⟩
      rw [walk_cons, hs, if_neg Bool.false_ne_true, List.append_nil, walkHere, routes_findBelow]
      exact List.sublist_flatten_of_mem (List.mem_map.2 ⟨_, (mem_select kdoc.here).2 ⟨hc, hp⟩, rfl⟩)

end Unsteadiness

section Paths

/-- The matches of a path are the readings of the routes of the document along its segments, each
once and in their order, and the first of them is the one that an edit takes.  Only the bare root,
which is in no container, is never matched.  The matches come in the order of the document, for
every document, exactly along the steady paths. -/
theorem matches_in_order_of_readings (compiled : JsonPath.compile path = .ok segments) :
    (∀ doc, Everywhere Keyed doc → ∃ listed found, ListsReadings segments doc listed ∧
      (∀ other, ListsReadings segments doc other → other = listed) ∧
      found = (if segments = [] then [] else listed.map routeOf) ∧
      find path doc = .ok found ∧ DocumentEdits.locateJson path doc = .ok found.head?) ∧
    ((∀ doc found, Everywhere Keyed doc → find path doc = .ok found → InOrder doc found) ↔
      Steady segments) := by
  have hfind : ∀ doc, find path doc = .ok (locate segments doc) := by
    intro doc
    rw [find, compiled, Except.map]
  constructor
  · intro doc keyed
    have hlists : ListsReadings segments doc (ways segments doc) := listsReadings_ways keyed
    refine ⟨ways segments doc, locate segments doc, hlists,
      fun other h => h.eq keyed hlists, ?_, hfind doc, ?_⟩
    · rw [locate, routes_ways]
    · rw [DocumentEdits.locateJson_eq, hfind, Except.map, Except.mapError]
  · constructor
    · intro h
      by_contra unsteady
      have ne : segments ≠ [] := by
        rintro rfl
        exact unsteady trivial
      obtain ⟨doc, keyed, hnot⟩ := exists_not_inOrder unsteady
      exact hnot (h doc _ keyed (find_eq_walk compiled ne doc))
    · intro steady doc found keyed hf
      cases (hfind doc).symm.trans hf
      rw [locate]
      split
      · exact List.Pairwise.nil
      · exact inOrder_of_pairwise (pairwise_walk steady keyed)

/-- A member that stands behind an object with a member of the same name. -/
def memberBehind : JsonValue :=
  .object [(.ofString "x", .object [(.ofString "a", .null)]), (.ofString "a", .null)]

private theorem keyed_memberBehind : Everywhere Keyed memberBehind := by
  have knull : Everywhere Keyed .null := (everywhere_leaf rfl).2 trivial
  have inner : Everywhere Keyed (.object [(.ofString "a", .null)]) :=
    everywhere_object.2 ⟨List.nodup_singleton _, by simpa using knull⟩
  have hne : LooseText.ofString "x" ≠ .ofString "a" := by decide +kernel
  refine everywhere_object.2 ⟨by simpa [Keyed] using hne, ?_⟩
  simp only [List.forall_mem_cons, List.not_mem_nil, false_implies, implies_true, and_true]
  exact ⟨inner, knull⟩

/-- The member of the outer object is read first, while first items of first items keep the order
everywhere. -/
theorem matches_in_order_of_readings_behind :
    (JsonPath.compile "$..a" = .ok [⟨.key "a", true⟩] ∧ Everywhere Keyed memberBehind ∧
      ∃ listed, ListsReadings [⟨.key "a", true⟩] memberBehind listed ∧
        listed.map routeOf =
          [[.key (.ofString "a")], [.key (.ofString "x"), .key (.ofString "a")]]) ∧
    (JsonPath.compile "$..[0][0]" = .ok [⟨.index 0, true⟩, ⟨.index 0, false⟩] ∧
      ∀ doc found, Everywhere Keyed doc → find "$..[0][0]" doc = .ok found →
        InOrder doc found) := by
  have compiled : JsonPath.compile "$..a" = .ok [⟨.key "a", true⟩] := by decide +kernel
  have compiled_items : JsonPath.compile "$..[0][0]" =
    .ok [⟨.index 0, true⟩, ⟨.index 0, false⟩] := by decide +kernel
  have hrun : find "$..a" memberBehind =
      .ok [[.key (.ofString "a")], [.key (.ofString "x"), .key (.ofString "a")]] := by
        decide +kernel
  obtain ⟨listed, found, hl, -, he, hf, -⟩ :=
    (matches_in_order_of_readings compiled).1 memberBehind keyed_memberBehind
  have steady : Steady [⟨.index 0, true⟩, ⟨.index 0, false⟩] := ⟨rfl, by simp [firstItem]⟩
  rw [if_neg (List.cons_ne_nil _ _)] at he
  exact ⟨⟨compiled, keyed_memberBehind, listed, hl,
    he.symm.trans (Except.ok.inj (hf.symm.trans hrun))⟩,
    compiled_items, (matches_in_order_of_readings compiled_items).2.2 steady⟩

/-- In the order of the document the inner member comes first, but it is matched last and an edit
takes the outer one. -/
theorem not_all_matches_in_document_order :
    Everywhere Keyed memberBehind ∧
    find "$..a" memberBehind =
      .ok [[.key (.ofString "a")], [.key (.ofString "x"), .key (.ofString "a")]] ∧
    DocumentEdits.locateJson "$..a" memberBehind = .ok (some [.key (.ofString "a")]) ∧
    Before memberBehind [.key (.ofString "x"), .key (.ofString "a")] [.key (.ofString "a")] ∧
    ¬ ∀ path doc found, Everywhere Keyed doc → find path doc = .ok found → InOrder doc found := by
  have hrun : find "$..a" memberBehind =
      .ok [[.key (.ofString "a")], [.key (.ofString "x"), .key (.ofString "a")]] := by
        decide +kernel
  have hp : Precedes memberBehind (.key (.ofString "x")) (.key (.ofString "a")) :=
    List.Sublist.refl [_, _]
  have hb :
      Before memberBehind [.key (.ofString "x"), .key (.ofString "a")] [.key (.ofString "a")] :=
    .beside hp _ _
  refine ⟨keyed_memberBehind, hrun, by decide +kernel, hb, fun h => ?_⟩
  have ho : InOrder memberBehind
      ([[.key (.ofString "a")]] ++ [[.key (.ofString "x"), .key (.ofString "a")]]) :=
    h "$..a" memberBehind _ keyed_memberBehind hrun
  exact not_inOrder_append keyed_memberBehind (List.mem_singleton_self _)
    (List.mem_singleton_self _) hb ho

end Paths

end BuildAlign.JsonMatches
