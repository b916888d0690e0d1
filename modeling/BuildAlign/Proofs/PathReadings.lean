import BuildAlign.Proofs.PathWalks
import Mathlib.Data.Set.Card

/-! # What a path means

A route is read along a path by dividing it into pieces, one for each segment: some steps that are
passed over, which only a recursive segment may do, and one step that the segment picks.  A path
matches a route of the document as many times as there are such readings of the route. -/
namespace BuildAlign.JsonMatches
open JsonValue

/-- The steps that are passed over, and the one that is picked. -/
abbrev Piece := JsonRoute × JsonStep

/-- The route that pieces make up. -/
def routeOf (pieces : List Piece) : JsonRoute :=
  pieces.flatMap fun (passed, picked) => passed ++ [picked]

/-- Whether a segment can account for a piece. -/
def Accounts (segment : Segment) (piece : Piece) : Prop :=
  (segment.recursive = false → piece.1 = []) ∧ picks segment.selector piece.2 = true

/-- The pieces make up the route, and each segment accounts for its own. -/
structure Divides (segments : List Segment) (route : JsonRoute) (pieces : List Piece) : Prop where
  accounts : List.Forall₂ Accounts segments pieces
  route_eq : routeOf pieces = route

/-- The ways to read a route of the document along the segments. -/
def readings (segments : List Segment) (doc : JsonValue) (route : JsonRoute) : Set (List Piece) :=
  {pieces | (doc.get? route).isSome ∧ Divides segments route pieces}

section Divisions

/-- Puts a step before those that the first piece passes over. -/
def passOver (step : JsonStep) (pieces : List Piece) : List Piece :=
  pieces.modifyHead fun (passed, picked) => (step :: passed, picked)

/-- All ways to divide a route among segments. -/
def divisions : List Segment → JsonRoute → List (List Piece)
  | [], [] => [[]]
  | [], _ :: _ => []
  | _ :: _, [] => []
  | segment :: rest, step :: route =>
    (if picks segment.selector step then (divisions rest route).map (([], step) :: ·) else []) ++
      if segment.recursive then (divisions (segment :: rest) route).map (passOver step) else []

variable {segment : Segment} {segments rest : List Segment}
  {pieces : List Piece} {route : JsonRoute}
  {step : JsonStep}

theorem routeOf_cons (passed : JsonRoute) (picked : JsonStep) (pieces : List Piece) :
    routeOf ((passed, picked) :: pieces) = passed ++ picked :: routeOf pieces := by
  simp [routeOf]

private theorem passOver_cons (step : JsonStep) (passed : JsonRoute) (picked : JsonStep)
    (pieces : List Piece) :
    passOver step ((passed, picked) :: pieces) = (step :: passed, picked) :: pieces := rfl

/-- A recursive segment may pass over any steps. -/
theorem accounts_of_recursive (hs : segment.recursive = true) {picked : JsonStep}
    (hp : picks segment.selector picked = true) (passed : JsonRoute) :
    Accounts segment (passed, picked) := by
  refine ⟨fun hn => ?_, hp⟩
  rw [hs] at hn
  cases hn

private theorem Divides.pick (hp : picks segment.selector step = true)
    (h : Divides rest route pieces) :
    Divides (segment :: rest) (step :: route) (([], step) :: pieces) :=
  ⟨.cons ⟨fun _ => rfl, hp⟩ h.accounts, by rw [routeOf_cons, h.route_eq, List.nil_append]⟩

private theorem Divides.pass (hs : segment.recursive = true)
    (h : Divides (segment :: rest) route pieces) :
    Divides (segment :: rest) (step :: route) (passOver step pieces) := by
  obtain ⟨hf, hr⟩ := h
  cases hf with
  | @cons _ piece _ pieces ha hf =>
    obtain ⟨passed, picked⟩ := piece
    rw [passOver_cons]
    exact ⟨.cons (accounts_of_recursive hs ha.2 _) hf, by
      rw [← hr, routeOf_cons, routeOf_cons, List.cons_append]⟩

/-- The first step of a route is picked by the first segment, or passed over. -/
theorem Divides.pick_or_pass (h : Divides (segment :: rest) (step :: route) pieces) :
    (picks segment.selector step = true ∧
        ∃ later, Divides rest route later ∧ ([], step) :: later = pieces) ∨
      (segment.recursive = true ∧
        ∃ same, Divides (segment :: rest) route same ∧ passOver step same = pieces) := by
  obtain ⟨hf, hr⟩ := h
  cases hf with
  | @cons _ piece _ pieces ha hf =>
    obtain ⟨passed, picked⟩ := piece
    rw [routeOf_cons] at hr
    cases passed with
    | nil =>
      obtain ⟨rfl, hroute⟩ := List.cons.inj hr
      exact .inl ⟨ha.2, pieces, ⟨hf, hroute⟩, rfl⟩
    | cons first passed =>
      obtain ⟨rfl, hroute⟩ := List.cons.inj hr
      have hs : segment.recursive = true := by
        cases hs : segment.recursive with
        | true => rfl
        | false => exact absurd (ha.1 hs) (List.cons_ne_nil _ _)
      exact .inr ⟨hs, (passed, picked) :: pieces, ⟨.cons (accounts_of_recursive hs ha.2 passed) hf,
        (routeOf_cons passed picked pieces).trans hroute⟩, rfl⟩

private theorem mem_divisions :
    pieces ∈ divisions segments route ↔ Divides segments route pieces := by
  induction route generalizing segments pieces with
  | nil =>
    cases segments with
    | nil =>
      constructor
      · intro h
        rw [List.mem_singleton.1 h]
        exact ⟨.nil, rfl⟩
      · rintro ⟨hf, -⟩
        cases hf
        exact List.mem_singleton.2 rfl
    | cons segment rest =>
      refine iff_of_false List.not_mem_nil fun ⟨hf, hr⟩ => ?_
      cases hf
      simp [routeOf] at hr
  | cons step route ih =>
    cases segments with
    | nil =>
      refine iff_of_false List.not_mem_nil fun ⟨hf, hr⟩ => ?_
      cases hf
      cases hr
    | cons segment rest =>
      rw [divisions, List.mem_append]
      constructor
      · rintro (h | h)
        · obtain ⟨hp, h⟩ := List.mem_ite_nil_right.1 h
          obtain ⟨later, hm, rfl⟩ := List.mem_map.1 h
          exact (ih.1 hm).pick hp
        · obtain ⟨hs, h⟩ := List.mem_ite_nil_right.1 h
          obtain ⟨same, hm, rfl⟩ := List.mem_map.1 h
          exact (ih.1 hm).pass hs
      · intro h
        rcases h.pick_or_pass with ⟨hp, later, hd, rfl⟩ | ⟨hs, same, hd, rfl⟩
        · exact .inl (List.mem_ite_nil_right.2 ⟨hp, List.mem_map_of_mem (ih.2 hd)⟩)
        · exact .inr (List.mem_ite_nil_right.2 ⟨hs, List.mem_map_of_mem (ih.2 hd)⟩)

private theorem passOver_injective (step : JsonStep) : Function.Injective (passOver step) := by
  intro a b h
  cases a <;> cases b <;> simp_all [passOver, Prod.ext_iff]

/-- No way to divide a route is listed twice. -/
theorem nodup_divisions (segments : List Segment) (route : JsonRoute) :
    (divisions segments route).Nodup := by
  induction route generalizing segments with
  | nil => cases segments <;> simp [divisions]
  | cons step route ih =>
    cases segments with
    | nil => exact List.nodup_nil
    | cons segment rest =>
      rw [divisions]
      refine List.nodup_append.2 ⟨?_, ?_, ?_⟩
      · split
        · exact (ih rest).map (List.cons_injective)
        · exact List.nodup_nil
      · split
        · exact (ih (segment :: rest)).map (passOver_injective step)
        · exact List.nodup_nil
      · -- What picks the step begins with an empty piece; what passes over it does not.
        intro a ha b hb hab
        obtain ⟨later, -, rfl⟩ := List.mem_map.1 (List.mem_ite_nil_right.1 ha).2
        obtain ⟨same, -, rfl⟩ := List.mem_map.1 (List.mem_ite_nil_right.1 hb).2
        cases same with
        | nil => cases hab
        | cons piece same => cases (List.cons.inj hab).1

private theorem length_divisions_cons (segment : Segment) (rest : List Segment) (step : JsonStep)
    (route : JsonRoute) :
    (divisions (segment :: rest) (step :: route)).length =
      (if picks segment.selector step then (divisions rest route).length else 0) +
        if segment.recursive then (divisions (segment :: rest) route).length else 0 := by
  rw [divisions, List.length_append]
  congr 1 <;> split <;> simp

private theorem divisions_of_shorter (h : route.length < segments.length) :
    divisions segments route = [] := by
  induction route generalizing segments with
  | nil =>
    cases segments with
    | nil => cases h
    | cons segment rest => rfl
  | cons step route ih =>
    cases segments with
    | nil => cases h
    | cons segment rest =>
      rw [List.length_cons, List.length_cons] at h
      have hrest : divisions rest route = [] := ih (by omega)
      have hall : divisions (segment :: rest) route = [] := ih (by rw [List.length_cons]; omega)
      simp [divisions, hrest, hall]

private theorem divisions_of_longer (hn : segments.countP Segment.recursive = 0)
    (h : segments.length < route.length) : divisions segments route = [] := by
  induction route generalizing segments with
  | nil => cases h
  | cons step route ih =>
    cases segments with
    | nil => rfl
    | cons segment rest =>
      rw [List.length_cons, List.length_cons] at h
      obtain ⟨hrest, hs⟩ : rest.countP Segment.recursive = 0 ∧ segment.recursive = false := by
        simpa [List.countP_cons] using hn
      simp [divisions, hs, ih hrest (by omega)]

/-- With one recursive segment at most, there is one way at most. -/
theorem length_divisions_le (h : segments.countP Segment.recursive ≤ 1) :
    (divisions segments route).length ≤ 1 := by
  induction route generalizing segments with
  | nil => cases segments <;> simp [divisions]
  | cons step route ih =>
    cases segments with
    | nil => simp [divisions]
    | cons segment rest =>
      rw [length_divisions_cons]
      cases hs : segment.recursive with
      | false =>
        have hrest : rest.countP Segment.recursive ≤ 1 := by simpa [List.countP_cons, hs] using h
        rw [if_neg Bool.false_ne_true, Nat.add_zero]
        split
        · exact ih hrest
        · exact Nat.zero_le 1
      | true =>
        have hrest : rest.countP Segment.recursive = 0 := by
          rw [List.countP_cons, if_pos hs] at h
          omega
        have hle := ih h
        -- The other segments take one step each, so only one of the two is long enough.
        rcases Nat.lt_or_ge rest.length route.length with hl | hl
        · have hz := divisions_of_longer hrest hl
          simpa [hz] using hle
        · have hz : divisions (segment :: rest) route = [] := divisions_of_shorter (by simp; omega)
          rw [hz, List.length_nil, ite_self, Nat.add_zero]
          split
          · exact ih (by omega)
          · exact Nat.zero_le 1

end Divisions

section Counts

variable {children : List (JsonStep × JsonValue)} {doc : JsonValue} {segments : List Segment}
  {route : JsonRoute}

/-- Below children with different steps, a route is found in the child that its first step leads
to. -/
theorem count_findBelow (found : JsonValue → List (JsonRoute × JsonValue))
    (nodup : (children.map Prod.fst).Nodup) (step : JsonStep) (route : JsonRoute) :
    ((findBelow found children).map Prod.fst).count (step :: route) =
      match OrderedMap.find step children with
      | none => 0
      | some child => ((found child).map Prod.fst).count route := by
  induction children with
  | nil => rfl
  | cons entry children ih =>
    obtain ⟨other, child⟩ := entry
    rw [List.map_cons, List.nodup_cons] at nodup
    rw [routes_findBelow, List.flatMap_cons, List.count_append, ← routes_findBelow, ih nodup.2]
    simp only [OrderedMap.find]
    by_cases h : other = step
    · subst h
      rw [List.count_map_of_injective _ _ List.cons_injective,
        OrderedMap.find_of_notMem nodup.1, if_pos rfl,
        Nat.add_zero]
    · have hz : (((found child).map Prod.fst).map (other :: ·)).count (step :: route) = 0 := by
        refine List.count_eq_zero.2 fun hm => ?_
        obtain ⟨_, -, he⟩ := List.mem_map.1 hm
        exact h (List.cons.inj he).1
      rw [hz, if_neg h, Nat.zero_add]

/-- A walk finds a node of the document as often as its route can be divided among the segments. -/
theorem count_walk (keyed : Everywhere Keyed doc) :
    ((walk segments doc).map Prod.fst).count route =
      if (doc.get? route).isSome then (divisions segments route).length else 0 := by
  induction route generalizing segments doc with
  | nil =>
    cases segments with
    | nil => rfl
    | cons segment rest =>
      have hz : ((walk (segment :: rest) doc).map Prod.fst).count [] = 0 :=
        List.count_eq_zero.2 fun h => ne_nil_of_mem_walk h rfl
      rw [hz, divisions, List.length_nil, ite_self]
  | cons step route ih =>
    cases segments with
    | nil => simp [walk, divisions]
    | cons segment rest =>
      have here := count_findBelow (walk rest) (nodup_select keyed.here segment.selector) step route
      have deeper := count_findBelow (walk (segment :: rest)) (nodup_children keyed.here) step route
      rw [find_select keyed.here] at here
      rw [find_children] at deeper
      rw [walk_cons, List.map_append, List.count_append, walkHere, here,
        length_divisions_cons, get?]
      cases hc : doc.child? step with
      | none =>
        rw [hc] at deeper
        cases segment.recursive <;> simp [deeper]
      | some child =>
        have hcount : ∀ segments, ((walk segments child).map Prod.fst).count route =
            if (child.get? route).isSome then (divisions segments route).length else 0 :=
          fun _ => ih (keyed.child hc)
        simp only [hc, hcount] at deeper
        rw [Option.bind_some]
        cases picks segment.selector step <;> cases segment.recursive <;>
          cases hr : (child.get? route).isSome <;> simp [deeper, hcount, hr]

end Counts

section Meaning

variable {doc : JsonValue} {segments : List Segment} {path : String}

private theorem encard_readings (segments : List Segment) (doc : JsonValue) (route : JsonRoute) :
    (readings segments doc route).encard =
      if (doc.get? route).isSome then ((divisions segments route).length : ℕ∞) else 0 := by
  by_cases h : (doc.get? route).isSome
  · have hs : readings segments doc route = ↑(divisions segments route).toFinset := by
      ext pieces
      simp [readings, h, mem_divisions]
    rw [if_pos h, hs, Set.encard_coe_eq_coe_finsetCard,
      List.toFinset_card_of_nodup (nodup_divisions segments route)]
  · have hs : readings segments doc route = ∅ := Set.eq_empty_of_forall_notMem fun _ hp => h hp.1
    rw [if_neg h, hs, Set.encard_empty]

/-- A path matches every route of the document as often as it can be read along its segments:
nothing else is matched, nothing is missed, and a path with one recursive segment at most matches
nothing twice. -/
theorem matches_counted_by_readings
    (compiled : JsonPath.compile path = .ok segments) (ne : segments ≠ [])
    (keyed : Everywhere Keyed doc) :
    ∃ found, find path doc = .ok found ∧
      (∀ route, (found.count route : ℕ∞) = (readings segments doc route).encard) ∧
      (∀ route, route ∈ found ↔ (readings segments doc route).Nonempty) ∧
      (segments.countP Segment.recursive ≤ 1 → found.Nodup) := by
  have hfound : find path doc = .ok ((walk segments doc).map Prod.fst) := by
    rw [find, compiled]
    simp only [Except.map, locate, if_neg ne]
  have hcount : ∀ route, (((walk segments doc).map Prod.fst).count route : ℕ∞) =
      (readings segments doc route).encard := by
    intro route
    rw [count_walk keyed, encard_readings]
    split <;> rfl
  refine ⟨_, hfound, hcount, fun route => ?_, fun hr => ?_⟩
  · rw [← List.count_pos_iff, ← Set.encard_pos, ← hcount]
    exact Nat.cast_pos'.symm
  · refine List.nodup_iff_count_le_one.2 fun route => ?_
    rw [count_walk keyed]
    split
    · exact length_divisions_le hr
    · exact Nat.zero_le 1

/-- An object in an array in an object. -/
def nested : JsonValue :=
  .object [(.ofString "a", .array [.object [(.ofString "b", .null)], .null])]

theorem keyed_nested : Everywhere Keyed nested := by
  have inner : Everywhere Keyed (.object [(.ofString "b", .null)]) := by
    refine everywhere_object.2 ⟨List.nodup_singleton _, ?_⟩
    simp only [List.forall_mem_singleton]
    exact (everywhere_leaf rfl).2 trivial
  refine everywhere_object.2 ⟨List.nodup_singleton _, ?_⟩
  simp only [List.forall_mem_singleton]
  refine everywhere_array.2 ⟨trivial, ?_⟩
  simp only [List.forall_mem_cons, List.not_mem_nil, false_implies, implies_true, and_true]
  exact ⟨inner, (everywhere_leaf rfl).2 trivial⟩

/-- Two recursive segments match the innermost member twice. -/
theorem matches_counted_by_readings_nested :
    JsonPath.compile "$..*..*" = .ok [⟨.wildcard, true⟩, ⟨.wildcard, true⟩] ∧
      (∃ found, find "$..*..*" nested = .ok found ∧
        found.count [.key (.ofString "a"), .index 0, .key (.ofString "b")] = 2 ∧
        (readings [⟨.wildcard, true⟩, ⟨.wildcard, true⟩] nested
          [.key (.ofString "a"), .index 0, .key (.ofString "b")]).encard = 2) := by
  have compiled : JsonPath.compile "$..*..*" = .ok [⟨.wildcard, true⟩, ⟨.wildcard, true⟩] := by
    decide +kernel
  obtain ⟨found, hf, hcount, -⟩ := matches_counted_by_readings compiled (by decide) keyed_nested
  have twice : found.count [.key (.ofString "a"), .index 0, .key (.ofString "b")] = 2 := by
    have hrun :
      (find "$..*..*" nested).map (·.count [.key (.ofString "a"), .index 0, .key (.ofString "b")]) =
      .ok 2 := by decide +kernel
    rw [hf] at hrun
    exact Except.ok.inj hrun
  refine ⟨compiled, found, hf, twice, ?_⟩
  rw [← hcount, twice]
  rfl

end Meaning

end BuildAlign.JsonMatches
