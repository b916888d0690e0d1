import BuildAlign.InheritedProperties
import BuildAlign.Proofs.OrderedMapLookup
import Mathlib.Data.List.Induction
import Mathlib.Data.List.Nodup
import Mathlib.Data.List.Perm.Subperm

/-! # The nearest ancestor

From a module the parents are climbed one by one.  They may be linked in any way, in circles too: no
module is passed twice, so the climb ends.  A property that several of the ancestors define is
inherited from the nearest of them, with its value there and the POM it is in. -/
namespace BuildAlign.InheritedProperties

variable {reactor : Reactor} {m p : PomModule} {passed : List PomModule} {seen : List String}

section Climbing

/-- The modules that are passed on the way up, the nearest first.  The climb goes on from the last
of them to its parent, unless that has the coordinates of a module which was passed already or of
the one below. -/
inductive Climb (reactor : Reactor) (m : PomModule) : List PomModule → Prop
  | start : Climb reactor m []
  | up {passed : List PomModule} {p : PomModule} (climb : Climb reactor m passed)
    (parent : parent? reactor (passed.getLastD m) = some p)
      (fresh : p.ga ∉ (m :: passed).map PomModule.ga) :
    Climb reactor m (passed ++ [p])

/-- All ancestors that a module inherits from, the nearest first. -/
def ancestors (reactor : Reactor) (m : PomModule) : List PomModule := chain reactor [m.ga] m

theorem chain_of_parent (h : parent? reactor m = some p) (fresh : p.ga ∉ seen) :
    chain reactor seen m = p :: chain reactor (p.ga :: seen) p := by
  rw [chain]
  split
  · next hn => rw [h] at hn; cases hn
  · next p' hp =>
    rw [h] at hp
    cases hp
    rw [dif_neg fresh]

private theorem parent_of_chain {rest : List PomModule} (h : chain reactor seen m = p :: rest) :
    parent? reactor m = some p ∧ p.ga ∉ seen := by
  rw [chain] at h
  split at h
  · cases h
  · next p' hp =>
    split at h
    · cases h
    · next hs =>
      cases h
      exact ⟨hp, hs⟩

/-- What has been climbed is the beginning of the chain, which goes on from the last module
passed. -/
theorem Climb.chain_eq (h : Climb reactor m passed) :
    ancestors reactor m =
      passed ++ chain reactor ((m :: passed).map PomModule.ga).reverse (passed.getLastD m) := by
  induction h with
  | start => rfl
  | @up passed p climb parent fresh ih =>
    rw [ih, chain_of_parent parent (mt List.mem_reverse.1 fresh),
      List.getLastD_concat, ← List.cons_append,
      List.map_append, List.reverse_append, List.append_assoc]
    rfl

/-- The climb comes to every beginning of the chain and to nothing else. -/
theorem climb_iff : Climb reactor m passed ↔ passed <+: ancestors reactor m := by
  constructor
  · intro h
    rw [h.chain_eq]
    exact List.prefix_append _ _
  · intro h
    induction passed using List.reverseRecOn with
    | nil => exact .start
    | append_singleton passed p ih =>
      have climb := ih ((List.prefix_append passed [p]).trans h)
      obtain ⟨rest, hr⟩ := h
      rw [climb.chain_eq, List.append_assoc, List.append_cancel_left_eq] at hr
      obtain ⟨parent, fresh⟩ := parent_of_chain hr.symm
      exact climb.up parent (mt List.mem_reverse.2 fresh)

/-- No two of the modules passed have the same coordinates, nor does the one below. -/
theorem Climb.nodup (h : Climb reactor m passed) : ((m :: passed).map PomModule.ga).Nodup := by
  induction h with
  | start => exact List.nodup_singleton _
  | @up passed p climb parent fresh ih =>
    rw [← List.cons_append, List.map_append]
    refine List.nodup_append.2 ⟨ih, List.nodup_singleton _, fun key hk other ho => ?_⟩
    rw [List.mem_singleton.1 ho]
    exact fun he => fresh (he ▸ hk)

theorem Climb.known (h : Climb reactor m passed) :
    passed.map PomModule.ga ⊆ reactor.entries.map fun (_, p) => p.ga := by
  induction h with
  | start => exact List.nil_subset _
  | up climb parent fresh ih =>
    rw [List.map_append]
    exact List.append_subset.2 ⟨ih, List.cons_subset.2 ⟨mem_of_parent? parent, List.nil_subset _⟩⟩

/-- There are no more steps than modules in the project. -/
theorem Climb.length_le (h : Climb reactor m passed) : passed.length ≤ reactor.entries.length := by
  have hs := (List.subperm_of_subset (List.nodup_cons.1 h.nodup).2 h.known).length_le
  rwa [List.length_map, List.length_map] at hs

end Climbing

section Definitions

/-- What a module itself says of a property. -/
def ownDefinition? (m : PomModule) (name : String) : Option Definition :=
  (m.properties.get? name).map fun value => ⟨value, m.target⟩

/-- The properties of a module come before those that were in scope. -/
theorem get?_define (scope : PropertyScope) (m : PomModule) (name : String) :
    (scope.define m).get? name = (ownDefinition? m name).or (scope.get? name) := by
  let own : PropertyScope := m.properties.mapValues fun value => ⟨value, m.target⟩
  have hd : scope.define m = scope.insertAll own.entries := by
    simp only [PropertyScope.define, OrderedMap.insertAll, own,
      OrderedMap.mapValues, List.foldl_map]
  have hown : own.get? name = ownDefinition? m name := OrderedMap.get?_mapValues ..
  rw [hd, OrderedMap.get?_insertAll_of_nodup own.distinct, ← hown]
  rfl

/-- Of modules that are defined from the farthest to the nearest, the nearest one counts. -/
theorem get?_foldl_define (modules : List PomModule) (scope : PropertyScope) (name : String) :
    (modules.reverse.foldl PropertyScope.define scope).get? name =
      (modules.findSome? fun p => ownDefinition? p name).or (scope.get? name) := by
  induction modules with
  | nil => rfl
  | cons p modules ih =>
    rw [List.reverse_cons, List.foldl_append, List.foldl_cons, List.foldl_nil, get?_define,
      ih, List.findSome?_cons]
    cases ownDefinition? p name <;> rfl

theorem get?_inherited (reactor : Reactor) (m : PomModule) (name : String) :
    (inherited reactor m).get? name = (ancestors reactor m).findSome? fun p =>
      ownDefinition? p name := by
  rw [inherited, get?_foldl_define, OrderedMap.get?_emptyCollection, Option.or_none]
  rfl

theorem ownDefinition?_eq_some_iff {name : String} {definition : Definition} :
    ownDefinition? m name = some definition ↔
      m.properties.get? name = some definition.value ∧ m.target = definition.owner := by
  rw [ownDefinition?, Option.map_eq_some_iff]
  constructor
  · rintro ⟨value, hv, rfl⟩
    exact ⟨hv, rfl⟩
  · rintro ⟨hv, ht⟩
    exact ⟨definition.value, hv, by rw [ht]⟩

private theorem ownDefinition?_eq_none_iff {name : String} :
    ownDefinition? m name = none ↔ m.properties.get? name = none := Option.map_eq_none_iff

end Definitions

/-- However parents are linked, the climb from a module ends, after one step at most for each module
of the project, and passes modules with different coordinates, none of them those of the module
itself.  A property is inherited from the first ancestor that defines it, and from none if there is
no such ancestor. -/
theorem nearest_ancestor_is_inherited (reactor : Reactor) (m : PomModule) :
    (∀ passed, Climb reactor m passed ↔ passed <+: ancestors reactor m) ∧
    (ancestors reactor m).length ≤ reactor.entries.length ∧
    ((m :: ancestors reactor m).map PomModule.ga).Nodup ∧
    (∀ name definition, (inherited reactor m).get? name = some definition ↔
      ∃ nearer p farther, ancestors reactor m = nearer ++ p :: farther ∧
        (p.properties.get? name = some definition.value ∧ p.target = definition.owner) ∧
        ∀ q ∈ nearer, q.properties.get? name = none) ∧
    ∀ name, (inherited reactor m).get? name = none ↔
      ∀ p ∈ ancestors reactor m, p.properties.get? name = none := by
  have climb : Climb reactor m (ancestors reactor m) := climb_iff.2 List.prefix_rfl
  refine ⟨fun passed => climb_iff, climb.length_le, climb.nodup,
    fun name definition => ?_, fun name => ?_⟩
  · rw [get?_inherited, List.findSome?_eq_some_iff]
    simp only [ownDefinition?_eq_some_iff, ownDefinition?_eq_none_iff]
  · rw [get?_inherited, List.findSome?_eq_none_iff]
    simp only [ownDefinition?_eq_none_iff]

/-- A module with that parent, in a directory of its own. -/
def linked (artifact parent : String) (properties : List (String × String)) : PomModule where
  group := "g"
  artifact := artifact
  version := none
  parentGroup := some "g"
  parentArtifact := some parent
  properties := .ofList properties
  dependencies := []
  management := []
  modules := []
  directory := some artifact

def childModule : PomModule := linked "child" "parent" [("u", "1")]
def parentModule : PomModule := linked "parent" "grandparent" [("v", "2")]
def grandparentModule : PomModule := linked "grandparent" "child" [("v", "3"), ("w", "3")]

/-- The parent of the last module is the first one again. -/
def parentCircle : Reactor := reactorOf [childModule, parentModule, grandparentModule]

theorem nearest_ancestor_is_inherited_circle :
    ancestors parentCircle childModule = [parentModule, grandparentModule] ∧
    (inherited parentCircle childModule).get? "v" = some ⟨"2", "parent/pom.xml"⟩ ∧
    (inherited parentCircle childModule).get? "w" = some ⟨"3", "grandparent/pom.xml"⟩ ∧
    (inherited parentCircle childModule).get? "u" = none := by
  have passed : ancestors parentCircle childModule = [parentModule, grandparentModule] := by
    decide +kernel
  obtain ⟨-, -, -, hdefined, hnone⟩ := nearest_ancestor_is_inherited parentCircle childModule
  refine ⟨passed, (hdefined ..).2 ?_, (hdefined ..).2 ?_, (hnone "u").2 ?_⟩
  · exact ⟨[], parentModule, [grandparentModule], passed, by decide, by simp⟩
  · exact ⟨[parentModule], grandparentModule, [], passed, by decide, by decide⟩
  · rw [passed]
    decide

end BuildAlign.InheritedProperties
