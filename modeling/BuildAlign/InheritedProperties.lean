import BuildAlign.PomModule

/-! # Properties inherited from parent POMs

Parents are looked up among the modules of the project by their coordinates.  A nearer parent
overrides a farther one, and a chain of parents ends where it would come back to a module it has
passed. -/

/-! ## What a search has not come to yet

A search that marks what it has seen ends, since every new mark leaves less to come to. -/
namespace BuildAlign.RemainingElements
variable {α : Type} [DecidableEq α]

def remaining (l seen : List α) : List α := l.filter fun a => !seen.contains a

private theorem remaining_cons (l seen : List α) (a : α) :
    remaining l (a :: seen) = (remaining l seen).filter fun b => b != a := by
  simp only [remaining, List.filter_filter]
  refine List.filter_congr fun b _ => ?_
  by_cases h : b = a <;> simp [h]

theorem length_remaining_cons_le (l seen : List α) (a : α) :
    (remaining l (a :: seen)).length ≤ (remaining l seen).length := by
  rw [remaining_cons]
  exact List.length_filter_le _ _

theorem length_remaining_cons_lt {l seen : List α} {a : α} (ha : a ∈ l) (hs : ¬a ∈ seen) :
    (remaining l (a :: seen)).length < (remaining l seen).length := by
  have hm : a ∈ remaining l seen := by simp [remaining, ha, hs]
  rw [remaining_cons]
  exact List.length_filter_lt_length_iff_exists.2 ⟨a, hm, by simp⟩

theorem lex_of_le {a b c d : Nat} (h : a ≤ b) (h' : c < d) :
    Prod.Lex (· < ·) (· < ·) (a, c) (b, d) := by
  rcases Nat.lt_or_eq_of_le h with h | rfl
  · exact Prod.Lex.left _ _ h
  · exact Prod.Lex.right _ h'

end BuildAlign.RemainingElements

/-! ## Scopes and parents -/
namespace BuildAlign

/-- The value of a property and the POM that defines it. -/
structure Definition where
  value : String
  owner : String
deriving DecidableEq, Repr

abbrev PropertyScope := OrderedMap String Definition

/-- The modules of a project by their coordinates. -/
abbrev Reactor := OrderedMap String PomModule

/-- The values of a scope, without their owners. -/
def PropertyScope.values (scope : PropertyScope) : OrderedMap String (Option String) :=
  scope.mapValues fun d => some d.value

/-- The scope with the properties of a module in the place of others of the same names. -/
def PropertyScope.define (scope : PropertyScope) (m : PomModule) : PropertyScope :=
  m.properties.entries.foldl (fun s (name, value) => s.insert name ⟨value, m.target⟩) scope

namespace InheritedProperties
open RemainingElements

def reactorOf (modules : List PomModule) : Reactor :=
  OrderedMap.ofList (modules.map fun m => (m.ga, m))

/-- The parent of a module, if it belongs to the project.  One without an artifact is no parent. -/
def parent? (reactor : Reactor) (m : PomModule) : Option PomModule :=
  match m.parentArtifact with
  | none | some "" => none
  | some artifact => reactor.get? (coordinateKey (m.parentGroup.getD "None") artifact)

private theorem mem_of_get? {reactor : Reactor} {key : String} {p : PomModule}
    (h : reactor.get? key = some p) : p.ga ∈ reactor.entries.map fun (_, m) => m.ga := by
  obtain ⟨l, hl⟩ := reactor
  simp only [OrderedMap.get?] at h
  induction l with
  | nil => simp [OrderedMap.find] at h
  | cons e l ih =>
    obtain ⟨k, m⟩ := e
    simp only [OrderedMap.find] at h
    split at h
    · simp only [Option.some.injEq] at h; simp [h]
    · exact List.mem_cons_of_mem _ (ih (List.nodup_cons.1 hl).2 h)

theorem mem_of_parent? {reactor : Reactor} {m p : PomModule} (h : parent? reactor m = some p) :
    p.ga ∈ reactor.entries.map fun (_, m) => m.ga := by
  unfold parent? at h
  split at h
  · simp at h
  · simp at h
  · exact mem_of_get? h

/-- The ancestors of a module, the nearest first.  None of them is in `seen`. -/
def chain (reactor : Reactor) (seen : List String) (m : PomModule) : List PomModule :=
  match h : parent? reactor m with
  | none => []
  | some p =>
    if hs : p.ga ∈ seen then []
    else
      have := length_remaining_cons_lt (mem_of_parent? h) hs
      p :: chain reactor (p.ga :: seen) p
termination_by (remaining (reactor.entries.map fun (_, m) => m.ga) seen).length

/-- The properties that a module inherits. -/
def inherited (reactor : Reactor) (m : PomModule) : PropertyScope :=
  (chain reactor [m.ga] m).reverse.foldl PropertyScope.define ∅

end InheritedProperties
end BuildAlign
