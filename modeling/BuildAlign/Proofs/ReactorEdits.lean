import BuildAlign.Proofs.MergedResults
import BuildAlign.Proofs.NearestAncestors
import BuildAlign.Proofs.PassOutputs
import BuildAlign.Proofs.PomTextEdits

/-! # The edits of all modules

Every edit that alignment writes down is of a POM it has read, at a path that was taken from that
POM.  Merging the modules only leaves edits out, and none of them moves what another one is
about. -/
namespace BuildAlign.InheritedProperties

/-- Every property in the scope is one that a module defines, the one that is named as its owner. -/
def Owned (modules : List PomModule) (scope : PropertyScope) : Prop :=
  ∀ name d, scope.get? name = some d →
    ∃ p ∈ modules, p.target = d.owner ∧ p.properties.get? name = some d.value

variable {modules : List PomModule} {scope : PropertyScope} {m p : PomModule}

theorem Owned.define (h : Owned modules scope) (hm : m ∈ modules) :
    Owned modules (scope.define m) := by
  intro name d hd
  rw [get?_define, Option.or_eq_some_iff] at hd
  rcases hd with hd | ⟨-, hd⟩
  · obtain ⟨hv, ht⟩ := ownDefinition?_eq_some_iff.1 hd
    exact ⟨m, hm, ht, hv⟩
  · exact h name d hd

private theorem mem_of_reactor {key : String} (h : (reactorOf modules).get? key = some p) :
    p ∈ modules := by
  obtain ⟨m, hm, he⟩ := List.mem_map.1 (OrderedMap.mem_of_get?_ofList h)
  cases he
  exact hm

private theorem mem_of_parent (h : parent? (reactorOf modules) m = some p) : p ∈ modules := by
  unfold parent? at h
  split at h
  · cases h
  · cases h
  · exact mem_of_reactor h

private theorem mem_of_chain {seen : List String} (h : p ∈ chain (reactorOf modules) seen m) :
    p ∈ modules := by
  fun_induction chain (reactorOf modules) seen m with
  | case1 => simp at h
  | case2 => simp at h
  | case3 seen m p' hp hs _ ih =>
    rcases List.mem_cons.1 h with rfl | h
    · exact mem_of_parent hp
    · exact ih h

theorem owned_inherited (modules : List PomModule) (m : PomModule) :
    Owned modules (inherited (reactorOf modules) m) := by
  intro name d hd
  rw [get?_inherited] at hd
  obtain ⟨p, hp, ho⟩ := List.exists_of_findSome?_eq_some hd
  obtain ⟨hv, ht⟩ := ownDefinition?_eq_some_iff.1 ho
  exact ⟨p, mem_of_chain hp, ht, hv⟩

end BuildAlign.InheritedProperties

namespace BuildAlign.ModuleAlignment
open PropertyReferences

/-- A property that is edited for a dependency is one of the scope. -/
theorem Changes.scope_get? {settings : AlignmentSettings} {m : PomModule} {scope : PropertyScope}
    {d : Dependency} {name decided : String} (h : Changes settings m scope d (some name) decided) :
    ∃ definition, scope.get? name = some definition := by
  obtain ⟨current, hv⟩ := h.decision
  obtain ⟨reference, version, strict, hc, -, -, -, hr, -⟩ := change_spec hv
  have he : resolveName scope.values version = some name := by
    have he := h.edited
    rwa [editedName?, hc.declared] at he
  rw [refersOutside, he] at hr
  exact OrderedMap.contains_iff.1 (by simpa using hr)

/-- A property that has a new version is one that the module named as its owner defines. -/
theorem Account.exists_owner {settings : AlignmentSettings}
    {modules : List PomModule} {m : PomModule}
    {scope : PropertyScope} {done : List Dependency} {r : AlignmentResult}
    (ha : Account settings m scope done r)
    (ho : InheritedProperties.Owned modules scope) {name version : String}
    (hu : r.updates.get? name = some version) :
    ∃ p ∈ modules, p.target = ownerOf m scope name ∧
      ∃ value, p.properties.get? name = some value := by
  obtain ⟨-, d, -, hc⟩ := ha.posted name version hu
  obtain ⟨definition, hs⟩ := hc.scope_get?
  obtain ⟨p, hp, ht, hv⟩ := ho name definition hs
  refine ⟨p, hp, ?_, definition.value, hv⟩
  rw [ownerOf, hs, ht, Option.map_some, Option.getD_some]

/-- Whether a module can be aligned does not depend on the candidates it receives. -/
theorem align_ok {settings : AlignmentSettings} {m : PomModule} {injects : Bool}
    {inherited : PropertyScope}
    {r : AlignmentResult} (h : (align settings m injects inherited).1 = .ok r) (injects' : Bool) :
    ∃ r', (align settings m injects' inherited).1 = .ok r' := by
  obtain ⟨r₀, hr, -⟩ := align_eq_ok_iff.1 h
  exact ⟨_, align_eq_ok_iff.2 ⟨r₀, hr, rfl⟩⟩

/-- Where violations are not fatal, every module can be aligned. -/
theorem align_ok_of_tolerant {settings : AlignmentSettings} (h : settings.violationFails = false)
    (m : PomModule) (injects : Bool) (inherited : PropertyScope) :
    ∃ r, (align settings m injects inherited).1 = .ok r := by
  obtain ⟨r₀, hr⟩ := alignAll_ok_of_tolerant h m (inherited.define m) (considered settings m) ∅
  exact ⟨_, align_eq_ok_iff.2 ⟨r₀, hr, rfl⟩⟩

end BuildAlign.ModuleAlignment

namespace BuildAlign.BuildPass
open ModuleAlignment InheritedProperties PomModule PomNamespace

variable {settings : AlignmentSettings} {poms : List LoadedModule} {pom : LoadedModule}

theorem ends_alignModules_cons {options : PassOptions} {reactor : Reactor}
    {m : PomModule} {ms : List PomModule}
    {isRoot : Bool} {r s result : AlignmentResult} {disk : Disk}
    (h : (align settings m isRoot (inherited reactor m)).1 = .ok s)
    (he : Ends (alignModules options settings reactor false ms (r.merge s)) disk result disk) :
    Ends (alignModules options settings reactor isRoot (m :: ms) r) disk result disk := by
  rcases hp : align settings m isRoot (inherited reactor m) with ⟨outcome, log⟩
  rw [hp] at h
  cases h
  simp only [alignModules, hp]
  exact (ends_reportLog options log disk).bind he

/-- When no module violates the policy, all are aligned, and what every merge keeps holds at the
end. -/
theorem ends_alignModules (Inv : AlignmentResult → Prop) (options : PassOptions) {reactor : Reactor}
    {ms : List PomModule}
    (accepted : ∀ m ∈ ms, ∃ injects r, (align settings m injects (inherited reactor m)).1 = .ok r)
    (step : ∀ m ∈ ms, ∀ injects r s,
      (align settings m injects (inherited reactor m)).1 = .ok s → Inv r →
      Inv (r.merge s))
    (isRoot : Bool) {r : AlignmentResult} (h : Inv r) :
    ∃ result, Inv result ∧ ∀ disk,
      Ends (alignModules options settings reactor isRoot ms r) disk result disk := by
  induction ms generalizing isRoot r with
  | nil => exact ⟨r, h, fun disk => ends_pure r disk⟩
  | cons m ms ih =>
    obtain ⟨injects, s, ha⟩ := accepted m List.mem_cons_self
    obtain ⟨s, hs⟩ := align_ok ha isRoot
    obtain ⟨result, hi, he⟩ := ih (fun m hm => accepted m (List.mem_cons_of_mem _ hm))
      (fun m hm => step m (List.mem_cons_of_mem _ hm)) false
        (step m List.mem_cons_self isRoot r s hs h)
    exact ⟨result, hi, fun disk => ends_alignModules_cons hs (he disk)⟩

def leaf (label text : String) : XmlNode := .element ⟨some pomSpace, label⟩ [] text []

def node (label : String) (children : List XmlNode) : XmlNode :=
  .element ⟨some pomSpace, label⟩ [] "" (children.map fun child => (child, ""))

def parentTree : XmlNode :=
  node "project" [leaf "groupId" "g", leaf "artifactId" "parent",
    node "properties" [leaf "v" "1.0"]]

def childTree : XmlNode :=
  node "project" [node "parent" [leaf "groupId" "g", leaf "artifactId" "parent"],
    leaf "artifactId" "child",
    node "dependencies" [
      node "dependency" [leaf "groupId" "g", leaf "artifactId" "a", leaf "version" "$\x7bv\x7d"],
      node "dependency" [leaf "groupId" "g", leaf "artifactId" "b", leaf "version" "1.0"]]]

def parentModule : PomModule := { ofRoot parentTree with directory := some "." }

def childModule : PomModule := { ofRoot childTree with directory := some "child" }

end BuildAlign.BuildPass
