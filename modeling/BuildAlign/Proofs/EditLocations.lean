import BuildAlign.PomModule
import BuildAlign.MessageTexts
import BuildAlign.Proofs.DecimalSpelling
import Mathlib.Data.List.Nodup

/-! # Where the edits of a module go

The version of a dependency is edited at its location, and a property in the section of properties.
The locations of a POM that was read are those of its dependencies, one by one: no two are the same,
and none is among the properties. -/
namespace BuildAlign.ModuleAlignment

/-- Where the value of a property is, in the POM that defines it. -/
def propertyPath (name : String) : String := "properties/" ++ name

/-- Where the version of a dependency is. -/
def versionPath (d : Dependency) : String := optionText d.location ++ "/version"

theorem propertyPath_injective {name name' : String} (h : propertyPath name = propertyPath name') :
    name = name' := by
  have hl := congrArg String.toList h
  simpa [propertyPath, String.toList_inj] using hl

theorem versionPath_injective {d d' : Dependency} (h : versionPath d = versionPath d') :
    optionText d.location = optionText d'.location := by
  have hl := congrArg String.toList h
  simpa [versionPath, String.toList_inj] using hl

/-- The locations tell the versions of dependencies apart from each other and from properties. -/
structure Located (deps : List Dependency) : Prop where
  distinct : (deps.map fun d => optionText d.location).Nodup
  apart : ∀ d ∈ deps, ∀ name, versionPath d ≠ propertyPath name

theorem Located.eq_of_path {deps : List Dependency} (h : Located deps) {d d' : Dependency}
    (hd : d ∈ deps) (hd' : d' ∈ deps) (hp : versionPath d = versionPath d') : d = d' :=
  List.inj_on_of_nodup_map h.distinct hd hd' (versionPath_injective hp)

theorem Located.sublist {deps deps' : List Dependency} (h : Located deps)
    (hs : deps'.Sublist deps) :
    Located deps' :=
  ⟨h.distinct.sublist (hs.map _), fun d hd => h.apart d (hs.subset hd)⟩

/-- A location that begins like a section of dependencies is not among the properties. -/
theorem versionPath_ne_propertyPath {d : Dependency} {location : String}
    (h : d.location = some location)
    (hd : location.toList.head? = some 'd') (name : String) :
    versionPath d ≠ propertyPath name := by
  intro he
  have hl := congrArg (fun s => s.toList.head?) he
  simp [versionPath, propertyPath, h, optionText, List.head?_append, hd] at hl

end BuildAlign.ModuleAlignment

namespace BuildAlign.PomModule
open PomNamespace ModuleAlignment

/-- The path of the dependency with that position in a section. -/
def locationIn (path : String) (i : Nat) : String := path ++ "/dependency[" ++ i.repr ++ "]"

def directPath : String := "dependencies"
def managedPath : String := "dependencyManagement/dependencies"

/-- The section of managed dependencies. -/
def managedSection? (root : XmlNode) : Option XmlNode :=
  (firstNamed? "dependencyManagement" root).bind (firstNamed? "dependencies")

private theorem locationIn_injective {path : String} {i j : Nat}
    (h : locationIn path i = locationIn path j) :
    i = j := by
  have hl := congrArg String.toList h
  simp only [locationIn, String.toList_append, List.append_assoc, List.append_cancel_left_eq,
    List.append_cancel_right_eq, Nat.toList_repr] at hl
  exact DecimalDigits.toDigits_injective hl

theorem mem_dependenciesIn {path : String} {node : Option XmlNode} {d : Dependency} :
    d ∈ dependenciesIn path node ↔ ∃ list i element, node = some list ∧
      (named "dependency" list)[i]? = some element ∧
        d = dependencyAt element (locationIn path i) := by
  cases node with
  | none => simp [dependenciesIn]
  | some list =>
    simp only [dependenciesIn, List.mem_map, Prod.exists, List.mem_zipIdx_iff_getElem?]
    constructor
    · rintro ⟨element, i, he, rfl⟩
      exact ⟨list, i, element, rfl, he, rfl⟩
    · rintro ⟨_, i, element, hl, he, rfl⟩
      cases hl
      exact ⟨element, i, he, rfl⟩

theorem length_dependenciesIn (path : String) (list : XmlNode) :
    (dependenciesIn path (some list)).length = (named "dependency" list).length := by
  rw [dependenciesIn, List.length_map, List.length_zipIdx]

private theorem nodup_dependenciesIn (path : String) (node : Option XmlNode) :
    ((dependenciesIn path node).map fun d => optionText d.location).Nodup := by
  cases node with
  | none => exact List.nodup_nil
  | some list =>
    have hm : (dependenciesIn path (some list)).map (fun d => optionText d.location) =
        ((named "dependency" list).zipIdx.map Prod.snd).map (locationIn path) := by
      simp only [dependenciesIn, List.map_map]
      rfl
    rw [hm, List.zipIdx_map_snd]
    exact (List.nodup_range' 1).map fun i j => locationIn_injective

private theorem location_of_mem {path : String} {node : Option XmlNode} {d : Dependency}
    (h : d ∈ dependenciesIn path node) : ∃ i, d.location = some (locationIn path i) := by
  obtain ⟨list, i, element, -, -, rfl⟩ := mem_dependenciesIn.1 h
  exact ⟨i, rfl⟩

/-- The dependencies have locations in their sections, no two the same one. -/
structure ReadLocations (m : PomModule) : Prop where
  managed : ∀ d ∈ m.management, ∃ i, d.location = some (locationIn managedPath i)
  direct : ∀ d ∈ m.dependencies, ∃ i, d.location = some (locationIn directPath i)
  distinct : ((m.management ++ m.dependencies).map fun d => optionText d.location).Nodup

theorem ReadLocations.located {m : PomModule} (h : ReadLocations m) :
    Located (m.management ++ m.dependencies) := by
  refine ⟨h.distinct, fun d hd name => ?_⟩
  rcases List.mem_append.1 hd with hd | hd
  · obtain ⟨i, hi⟩ := h.managed d hd
    exact versionPath_ne_propertyPath hi (by simp [locationIn, managedPath]) name
  · obtain ⟨i, hi⟩ := h.direct d hd
    exact versionPath_ne_propertyPath hi (by simp [locationIn, directPath]) name

private theorem readLocations_ofRoot (root : XmlNode) : ReadLocations (ofRoot root) := by
  have hm : (ofRoot root).management = dependenciesIn managedPath (managedSection? root) := rfl
  have hd : (ofRoot root).dependencies =
    dependenciesIn directPath (firstNamed? "dependencies" root) := rfl
  refine ⟨fun d h => location_of_mem h, fun d h => location_of_mem h, ?_⟩
  rw [hm, hd, List.map_append]
  refine List.nodup_append.2 ⟨nodup_dependenciesIn .., nodup_dependenciesIn .., ?_⟩
  intro a ha b hb hab
  obtain ⟨d, hd, rfl⟩ := List.mem_map.1 ha
  obtain ⟨e, he, rfl⟩ := List.mem_map.1 hb
  obtain ⟨i, hi⟩ := location_of_mem hd
  obtain ⟨j, hj⟩ := location_of_mem he
  rw [hi, hj] at hab
  have hl := congrArg (fun s => s.toList[9]?) hab
  simp [optionText, locationIn, managedPath, directPath] at hl

/-- The locations in a POM that was read are all different, and none is that of a property. -/
theorem located_ofRoot (root : XmlNode) :
    Located ((ofRoot root).management ++ (ofRoot root).dependencies) :=
      (readLocations_ofRoot root).located

end BuildAlign.PomModule
