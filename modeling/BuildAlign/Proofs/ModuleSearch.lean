import BuildAlign.Proofs.PathPlaces
import Mathlib.Data.List.Nodup

/-! # The steps of the search of modules

The search marks a directory before it looks into it, so it looks into none twice.  It puts the
modules that a POM names in front of what is waiting, and when nothing waits any more, all that the
POMs found name has been looked into. -/
namespace BuildAlign
open ProjectPath

/-- Where the directory of a module lies. -/
def LoadedModule.place (disk : Disk) (project : ProjectPath) (pom : LoadedModule) : Location :=
  ModuleDiscovery.placeOf disk project (pom.module.directory.getD ".")

namespace ModuleDiscovery

variable {disk : Disk} {project : ProjectPath} {visited : List Location} {pending : List String}
  {directory text : String} {pom : LoadedModule} {search : Discovery}

theorem load_eq_ok (h : LoadedModule.load directory text = .ok pom) :
    XmlReader.read text = .ok pom.tree ∧
      pom.module = { PomModule.ofRoot pom.tree with directory := some directory } := by
  unfold LoadedModule.load at h
  cases hr : XmlReader.read text with
  | error cause =>
    rw [hr] at h
    cases h
  | ok tree =>
    rw [hr] at h
    cases h
    exact ⟨rfl, rfl⟩

theorem place_of_load (h : LoadedModule.load directory text = .ok pom) :
    pom.place disk project = placeOf disk project directory := by
  rw [LoadedModule.place, (load_eq_ok h).2]
  rfl

section Steps

/-- The path of the POM of a directory. -/
def pomPath (project : ProjectPath) (directory : String) : ProjectPath :=
  (project.child directory).child pomFile

/-- Why the search does not get past a directory. -/
inductive Blocked (disk : Disk) (project : ProjectPath) (directory : String) : PassFault → Prop
  | directory (h : disk.lookup (pomPath project directory) = .directory) :
    Blocked disk project directory (.directory (pomPath project directory).text)
  | tooLong (h : disk.lookup (pomPath project directory) = .tooLong) :
    Blocked disk project directory (.tooLong (pomPath project directory).text)
  /-- The POM is not well formed, or in an encoding that cannot be read. -/
  | unreadable {text : String} {cause : XmlFault}
    (h : disk.lookup (pomPath project directory) = .file text)
    (hl : LoadedModule.load directory text = .error cause) :
      Blocked disk project directory (.xml cause)

theorem discover_known (known : placeOf disk project directory ∈ visited) (rest : List String) :
    discover disk project visited (directory :: rest) = discover disk project visited rest := by
  rw [discover]
  exact if_pos known

/-- A directory that is not marked is looked into. -/
theorem discover_fresh (fresh : placeOf disk project directory ∉ visited) (rest : List String) :
    discover disk project visited (directory :: rest) =
      match disk.lookup (pomPath project directory) with
      | .absent =>
        let later := discover disk project (placeOf disk project directory :: visited) rest
        { later with skipped := directory :: later.skipped }
      | .directory => ⟨[], [], some (.directory (pomPath project directory).text)⟩
      | .tooLong => ⟨[], [], some (.tooLong (pomPath project directory).text)⟩
      | .file text =>
        match LoadedModule.load directory text with
        | .error cause => ⟨[], [], some (.xml cause)⟩
        | .ok loaded =>
          let later := discover disk project (placeOf disk project directory :: visited)
            (loaded.module.modules.map (relative directory) ++ rest)
          { later with found := loaded :: later.found } := by
  rw [discover, pomPath]
  refine (if_neg fresh).trans ?_
  split
  · next h =>
    rw [h]
    rfl
  · next h => rw [h]
  · next h => rw [h]
  · next h =>
    rw [h]
    rfl

theorem discover_blocked {fault : PassFault} (fresh : placeOf disk project directory ∉ visited)
    (h : Blocked disk project directory fault) (rest : List String) :
    discover disk project visited (directory :: rest) = ⟨[], [], some fault⟩ := by
  rw [discover_fresh fresh]
  cases h with
  | directory h => rw [h]
  | tooLong h => rw [h]
  | unreadable h hl => simp only [h, hl]

theorem discover_enter (fresh : placeOf disk project directory ∉ visited)
    (present : disk.lookup (pomPath project directory) = .file text)
    (hl : LoadedModule.load directory text = .ok pom) (rest : List String) :
    discover disk project visited (directory :: rest) =
      let later := discover disk project (placeOf disk project directory :: visited)
        (pom.module.modules.map (relative directory) ++ rest)
      { later with found := pom :: later.found } := by
  simp only [discover_fresh fresh, present, hl]

/-- The search by its steps: a directory is known, holds no POM, blocks the search, or is
entered. -/
theorem discover_induction {motive : List Location → List String → Discovery → Prop}
    (finished : ∀ visited, motive visited [] ⟨[], [], none⟩)
    (known : ∀ visited directory rest search, placeOf disk project directory ∈ visited →
      motive visited rest search → motive visited (directory :: rest) search)
    (skip : ∀ visited directory rest (search : Discovery),
      placeOf disk project directory ∉ visited →
      disk.lookup (pomPath project directory) = .absent →
      motive (placeOf disk project directory :: visited) rest search →
      motive visited (directory :: rest) { search with skipped := directory :: search.skipped })
    (stop : ∀ visited directory rest fault, placeOf disk project directory ∉ visited →
      Blocked disk project directory fault →
        motive visited (directory :: rest) ⟨[], [], some fault⟩)
    (enter : ∀ visited directory rest text pom (search : Discovery),
      placeOf disk project directory ∉ visited →
      disk.lookup (pomPath project directory) = .file text →
        LoadedModule.load directory text = .ok pom →
      motive (placeOf disk project directory :: visited)
        (pom.module.modules.map (relative directory) ++ rest) search →
      motive visited (directory :: rest) { search with found := pom :: search.found })
    (visited : List Location) (pending : List String) :
    motive visited pending (discover disk project visited pending) := by
  fun_induction discover disk project visited pending with
  | case1 visited => exact finished visited
  | case2 visited directory rest _ _ known' ih => exact known visited directory rest _ known' ih
  | case3 visited directory rest _ _ _ fresh h _ ih =>
    exact skip visited directory rest _ fresh h ih
  | case4 visited directory rest _ _ _ fresh h =>
    exact stop visited directory rest _ fresh (.directory h)
  | case5 visited directory rest _ _ _ fresh h =>
    exact stop visited directory rest _ fresh (.tooLong h)
  | case6 visited directory rest _ _ _ fresh text h cause hl =>
    exact stop visited directory rest _ fresh (.unreadable h hl)
  | case7 visited directory rest _ _ _ fresh text h pom hl _ _ ih =>
    exact enter visited directory rest text pom _ fresh h hl ih

/-- The places that a search has looked into. -/
def places (disk : Disk) (project : ProjectPath) (search : Discovery) : List Location :=
  search.found.map (LoadedModule.place disk project) ++ search.skipped.map (placeOf disk project)

/-- What holds of a search whatever the modules are: it looks only into places that were not marked,
into each once, and unless it is blocked, into all that are waiting or named by what it finds. -/
structure Explores (disk : Disk) (project : ProjectPath) (visited : List Location)
    (pending : List String)
    (search : Discovery) : Prop where
  fresh : ∀ l ∈ places disk project search, l ∉ visited
  distinct : (places disk project search).Nodup
  covered : search.fault = none → ∀ directory ∈ pending,
    placeOf disk project directory ∈ visited ∨
      placeOf disk project directory ∈ places disk project search
  closed : search.fault = none → ∀ pom ∈ search.found, ∀ name ∈ pom.module.modules,
    placeOf disk project (relative (pom.module.directory.getD ".") name) ∈ visited ∨
      placeOf disk project (relative (pom.module.directory.getD ".") name) ∈
        places disk project search
  loaded : ∀ pom ∈ search.found, ∃ directory text,
    disk.lookup (pomPath project directory) = .file text ∧
    LoadedModule.load directory text = .ok pom
  skipped : ∀ directory ∈ search.skipped, disk.lookup (pomPath project directory) = .absent

/-- Marking a place before or finding it later comes to the same. -/
theorem shift {l p : Location} {later : List Location} (h : l ∈ p :: visited ∨ l ∈ later) :
    l ∈ visited ∨ l = p ∨ l ∈ later := by
  rcases h with h | h
  · rcases List.mem_cons.1 h with h | h
    · exact .inr (.inl h)
    · exact .inl h
  · exact .inr (.inr h)

private theorem Explores.skip {rest : List String}
    (h : Explores disk project (placeOf disk project directory :: visited) rest search)
    (fresh : placeOf disk project directory ∉ visited)
    (absent : disk.lookup (pomPath project directory) = .absent) :
    Explores disk project visited (directory :: rest)
      { search with skipped := directory :: search.skipped } := by
  have hplaces :
    ∀ l, l ∈ places disk project { search with skipped := directory :: search.skipped } ↔
      l = placeOf disk project directory ∨ l ∈ places disk project search := by
    intro l
    simp only [places, List.map_cons, List.mem_append, List.mem_cons]
    exact or_left_comm
  refine ⟨fun l hl => ?_, ?_, fun hf d hd => ?_, fun hf pom hp name hn => ?_, h.loaded,
    List.forall_mem_cons.2 ⟨absent, h.skipped⟩⟩
  · rcases (hplaces l).1 hl with rfl | hl
    · exact fresh
    · exact fun hv => h.fresh l hl (List.mem_cons_of_mem _ hv)
  · have hnew : placeOf disk project directory ∉ places disk project search :=
      fun hm => h.fresh _ hm List.mem_cons_self
    exact List.nodup_middle.2 (List.nodup_cons.2 ⟨hnew, h.distinct⟩)
  · rw [hplaces]
    rcases List.mem_cons.1 hd with rfl | hd
    · exact .inr (.inl rfl)
    · exact shift (h.covered hf d hd)
  · rw [hplaces]
    exact shift (h.closed hf pom hp name hn)

private theorem Explores.enter {rest : List String}
    (h : Explores disk project (placeOf disk project directory :: visited)
      (pom.module.modules.map (relative directory) ++ rest) search)
    (fresh : placeOf disk project directory ∉ visited)
    (present : disk.lookup (pomPath project directory) = .file text)
    (hl : LoadedModule.load directory text = .ok pom) :
    Explores disk project visited (directory :: rest)
      { search with found := pom :: search.found } := by
  have hplaces : places disk project { search with found := pom :: search.found } =
      placeOf disk project directory :: places disk project search := by
    rw [← place_of_load hl]
    rfl
  have hdirectory : pom.module.directory.getD "." = directory := by rw [(load_eq_ok hl).2]; rfl
  refine ⟨fun l hm => ?_, ?_, fun hf d hd => ?_, fun hf pom' hp name hn => ?_,
    List.forall_mem_cons.2 ⟨⟨directory, text, present, hl⟩, h.loaded⟩, h.skipped⟩
  · rw [hplaces] at hm
    rcases List.mem_cons.1 hm with rfl | hm
    · exact fresh
    · exact fun hv => h.fresh l hm (List.mem_cons_of_mem _ hv)
  · rw [hplaces]
    exact List.nodup_cons.2 ⟨fun hm => h.fresh _ hm List.mem_cons_self, h.distinct⟩
  · rw [hplaces, List.mem_cons]
    rcases List.mem_cons.1 hd with rfl | hd
    · exact .inr (.inl rfl)
    · exact shift (h.covered hf d (List.mem_append_right _ hd))
  · rw [hplaces, List.mem_cons]
    rcases List.mem_cons.1 hp with rfl | hp
    · rw [hdirectory]
      exact shift (h.covered hf _ (List.mem_append_left _ (List.mem_map_of_mem hn)))
    · exact shift (h.closed hf pom' hp name hn)

theorem explores_discover (disk : Disk) (project : ProjectPath) (visited : List Location)
    (pending : List String) :
    Explores disk project visited pending (discover disk project visited pending) := by
  refine discover_induction ?_ ?_ ?_ ?_ ?_ visited pending
  · intro visited
    exact ⟨nofun, List.nodup_nil, fun _ => nofun, fun _ => nofun, nofun, nofun⟩
  · intro visited directory rest search known h
    refine ⟨h.fresh, h.distinct, fun hf d hd => ?_, h.closed, h.loaded, h.skipped⟩
    rcases List.mem_cons.1 hd with rfl | hd
    · exact .inl known
    · exact h.covered hf d hd
  · intro visited directory rest search fresh absent h
    exact h.skip fresh absent
  · intro visited directory rest fault fresh blocked
    exact ⟨nofun, List.nodup_nil, nofun, nofun, nofun, nofun⟩
  · intro visited directory rest text pom search fresh present hl h
    exact h.enter fresh present hl

end Steps

end ModuleDiscovery
end BuildAlign
