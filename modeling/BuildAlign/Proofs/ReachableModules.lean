import BuildAlign.Proofs.ModuleSearch
import BuildAlign.Proofs.PlainDocuments
import Mathlib.Logic.Relation

/-! # The modules that the search finds

A directory is reachable when a chain of modules leads to it, from POM to POM.  The paths that the
search walks along can go round in circles but pass through every directory only once.  So the
search looks into every reachable directory, under one of its paths, unless some POM on the way
cannot be read. -/
namespace BuildAlign.ModuleDiscovery
open ProjectPath
open XmlReader (plainRoot? plainRootIn? plainRoot?_ofList treeOf)

variable {disk : Disk} {project : ProjectPath} {visited : List Location} {pending : List String}
  {directory text : String} {pom : LoadedModule} {search : Discovery}

section Reachability

/-- The modules that the POM of a directory names, if there is one that can be read. -/
def namedAt (disk : Disk) (location : Location) : List String :=
  match disk.files.get? (location ++ [pomFile]) with
  | none => []
  | some text => match XmlReader.read text with
    | .error _ => []
    | .ok root => (PomModule.ofRoot root).modules

/-- The POM of one directory names the other one. -/
def Leads (disk : Disk) (here there : Location) : Prop :=
  ∃ name ∈ namedAt disk here, there = (ofText name).names.foldl Disk.walk here

def HoldsPom (disk : Disk) (location : Location) : Prop :=
  ∃ text, disk.files.get? (location ++ [pomFile]) = some text

/-- A relative path from a directory on, all of whose names are directories. -/
structure Walkable (disk : Disk) (location : Location) (name : String) : Prop where
  anchor : (ofText name).anchor = ""
  plain : '\x00' ∉ name.toList
  walked : disk.follow location (ofText name).names = .directory

instance (disk : Disk) (location : Location) (name : String) :
    Decidable (Walkable disk location name) :=
  decidable_of_iff
    ((ofText name).anchor = "" ∧ '\x00' ∉ name.toList ∧
      disk.follow location (ofText name).names = .directory)
    ⟨fun h => ⟨h.1, h.2.1, h.2.2⟩, fun h => ⟨h.anchor, h.plain, h.walked⟩⟩

/-- How a directory can be spelled: along a chain of modules that has passed through these places,
each once. -/
inductive Spelled (disk : Disk) (project : ProjectPath) : List Location → String → Prop
  | root {name : String} (named : name ∈ namedAt disk (disk.resolve project)) :
    Spelled disk project [] name
  | through {passed : List Location} {directory name : String}
    (h : Spelled disk project passed directory)
    (fresh : placeOf disk project directory ∉ passed)
    (named : name ∈ namedAt disk (placeOf disk project directory)) :
    Spelled disk project (placeOf disk project directory :: passed) (relative directory name)

/-- The search can come to a directory that is spelled like this. -/
def Met (disk : Disk) (project : ProjectPath) (directory : String) : Prop :=
  ∃ passed, Spelled disk project passed directory ∧ placeOf disk project directory ∉ passed

private theorem namedAt_of_load (h : disk.lookup (pomPath project directory) = .file text)
    (hl : LoadedModule.load directory text = .ok pom) :
    namedAt disk (placeOf disk project directory) = pom.module.modules := by
  have hg := Disk.get?_of_lookup h
  rw [pomPath, Disk.resolve_child_pomFile] at hg
  obtain ⟨hr, hm⟩ := load_eq_ok hl
  simp only [namedAt, placeOf, hg, hr, hm]

/-- A directory that waits is spelled along a chain that has passed through marked places only. -/
def Waits (disk : Disk) (project : ProjectPath) (visited : List Location)
    (directory : String) : Prop :=
  ∃ passed, Spelled disk project passed directory ∧ passed ⊆ visited

private theorem Waits.met (h : Waits disk project visited directory)
    (fresh : placeOf disk project directory ∉ visited) :
    Met disk project directory := by
  obtain ⟨passed, hs, hp⟩ := h
  exact ⟨passed, hs, fun hm => fresh (hp hm)⟩

theorem Waits.mark (h : Waits disk project visited directory) (l : Location) :
    Waits disk project (l :: visited) directory := by
  obtain ⟨passed, hs, hp⟩ := h
  exact ⟨passed, hs, List.subset_cons_of_subset l hp⟩

private theorem Waits.through (h : Waits disk project visited directory)
    (fresh : placeOf disk project directory ∉ visited) {name : String}
    (named : name ∈ namedAt disk (placeOf disk project directory)) :
    Waits disk project (placeOf disk project directory :: visited) (relative directory name) := by
  obtain ⟨passed, hs, hp⟩ := h
  exact ⟨_, hs.through (fun hm => fresh (hp hm)) named, List.cons_subset_cons _ hp⟩

/-- Whatever a search finds, skips or is blocked by is spelled along a chain of modules. -/
structure Meets (disk : Disk) (project : ProjectPath) (search : Discovery) : Prop where
  found : ∀ pom ∈ search.found, Met disk project (pom.module.directory.getD ".")
  skipped : ∀ directory ∈ search.skipped, Met disk project directory
  blocked : ∀ fault, search.fault = some fault →
    ∃ directory, Met disk project directory ∧ Blocked disk project directory fault

private theorem meets_discover (disk : Disk) (project : ProjectPath) (visited : List Location)
    (pending : List String)
    (waiting : ∀ directory ∈ pending, Waits disk project visited directory) :
    Meets disk project (discover disk project visited pending) := by
  revert waiting
  refine discover_induction (motive := fun visited pending search =>
    (∀ directory ∈ pending, Waits disk project visited directory) → Meets disk project search)
    ?_ ?_ ?_ ?_ ?_ visited pending
  · intro visited _
    exact ⟨nofun, nofun, nofun⟩
  · intro visited directory rest search _ ih waiting
    exact ih (List.forall_mem_cons.1 waiting).2
  · intro visited directory rest search fresh _ ih waiting
    obtain ⟨hd, hrest⟩ := List.forall_mem_cons.1 waiting
    have hm := ih fun d h => (hrest d h).mark _
    exact ⟨hm.found, List.forall_mem_cons.2 ⟨hd.met fresh, hm.skipped⟩, hm.blocked⟩
  · intro visited directory rest fault fresh blocked waiting
    obtain ⟨hd, -⟩ := List.forall_mem_cons.1 waiting
    refine ⟨nofun, nofun, fun fault' h => ?_⟩
    cases h
    exact ⟨directory, hd.met fresh, blocked⟩
  · intro visited directory rest text pom search fresh present hl ih waiting
    obtain ⟨hd, hrest⟩ := List.forall_mem_cons.1 waiting
    have hm := ih fun d h => by
      rcases List.mem_append.1 h with h | h
      · obtain ⟨name, hn, rfl⟩ := List.mem_map.1 h
        exact hd.through fresh (namedAt_of_load present hl ▸ hn)
      · exact (hrest d h).mark _
    have hdirectory : pom.module.directory.getD "." = directory := by rw [(load_eq_ok hl).2]; rfl
    exact ⟨List.forall_mem_cons.2 ⟨hdirectory ▸ hd.met fresh, hm.found⟩, hm.skipped, hm.blocked⟩

section Root

variable {name rootText : String}

/-- Behind a path that leads to a POM, all paths through directories can be followed. -/
structure Rooted (disk : Disk) (project : ProjectPath) : Prop where
  plain : project.Plain
  followed : disk.follow (disk.start project) project.names = .directory

private theorem rooted_of_lookup (h : disk.lookup (project.child pomFile) = .file rootText) :
    Rooted disk project := by
  have hp := Disk.plain_of_lookup h
  refine ⟨hp.of_join (by rw [ofText_pomFile]), ?_⟩
  rw [Disk.lookup_of_plain hp] at h
  split at h
  · cases h
  · rw [child_pomFile] at h
    exact Disk.follow_of_append h (List.cons_ne_nil _ _)

private theorem plain_pomPath (hp : project.Plain) (hd : '\x00' ∉ directory.toList) :
    (pomPath project directory).Plain := by
  have hpom : (ofText pomFile).Plain := plain_ofText (by decide)
  exact (hp.join (plain_ofText hd)).join hpom

private theorem Walkable.placeOf_eq (h : Walkable disk (disk.resolve project) directory) :
    placeOf disk project directory =
      (ofText directory).names.foldl Disk.walk (disk.resolve project) :=
  Disk.resolve_child_relative project h.anchor

private theorem placeOf_relative (hname : (ofText name).anchor = "")
    (hd : (ofText directory).anchor = "") :
    placeOf disk project (relative directory name) =
      (ofText name).names.foldl Disk.walk (placeOf disk project directory) := by
  rw [relative]
  split
  · next he =>
    subst he
    rw [placeOf_empty, placeOf, Disk.resolve_child_relative project hname]
  · next hne =>
    rw [placeOf, Disk.resolve_child_relative project ((anchor_append hne name).2 hd), names_append,
      List.foldl_append, placeOf, Disk.resolve_child_relative project hd]

theorem Walkable.relative (h : Walkable disk (disk.resolve project) directory)
    (hn : Walkable disk (placeOf disk project directory) name) :
    Walkable disk (disk.resolve project) (relative directory name) := by
  rw [ModuleDiscovery.relative]
  split
  · next he =>
    subst he
    rw [placeOf_empty] at hn
    exact hn
  · next hne =>
    refine ⟨(anchor_append hne name).2 h.anchor, ?_, ?_⟩
    · have hs : '\x00' ∉ "/".toList := by decide
      simp only [String.toList_append, List.mem_append, not_or]
      exact ⟨⟨h.plain, hs⟩, hn.plain⟩
    · rw [names_append, Disk.follow_append h.walked, ← h.placeOf_eq]
      exact hn.walked

/-- Where a directory that can be walked to holds a POM, its path does not lead nowhere. -/
theorem Rooted.get?_of_absent (hr : Rooted disk project)
    (h : Walkable disk (disk.resolve project) directory)
    (absent : disk.lookup (pomPath project directory) = .absent) :
    disk.files.get? (placeOf disk project directory ++ [pomFile]) = none := by
  have hpath : project.child directory =
      ⟨project.anchor, project.names ++ (ofText directory).names⟩ :=
    if_pos h.anchor
  have hwalked :
      disk.follow (disk.start project) (project.names ++ (ofText directory).names) = .directory :=
    (Disk.follow_append hr.followed _).trans h.walked
  have hplace : (project.names ++ (ofText directory).names).foldl Disk.walk (disk.start project) =
      placeOf disk project directory := by
    rw [placeOf, hpath]
    rfl
  have hstart :
    disk.start ⟨project.anchor, project.names ++ (ofText directory).names ++ [pomFile]⟩ =
      disk.start project := rfl
  rw [Disk.lookup_of_plain (plain_pomPath hr.plain h.plain)] at absent
  split at absent
  · cases absent
  · rw [pomPath, child_pomFile, hpath] at absent
    simp only [hstart] at absent
    rw [Disk.follow_append hwalked, hplace, Disk.follow, if_neg, if_neg (by decide)] at absent
    · have hlast : Disk.walk (placeOf disk project directory) pomFile =
        placeOf disk project directory ++ [pomFile] := rfl
      rw [hlast, Disk.follow] at absent
      split at absent
      · cases absent
      · cases hg : disk.files.get? (placeOf disk project directory ++ [pomFile]) with
        | none => rfl
        | some text =>
          rw [hg] at absent
          cases absent
    · have hd := Disk.isDirectory_of_follow hwalked
      rw [hplace] at hd
      simp [hd]

section Completeness

variable {root : LoadedModule} {l : Location}

/-- Every module that is named in a directory with a POM is a relative path through directories. -/
def ModulesExist (disk : Disk) (project : ProjectPath) : Prop :=
  ∀ l, Relation.ReflTransGen (Leads disk) (disk.resolve project) l →
    ∀ name ∈ namedAt disk l, Walkable disk l name

private theorem walkable_of_spelled (existing : ModulesExist disk project) {passed : List Location}
    (h : Spelled disk project passed directory) :
    Walkable disk (disk.resolve project) directory ∧
      Relation.TransGen (Leads disk) (disk.resolve project) (placeOf disk project directory) := by
  induction h with
  | root named =>
    have hw := existing _ .refl _ named
    exact ⟨hw, .single ⟨_, named, hw.placeOf_eq⟩⟩
  | through _ _ named ih =>
    obtain ⟨hw, ht⟩ := ih
    have hn := existing _ ht.to_reflTransGen _ named
    exact ⟨hw.relative hn, ht.tail ⟨_, named, placeOf_relative hn.anchor hw.anchor⟩⟩

private theorem namedAt_root (h : disk.lookup (project.child pomFile) = .file rootText)
    (hl : LoadedModule.load "." rootText = .ok root) :
    namedAt disk (disk.resolve project) = root.module.modules := by
  have hdot : project.child "." = project := by
    have ho : ofText "." = ⟨"", []⟩ := by decide
    rw [child, ho, join, if_pos rfl, List.append_nil]
  rw [← placeOf_dot]
  exact namedAt_of_load (by rw [pomPath, hdot, h]) hl

/-- A search that is not blocked has looked into every directory that modules lead to. -/
theorem mem_places_of_leads (existing : ModulesExist disk project) (hr : Rooted disk project)
    (explores : Explores disk project [] (namedAt disk (disk.resolve project)) search)
    (meets : Meets disk project search) (unblocked : search.fault = none)
    (h : Relation.TransGen (Leads disk) (disk.resolve project) l) :
    l ∈ places disk project search := by
  induction h with
  | single h =>
    obtain ⟨name, hn, rfl⟩ := h
    rw [← (existing _ .refl name hn).placeOf_eq]
    exact (explores.covered unblocked name hn).resolve_left List.not_mem_nil
  | @tail l l' ht h ih =>
    obtain ⟨name, hn, rfl⟩ := h
    rcases List.mem_append.1 ih with hm | hm
    · obtain ⟨pom, hp, rfl⟩ := List.mem_map.1 hm
      obtain ⟨directory, text, present, hl⟩ := explores.loaded pom hp
      obtain ⟨passed, hs, -⟩ := meets.found pom hp
      have hplace : pom.place disk project = placeOf disk project directory := place_of_load hl
      have hnamed : name ∈ pom.module.modules := by
        rw [← namedAt_of_load present hl, ← hplace]
        exact hn
      have hwalk := existing _ ht.to_reflTransGen name hn
      have hrelative : placeOf disk project (relative (pom.module.directory.getD ".") name) = _ :=
        placeOf_relative hwalk.anchor (walkable_of_spelled existing hs).1.anchor
      rw [LoadedModule.place, ← hrelative]
      exact (explores.closed unblocked pom hp name hnamed).resolve_left List.not_mem_nil
    · -- What was skipped holds no POM and so leads nowhere.
      obtain ⟨directory, hd, rfl⟩ := List.mem_map.1 hm
      obtain ⟨passed, hs, -⟩ := meets.skipped directory hd
      have hnone :=
        hr.get?_of_absent (walkable_of_spelled existing hs).1 (explores.skipped directory hd)
      simp only [namedAt, hnone] at hn
      cases hn

/-- The modules found are the POMs of exactly those directories that modules lead to, one for
each. -/
structure FindsReachable (disk : Disk) (project : ProjectPath) (search : Discovery) : Prop where
  distinct : (search.found.map (LoadedModule.place disk project)).Nodup
  reachable : ∀ l, l ∈ search.found.map (LoadedModule.place disk project) ↔
    Relation.TransGen (Leads disk) (disk.resolve project) l ∧ HoldsPom disk l
  loaded : ∀ pom ∈ search.found, ∃ directory text, pom.module.directory = some directory ∧
    disk.files.get? (pom.place disk project ++ [pomFile]) = some text ∧
      LoadedModule.load directory text = .ok pom

theorem findsReachable_discover (hroot : disk.lookup (project.child pomFile) = .file rootText)
    (hload : LoadedModule.load "." rootText = .ok root) (existing : ModulesExist disk project)
    (unblocked : (discover disk project [] root.module.modules).fault = none) :
    FindsReachable disk project (discover disk project [] root.module.modules) := by
  have hnamed := namedAt_root hroot hload
  have hr := rooted_of_lookup hroot
  have explores := explores_discover disk project [] root.module.modules
  have meets := meets_discover disk project [] root.module.modules fun name hn =>
    ⟨[], .root (hnamed ▸ hn), List.nil_subset _⟩
  refine ⟨(List.nodup_append.1 explores.distinct).1, fun l => ⟨fun hm => ?_, ?_⟩, fun pom hp => ?_⟩
  · obtain ⟨pom, hp, rfl⟩ := List.mem_map.1 hm
    obtain ⟨directory, text, present, hl⟩ := explores.loaded pom hp
    obtain ⟨passed, hs, -⟩ := meets.found pom hp
    have hg := Disk.get?_of_lookup present
    rw [pomPath, Disk.resolve_child_pomFile] at hg
    exact ⟨(walkable_of_spelled existing hs).2, text, place_of_load hl ▸ hg⟩
  · rintro ⟨ht, text, hg⟩
    have hm := mem_places_of_leads existing hr (hnamed ▸ explores) meets unblocked ht
    rcases List.mem_append.1 hm with hm | hm
    · exact hm
    · obtain ⟨directory, hd, rfl⟩ := List.mem_map.1 hm
      obtain ⟨passed, hs, -⟩ := meets.skipped directory hd
      have hnone :=
        hr.get?_of_absent (walkable_of_spelled existing hs).1 (explores.skipped directory hd)
      cases hnone.symm.trans hg
  · obtain ⟨directory, text, present, hl⟩ := explores.loaded pom hp
    have hg := Disk.get?_of_lookup present
    rw [pomPath, Disk.resolve_child_pomFile] at hg
    exact ⟨directory, text, by rw [(load_eq_ok hl).2], place_of_load hl ▸ hg, hl⟩

/-- From the modules of the root the search finds the POM of every directory that modules lead to,
one for each directory.  It ends early only where it comes to a POM that cannot be read: a
directory, a file that is no document, or one whose path, spelled along a chain of modules through
different directories, is too long. -/
theorem search_finds_reachable (hroot : disk.lookup (project.child pomFile) = .file rootText)
    (hload : LoadedModule.load "." rootText = .ok root) (existing : ModulesExist disk project) :
    (∀ fault, (discover disk project [] root.module.modules).fault = some fault →
      ∃ directory, Met disk project directory ∧ Blocked disk project directory fault) ∧
    ((discover disk project [] root.module.modules).fault = none →
      FindsReachable disk project (discover disk project [] root.module.modules)) := by
  have hnamed := namedAt_root hroot hload
  have meets := meets_discover disk project [] root.module.modules fun name hn =>
    ⟨[], .root (hnamed ▸ hn), List.nil_subset _⟩
  exact ⟨meets.blocked, findsReachable_discover hroot hload existing⟩

private theorem modulesExist_of_closed (places : List Location)
    (start : disk.resolve project ∈ places)
    (closed : ∀ l ∈ places, ∀ name ∈ namedAt disk l,
      Walkable disk l name ∧ (ofText name).names.foldl Disk.walk l ∈
        places) : ModulesExist disk project := by
  have hin : ∀ l, Relation.ReflTransGen (Leads disk) (disk.resolve project) l → l ∈ places := by
    intro l h
    induction h with
    | refl => exact start
    | tail _ h ih =>
      obtain ⟨name, hn, rfl⟩ := h
      exact (closed _ ih name hn).2
  exact fun l h name hn => (closed l (hin l h) name hn).1

/-- The module of a document without references. -/
def plainModule (directory text : String) : LoadedModule :=
  ⟨{ PomModule.ofRoot (treeOf text) with directory := some directory }, treeOf text⟩

theorem load_plainModule (h : (plainRoot? text).isSome) (directory : String) :
    LoadedModule.load directory text = .ok (plainModule directory text) := by
  rw [LoadedModule.load, XmlReader.read_of_isSome h]
  rfl

private theorem namedAt_of_isSome (hg : disk.files.get? (l ++ [pomFile]) = some text)
    (h : (plainRoot? text).isSome) : namedAt disk l = (PomModule.ofRoot (treeOf text)).modules := by
  simp only [namedAt, hg, XmlReader.read_of_isSome h]

def parentPom : String := "<project><modules><module>api</module></modules></project>"

def childPom : String :=
  "<project><modules><module>..</module><module>.</module></modules></project>"

theorem plain_parentPom : (plainRoot? parentPom).isSome ∧
    (PomModule.ofRoot (treeOf parentPom)).modules = ["api"] := by
  have h : plainRoot? parentPom = plainRootIn? _ := plainRoot?_ofList _
  rw [treeOf, h]
  decide +kernel

private theorem plain_childPom : (plainRoot? childPom).isSome ∧
    (PomModule.ofRoot (treeOf childPom)).modules = ["..", "."] := by
  have h : plainRoot? childPom = plainRootIn? _ := plainRoot?_ofList _
  rw [treeOf, h]
  decide +kernel

/-- A directory whose POM names one module, and more files. -/
def projectWith (files : List (Location × String)) : Disk :=
  ⟨["w"], .ofList ((["w", "pom.xml"], parentPom) :: files)⟩

/-- The only module names the root and itself. -/
def circle : Disk := projectWith [(["w", "api", "pom.xml"], childPom)]

def here : ProjectPath := ⟨"", []⟩

private theorem namedAt_circle :
    namedAt circle ["w"] = ["api"] ∧ namedAt circle ["w", "api"] = ["..", "."] :=
  ⟨(namedAt_of_isSome (by decide) plain_parentPom.1).trans plain_parentPom.2,
    (namedAt_of_isSome (by decide) plain_childPom.1).trans plain_childPom.2⟩

private theorem modulesExist_circle : ModulesExist circle here := by
  refine modulesExist_of_closed [["w"], ["w", "api"]] (by decide) fun l hl => ?_
  rcases List.mem_cons.1 hl with rfl | hl
  · rw [namedAt_circle.1]
    decide
  · cases List.mem_singleton.1 hl
    rw [namedAt_circle.2]
    decide

theorem search_finds_reachable_circle :
    LoadedModule.load "." parentPom = .ok (plainModule "." parentPom) ∧
      (discover circle here [] (plainModule "." parentPom).module.modules).fault = none ∧
      FindsReachable circle here
        (discover circle here [] (plainModule "." parentPom).module.modules) ∧
      (discover circle here [] (plainModule "." parentPom).module.modules).found.map
        (LoadedModule.place circle here) = [["w", "api"], ["w"]] := by
  have hroot : LoadedModule.load "." parentPom = .ok (plainModule "." parentPom) :=
    load_plainModule plain_parentPom.1 "."
  have hapi : LoadedModule.load "api" childPom = .ok (plainModule "api" childPom) :=
    load_plainModule plain_childPom.1 "api"
  have hagain : LoadedModule.load "api/.." parentPom = .ok (plainModule "api/.." parentPom) :=
    load_plainModule plain_parentPom.1 "api/.."
  have hknown :
      discover circle here [["w"], ["w", "api"]] ["api/../api", "api/."] = ⟨[], [], none⟩ := by
    rw [discover_known (by decide), discover_known (by decide), discover]
  have hlater : discover circle here [["w", "api"]] ["api/..", "api/."] =
      ⟨[plainModule "api/.." parentPom], [], none⟩ := by
    have hplace : placeOf circle here "api/.." = ["w"] := by decide
    have hpending :
      (plainModule "api/.." parentPom).module.modules.map (relative "api/..") ++ ["api/."] =
        ["api/../api", "api/."] :=
          congrArg (·.map (relative "api/..") ++ ["api/."]) plain_parentPom.2
    rw [discover_enter (by decide) (by decide) hagain, hplace, hpending, hknown]
  have hsearch : discover circle here [] (plainModule "." parentPom).module.modules =
      ⟨[plainModule "api" childPom, plainModule "api/.." parentPom], [], none⟩ := by
    have hplace : placeOf circle here "api" = ["w", "api"] := by decide
    have hmodules : (plainModule "." parentPom).module.modules = ["api"] := plain_parentPom.2
    have hpending : (plainModule "api" childPom).module.modules.map (relative "api") ++ [] =
        ["api/..", "api/."] :=
      congrArg (·.map (relative "api") ++ []) plain_childPom.2
    rw [hmodules, discover_enter (by decide) (by decide) hapi, hplace, hpending, hlater]
  have hfault : (discover circle here [] (plainModule "." parentPom).module.modules).fault =
    none := by rw [hsearch]
  refine ⟨hroot, hfault,
    (search_finds_reachable (by decide) hroot modulesExist_circle).2 hfault, ?_⟩
  rw [hsearch]
  decide

section Blocked

/-- The project has a POM and all of its modules are there, but the search ends early. -/
def EndsEarly (disk : Disk) (project : ProjectPath) : Prop :=
  ∃ text root fault, disk.lookup (project.child pomFile) = .file text ∧
    LoadedModule.load "." text = .ok root ∧
    ModulesExist disk project ∧ (discover disk project [] root.module.modules).fault = some fault

private theorem endsEarly_of_blocked {files : List (Location × String)} {fault : PassFault}
    (start : (projectWith files).resolve project = ["w"])
    (present : (projectWith files).lookup (project.child pomFile) = .file parentPom)
    (held : (projectWith files).files.get? ["w", "pom.xml"] = some parentPom)
    (leaf : namedAt (projectWith files) ["w", "api"] = [])
    (walk : Walkable (projectWith files) ["w"] "api")
    (blocked : Blocked (projectWith files) project "api" fault) :
    EndsEarly (projectWith files) project := by
  have hnamed : namedAt (projectWith files) ["w"] = ["api"] :=
    (namedAt_of_isSome held plain_parentPom.1).trans plain_parentPom.2
  have hmodules : (plainModule "." parentPom).module.modules = ["api"] := plain_parentPom.2
  have hplace : (ofText "api").names.foldl Disk.walk ["w"] = ["w", "api"] := by decide
  refine ⟨parentPom, plainModule "." parentPom, fault, present,
    load_plainModule plain_parentPom.1 ".", ?_, ?_⟩
  · refine modulesExist_of_closed [["w"], ["w", "api"]] (start ▸ List.mem_cons_self) fun l hl => ?_
    rcases List.mem_cons.1 hl with rfl | hl
    · rw [hnamed]
      intro name hn
      cases List.mem_singleton.1 hn
      exact ⟨walk, hplace ▸ List.mem_cons_of_mem _ List.mem_cons_self⟩
    · cases List.mem_singleton.1 hl
      rw [leaf]
      nofun
  · rw [hmodules, discover_blocked List.not_mem_nil blocked]

/-- A path that goes to a directory and back again, many times. -/
def detour : Nat → List String
  | 0 => []
  | n + 1 => "p" :: ".." :: detour n

private theorem detour_walk (n : Nat) (l : Location) : (detour n).foldl Disk.walk l = l := by
  induction n with
  | zero => rfl
  | succ n ih =>
    have hstep : Disk.walk (Disk.walk l "p") ".." = l := by simp [Disk.walk]
    rw [detour, List.foldl_cons, List.foldl_cons, hstep, ih]

private theorem detour_follow {l : Location} (here : disk.isDirectory l = true)
    (there : disk.isDirectory (l ++ ["p"]) = true)
    (n : Nat) : disk.follow l (detour n) = .directory := by
  induction n with
  | zero => rw [detour, Disk.follow, if_pos here]
  | succ n ih =>
    have hp : Disk.walk l "p" = l ++ ["p"] := rfl
    have hback : Disk.walk (l ++ ["p"]) ".." = l := by simp [Disk.walk]
    have hsizes : ¬ Disk.longestName < "p".utf8ByteSize ∧
      ¬ Disk.longestName < "..".utf8ByteSize := by decide
    rw [detour, Disk.follow, if_neg (by simp [here]), if_neg hsizes.1, hp, Disk.follow,
      if_neg (by simp [there]),
      if_neg hsizes.2, hback, ih]

private theorem detour_size (n : Nat) : spelledSize (detour n) = 5 * n := by
  induction n with
  | zero => rfl
  | succ n ih =>
    have hsizes : "p".utf8ByteSize = 1 ∧ "..".utf8ByteSize = 2 := by decide
    simp only [detour, spelledSize_cons, ih, hsizes]
    omega

private theorem detour_plain (n : Nat) : Plain ⟨"", detour n⟩ := by
  have hnames : ∀ name ∈ detour n, name = "p" ∨ name = ".." := by
    induction n with
    | zero => nofun
    | succ n ih => exact List.forall_mem_cons.2 ⟨.inl rfl, List.forall_mem_cons.2 ⟨.inr rfl, ih⟩⟩
  refine ⟨nofun, fun name hn => ?_⟩
  rcases hnames name hn with rfl | rfl <;> decide

private theorem detour_size_append (n : Nat) (more : List String) (h : more ≠ []) :
    (ProjectPath.text ⟨"", detour n ++ more⟩).utf8ByteSize + 1 = 5 * n + spelledSize more := by
  rw [size_text (List.append_ne_nil_of_right_ne_nil _ h), spelledSize_append, detour_size]
  exact Nat.zero_add _

/-- The path of the root POM is just short enough, that of the module's POM is not. -/
def farAway : ProjectPath := ⟨"", detour 817⟩

def farProject : Disk :=
  projectWith [(["w", "p", "x"], ""), (["w", "api", "pom.xml"], "<project/>")]

private theorem resolve_farAway : farProject.resolve farAway = ["w"] := detour_walk 817 ["w"]

private theorem lookup_farAway : farProject.lookup (farAway.child pomFile) = .file parentPom := by
  have hplain : (farAway.child pomFile).Plain := (detour_plain 817).join (plain_ofText (by decide))
  have hsize := detour_size_append 817 [pomFile] (by decide)
  have hpom : spelledSize [pomFile] = 8 := by decide
  have hlast : farProject.follow ["w"] [pomFile] = .file parentPom := by decide
  have hhere : farProject.isDirectory ["w"] = true ∧ farProject.isDirectory ["w", "p"] = true := by
    decide
  have hfollow := Disk.follow_append (detour_follow hhere.1 hhere.2 817) [pomFile]
  rw [detour_walk, hlast] at hfollow
  have hpath : farAway.child pomFile = ⟨"", detour 817 ++ [pomFile]⟩ := child_pomFile farAway
  rw [Disk.lookup_of_plain hplain, hpath, if_neg (by rw [Disk.longestPath]; omega)]
  exact hfollow

private theorem tooLong_farAway : farProject.lookup (pomPath farAway "api") = .tooLong := by
  have hsize := detour_size_append 817 ["api", pomFile] (by decide)
  have hnames : spelledSize ["api", pomFile] = 12 := by decide
  have hpath : pomPath farAway "api" = ⟨"", detour 817 ++ ["api", pomFile]⟩ := by
    have hname : ofText "api" = ⟨"", ["api"]⟩ := by decide
    rw [pomPath, child_pomFile, child, hname, join, if_pos rfl, List.append_assoc]
    rfl
  have hplain : (pomPath farAway "api").Plain := plain_pomPath (detour_plain 817) (by decide)
  rw [Disk.lookup_of_plain hplain, hpath, if_pos (by rw [Disk.longestPath]; omega)]

theorem search_may_end_early :
    EndsEarly (projectWith [(["w", "api", "pom.xml"], "")]) here ∧
    EndsEarly (projectWith [(["w", "api", "pom.xml", "x"], "")]) here ∧
      EndsEarly farProject farAway := by
  have hempty : (XmlReader.read "").toOption = none := by
    rw [← Option.isNone_iff_eq_none]
    decide +kernel
  refine ⟨?_, ?_, ?_⟩
  · cases hr : XmlReader.read "" with
    | ok root => rw [hr] at hempty; cases hempty
    | error cause =>
      have hl : LoadedModule.load "api" "" = .error cause := by rw [LoadedModule.load, hr]; rfl
      refine endsEarly_of_blocked (by decide) (by decide) (by decide) ?_ (by decide)
        (.unreadable (by decide) hl)
      have hg : (projectWith [(["w", "api", "pom.xml"], "")]).files.get?
          (["w", "api"] ++ [pomFile]) = some "" := by
        decide
      simp only [namedAt, hg, hr]
  · refine endsEarly_of_blocked (by decide) (by decide) (by decide) ?_ (by decide)
      (.directory (by decide))
    have hg : (projectWith [(["w", "api", "pom.xml", "x"], "")]).files.get?
        (["w", "api"] ++ [pomFile]) = none := by
      decide
    simp only [namedAt, hg]
  · refine endsEarly_of_blocked resolve_farAway lookup_farAway (by decide) ?_ (by decide)
      (.tooLong tooLong_farAway)
    have hleaf : (plainRoot? "<project/>").isSome ∧
        (PomModule.ofRoot (treeOf "<project/>")).modules = [] := by decide +kernel
    exact (namedAt_of_isSome (by decide) hleaf.1).trans hleaf.2

end Blocked

end Completeness
end Root
end Reachability
end BuildAlign.ModuleDiscovery
