import BuildAlign.Proofs.OrderedMapLookup
import BuildAlign.Proofs.PassOutputs
import BuildAlign.Proofs.ReachableModules
import Mathlib.Logic.Function.Iterate

/-! # How often a POM is processed

The modules that are found lie in different directories, none of which is looked into twice.  But
the root is not among those that are marked, so where modules lead back to it, its POM is found
again and processed twice. -/
namespace BuildAlign.BuildPass
open ModuleDiscovery ProjectPath

variable {options : PassOptions} {settings : AlignmentSettings}
  {result : AlignmentResult} {target : String}
  {s s' s₁ : PassState} {loaded : List LoadedModule}

section Outputs

/-- The output of a POM that has been loaded: the tree loaded last, edited as often as it has been
loaded. -/
def outputAt (result : AlignmentResult) (loaded : List LoadedModule)
    (target : String) : Option Output :=
  ((OrderedMap.ofList (loaded.map fun l => (l.module.target, l.tree))).get? target).map fun root =>
    pomOutput target
      ((editedTree result target)^[(loaded.map fun l => l.module.target).count target] root)

/-- What is put out for POMs that have been loaded: each changed one, as often as it has been
loaded. -/
def outputsOf (result : AlignmentResult) (loaded : List LoadedModule) : List Output :=
  ((loaded.map fun l => l.module.target).filter (isChanged result)).filterMap
    (outputAt result loaded)

private theorem eq_outputsOf {outputs : List Output}
    (h : (preparePoms options settings loaded).run.run s = (.ok (result, outputs), s')) :
    outputs = outputsOf result loaded := by
  obtain ⟨trees, s₁, s₂, ht, rfl⟩ := outputs_of_preparePoms options h
  have htrees := trees_of_editPoms ht
  simp only [pomOutputs, htrees, Option.map_map]
  rfl

/-- A real run writes what is to be put out for the POMs that it has loaded. -/
theorem writes_outputsOf (wet : options.dryRun = false)
    (hl : (loadModules options).run.run s = (.ok loaded, s₁))
    (h : (alignProject options settings).run.run s = (.ok result, s')) :
    s'.disk = writeAll options s.disk (outputsOf result loaded) ∧
      s'.printed = s.printed ++ ticks options (outputsOf result loaded) := by
  obtain ⟨outcome, reported, hquiet⟩ :
      Quiet (fun _ => True) (preparePoms options settings loaded) :=
    quiet_preparePoms options settings loaded
  rw [alignProject_eq, run_bind_ok hl] at h
  obtain ⟨⟨aligned, outputs⟩, s₂, hprepared, h⟩ := run_bind_eq_ok h
  obtain ⟨_, s₃, hput, h⟩ := run_bind_eq_ok h
  cases h
  cases eq_outputsOf hprepared
  obtain ⟨-, rfl⟩ := (does_loadModules options s.disk).eq_of_run hl rfl
  obtain ⟨-, rfl⟩ := (hquiet s.disk trivial).eq_of_run hprepared rfl
  obtain ⟨-, rfl⟩ := (does_putAll wet (outputsOf result loaded) s.disk).eq_of_run hput rfl
  simp only [String.append_empty, and_self]

/-- The output of a module whose POM stands alone: its own tree, edited once. -/
def ownOutput (result : AlignmentResult) (l : LoadedModule) : Output :=
  pomOutput l.module.target (editedTree result l.module.target l.tree)

private theorem outputsOf_of_nodup (h : (loaded.map fun l => l.module.target).Nodup)
    (result : AlignmentResult) :
    outputsOf result loaded =
      (loaded.filter fun l => isChanged result l.module.target).map (ownOutput result) := by
  have hkeys : ((loaded.map fun l => (l.module.target, l.tree)).map Prod.fst).Nodup := by
    rw [List.map_map]
    exact h
  have hown : ∀ l ∈ loaded, outputAt result loaded l.module.target = some (ownOutput result l) := by
    intro l hl
    have hget := OrderedMap.get?_ofList_of_mem hkeys (List.mem_map_of_mem hl)
    rw [outputAt, hget, List.count_eq_one_of_mem h (List.mem_map_of_mem hl)]
    rfl
  rw [outputsOf, List.filter_map, List.filterMap_map]
  refine List.filterMap_eq_map_iff_forall_eq_some.2 fun l hl => ?_
  exact hown l (List.mem_of_mem_filter hl)

end Outputs

section Places

variable {disk : Disk}

theorem root_of_loadModules (h : (loadModules options).run.run s = (.ok loaded, s₁)) :
    ∃ text root, s.disk.lookup (options.project.child pomFile) = .file text ∧
      LoadedModule.load "." text = .ok root ∧
      (discover s.disk options.project [] root.module.modules).fault = none ∧
      loaded = root :: (discover s.disk options.project [] root.module.modules).found := by
  have ho := ((does_loadModules options s.disk).eq_of_run h rfl).1.symm
  simp only [loadOutcome] at ho
  cases hl : s.disk.lookup (options.project.child pomFile) with
  | file text =>
    rw [hl] at ho
    simp only [readOutcome] at ho
    cases hload : LoadedModule.load "." text with
    | error cause =>
      rw [hload] at ho
      cases ho
    | ok root =>
      rw [hload] at ho
      simp only [searchOutcome] at ho
      cases hfault : (discover s.disk options.project [] root.module.modules).fault with
      | some fault =>
        rw [hfault] at ho
        cases ho
      | none =>
        rw [hfault] at ho
        cases ho
        exact ⟨text, root, rfl, hload, hfault, rfl⟩
  | directory =>
    rw [hl] at ho
    cases ho
  | absent =>
    rw [hl] at ho
    cases ho
  | tooLong =>
    rw [hl] at ho
    cases ho

/-- Where the POM of a module is written lies in the directory of the module. -/
theorem file_ownOutput (result : AlignmentResult) (disk : Disk) (l : LoadedModule) :
    (ownOutput result l).file options disk = l.place disk options.project ++ [pomFile] :=
  PomModule.resolve_target disk options.project l.module

private theorem nodup_files (h : (loaded.map (LoadedModule.place disk options.project)).Nodup)
    (result : AlignmentResult) :
    (loaded.map fun l => (ownOutput result l).file options disk).Nodup := by
  simp only [file_ownOutput]
  rw [← Function.comp_def (· ++ [pomFile]), ← List.map_map]
  exact h.map (List.append_left_injective _)

private theorem nodup_targets (h : (loaded.map (LoadedModule.place disk options.project)).Nodup) :
    (loaded.map fun l => l.module.target).Nodup := by
  refine List.Nodup.of_map (fun target => disk.resolve (options.project.child target)) ?_
  rw [List.map_map]
  exact nodup_files h ∅

/-- Every POM is processed once: its own tree is edited once and written to a file of its own, if at
all. -/
structure ProcessedOnce (options : PassOptions) (disk : Disk) (result : AlignmentResult)
    (loaded : List LoadedModule) :
    Prop where
  outputs : outputsOf result loaded =
    (loaded.filter fun l => isChanged result l.module.target).map (ownOutput result)
  files : (loaded.map fun l => (ownOutput result l).file options disk).Nodup

private theorem processedOnce_of_nodup
    (h : (loaded.map (LoadedModule.place disk options.project)).Nodup)
    (result : AlignmentResult) : ProcessedOnce options disk result loaded :=
  ⟨outputsOf_of_nodup (nodup_targets h) result, nodup_files h result⟩

/-- Of the POMs that a pass loads, those that are found lie in different directories, so no POM but
that of the root is processed twice.  The root's is just when its directory is found again, as it is
when a chain of modules leads back to it.  A real run then writes it as often as it has been loaded,
with its edits made as often.  Where it is not found again, every POM is processed once. -/
theorem poms_processed_once_unless_root_found
    (h : (loadModules options).run.run s = (.ok loaded, s₁)) :
    ∃ root found, loaded = root :: found ∧
      root.place s.disk options.project = s.disk.resolve options.project ∧
      (found.map (LoadedModule.place s.disk options.project)).Nodup ∧
      ((loaded.map (LoadedModule.place s.disk options.project)).Nodup ↔
        s.disk.resolve options.project ∉ found.map (LoadedModule.place s.disk options.project)) ∧
      (ModulesExist s.disk options.project →
        (s.disk.resolve options.project ∈ found.map (LoadedModule.place s.disk options.project) ↔
          Relation.TransGen (Leads s.disk) (s.disk.resolve options.project)
            (s.disk.resolve options.project))) ∧
      ((loaded.map (LoadedModule.place s.disk options.project)).Nodup →
        ∀ result, ProcessedOnce options s.disk result loaded) ∧
      ∀ settings result s', options.dryRun = false →
        (alignProject options settings).run.run s = (.ok result, s') →
          s'.disk = writeAll options s.disk (outputsOf result loaded) ∧
            s'.printed = s.printed ++ ticks options (outputsOf result loaded) := by
  obtain ⟨text, root, hroot, hload, hfault, rfl⟩ := root_of_loadModules h
  have explores := explores_discover s.disk options.project [] root.module.modules
  have hdistinct := (List.nodup_append.1 explores.distinct).1
  have hplace : root.place s.disk options.project = s.disk.resolve options.project := by
    rw [place_of_load hload, placeOf_dot]
  refine ⟨root, _, rfl, hplace, hdistinct, ?_, fun existing => ?_, processedOnce_of_nodup,
    fun settings result s' wet ha => writes_outputsOf wet h ha⟩
  · rw [List.map_cons, List.nodup_cons, hplace]
    exact and_iff_left hdistinct
  · rw [(findsReachable_discover hroot hload existing hfault).reachable]
    have hpom := Disk.get?_of_lookup hroot
    rw [Disk.resolve_child_pomFile] at hpom
    exact and_iff_left ⟨text, hpom⟩

/-- A POM that is loaded twice is edited twice, and written twice. -/
theorem outputsOf_twice {l : LoadedModule} (changed : isChanged result l.module.target = true) :
    outputsOf result [l, l] =
      List.replicate 2
        (pomOutput l.module.target ((editedTree result l.module.target)^[2] l.tree)) := by
  have hat : outputAt result [l, l] l.module.target =
      some (pomOutput l.module.target ((editedTree result l.module.target)^[2] l.tree)) := by
    have hcount : [l.module.target, l.module.target].count l.module.target = 2 := by simp
    have hget :
      (OrderedMap.ofList [(l.module.target, l.tree), (l.module.target, l.tree)]).get?
      l.module.target =
        some l.tree := by
      simp [OrderedMap.ofList, OrderedMap.insertAll]
    simp only [outputAt, List.map_cons, List.map_nil, hget, hcount, Option.map_some]
  have htargets : [l.module.target, l.module.target].filter (isChanged result) =
      [l.module.target, l.module.target] := by simp [changed]
  simp only [outputsOf, List.map_cons, List.map_nil, htargets, List.filterMap_cons,
    hat, List.filterMap_nil,
    List.replicate]

theorem ends_of_preparePoms (hl : (loadModules options).run.run s = (.ok loaded, s₁))
    (h : ((preparePoms options settings loaded).run.run s₁).1.toOption.map Prod.fst = some result)
    (wet : options.dryRun = false) :
    ∃ s', (alignProject options settings).run.run s = (.ok result, s') := by
  rcases hp : (preparePoms options settings loaded).run.run s₁ with ⟨fault | ⟨aligned, outputs⟩, s₂⟩
  · rw [hp] at h
    cases h
  · rw [hp] at h
    cases h
    rw [alignProject_eq, run_bind_ok hl, run_bind_ok hp,
      run_bind_ok (does_putAll wet outputs s₂.disk s₂ rfl)]
    exact ⟨_, rfl⟩

/-- A root and a module without modules of its own. -/
def rootAndModule : PassState := ⟨projectWith [(["w", "api", "pom.xml"], "<project/>")], "", ""⟩

def loopPom : String := "<project><modules><module>.</module></modules></project>"

/-- A root that names itself as a module. -/
def rootAlone : PassState := ⟨⟨["w"], .ofList [(["w", "pom.xml"], loopPom)]⟩, "", ""⟩

def inPlace : PassOptions := ⟨ModuleDiscovery.here, false, false⟩

/-- A dependency that is to be managed by the root. -/
def managing : AlignmentSettings := ⟨[⟨"g", "a", "1.0"⟩], true, true, false, false, .literal, []⟩

def managed : AlignmentResult := ⟨∅, [], ∅, .ofList [("pom.xml", [⟨"g", "a", "1.0"⟩])], []⟩

theorem loadModules_of_search {text : String} {root : LoadedModule} {found : List LoadedModule}
    (present : s.disk.lookup (options.project.child pomFile) = .file text)
    (hload : LoadedModule.load "." text = .ok root)
    (hsearch : discover s.disk options.project [] root.module.modules = ⟨found, [], none⟩) :
    (loadModules options).run.run s = (.ok (root :: found), s) := by
  have hdoes := does_loadModules options s.disk s rfl
  simp only [loadOutcome, present, readOutcome, hload, hsearch, searchOutcome, lines,
    texts, List.foldr_nil,
    String.append_empty] at hdoes
  exact hdoes

private theorem loadModules_rootAndModule :
    (loadModules inPlace).run.run rootAndModule =
      (.ok [plainModule "." parentPom, plainModule "api" "<project/>"], rootAndModule) := by
  have hleaf : (XmlReader.plainRoot? "<project/>").isSome ∧
      (plainModule "api" "<project/>").module.modules = [] := by
    decide +kernel
  have hmodules : (plainModule "." parentPom).module.modules = ["api"] := plain_parentPom.2
  refine loadModules_of_search (by decide) (load_plainModule plain_parentPom.1 ".") ?_
  rw [hmodules, discover_enter (by decide) (by decide) (load_plainModule hleaf.1 "api"), hleaf.2,
    List.map_nil, List.nil_append, discover]

private theorem loadModules_rootAlone :
    (loadModules inPlace).run.run rootAlone =
      (.ok [plainModule "." loopPom, plainModule "." loopPom], rootAlone) := by
  have hloop : (XmlReader.plainRoot? loopPom).isSome ∧
      (plainModule "." loopPom).module.modules = ["."] := by
    decide +kernel
  have hload := load_plainModule hloop.1 "."
  refine loadModules_of_search (by decide) hload ?_
  have hknown : discover rootAlone.disk inPlace.project [["w"]] ["./."] = ⟨[], [], none⟩ := by
    rw [discover_known (by decide), discover]
  have hplace : placeOf rootAlone.disk inPlace.project "." = ["w"] := by decide
  have hpending : ["."].map (relative ".") ++ [] = ["./."] := by decide
  rw [hloop.2, discover_enter (by decide) (by decide) hload, hloop.2, hplace, hpending, hknown]

theorem poms_processed_once_unless_root_found_module :
    ∃ s', (loadModules inPlace).run.run rootAndModule =
        (.ok [plainModule "." parentPom, plainModule "api" "<project/>"], rootAndModule) ∧
      (alignProject inPlace managing).run.run rootAndModule = (.ok managed, s') ∧
      ProcessedOnce inPlace rootAndModule.disk managed
        [plainModule "." parentPom, plainModule "api" "<project/>"] ∧
      s'.disk =
        writeAll inPlace rootAndModule.disk [ownOutput managed (plainModule "." parentPom)] := by
  obtain ⟨s', hrun⟩ :
      ∃ s', (alignProject inPlace managing).run.run rootAndModule = (.ok managed, s') :=
    ends_of_preparePoms loadModules_rootAndModule (by decide +kernel) rfl
  obtain ⟨_, _, -, -, -, -, -, honce, hwrites⟩ :=
    poms_processed_once_unless_root_found loadModules_rootAndModule
  have hprocessed := honce (by decide) managed
  have hchanged : isChanged managed (plainModule "." parentPom).module.target = true ∧
      isChanged managed (plainModule "api" "<project/>").module.target = false := by decide
  have hfilter : [plainModule "." parentPom, plainModule "api" "<project/>"].filter
      (fun l => isChanged managed l.module.target) = [plainModule "." parentPom] := by
        simp [hchanged]
  refine ⟨s', loadModules_rootAndModule, hrun, hprocessed, ?_⟩
  rw [(hwrites managing managed s' rfl hrun).1, hprocessed.outputs, hfilter]
  rfl

/-- A root that names itself is loaded twice.  Its POM is written twice, with the same dependency in
it twice. -/
theorem root_may_be_processed_twice :
    ∃ s' o tree, (loadModules inPlace).run.run rootAlone =
        (.ok [plainModule "." loopPom, plainModule "." loopPom], rootAlone) ∧
      ¬ ([plainModule "." loopPom, plainModule "." loopPom].map
        (LoadedModule.place rootAlone.disk inPlace.project)).Nodup ∧
      (alignProject inPlace managing).run.run rootAlone = (.ok managed, s') ∧
      s'.disk = writeAll inPlace rootAlone.disk [o, o] ∧ s'.printed = ticks inPlace [o, o] ∧
      o = pomOutput "pom.xml" tree ∧
        (PomModule.ofRoot tree).management.map Dependency.ga = ["g:a", "g:a"] := by
  obtain ⟨s', hrun⟩ : ∃ s', (alignProject inPlace managing).run.run rootAlone = (.ok managed, s') :=
    ends_of_preparePoms loadModules_rootAlone (by decide +kernel) rfl
  have htarget : (plainModule "." loopPom).module.target = "pom.xml" := by decide
  have hchanged : isChanged managed (plainModule "." loopPom).module.target = true := by decide
  have houtputs := outputsOf_twice hchanged
  rw [htarget] at houtputs
  obtain ⟨hdisk, hprinted⟩ := writes_outputsOf rfl loadModules_rootAlone hrun
  rw [houtputs] at hdisk hprinted
  exact ⟨s', _, _, loadModules_rootAlone, by decide +kernel, hrun, hdisk, hprinted,
    rfl, by decide +kernel⟩

end Places
end BuildAlign.BuildPass
