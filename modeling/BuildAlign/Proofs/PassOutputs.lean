import BuildAlign.Proofs.OrderedMapLookup
import BuildAlign.Proofs.PassEffects
import Mathlib.Logic.Function.Iterate

/-! # What passes put out

A pass always does the same with the same files.  What it changes it puts out text by text, each as
the new text of a target: a real run writes it, a dry run shows it.  Everything else that a pass
does is to report. -/
namespace BuildAlign.BuildPass

section Doing

variable {α β : Type} {p : Pass α} {f : α → Pass β} {disk disk₁ disk' : Disk}
  {printed printed' : String}
  {reported reported' : String}

/-- All that a pass does with these files: how it ends, what it leaves, and what it prints and
reports. -/
def Does (p : Pass α) (disk : Disk) (outcome : Except PassFault α) (disk' : Disk) (printed : String)
    (reported : String) : Prop :=
  ∀ s : PassState, s.disk = disk →
    p.run.run s = (outcome, ⟨disk', s.printed ++ printed, s.reported ++ reported⟩)

theorem does_pure (value : α) (disk : Disk) : Does (pure value) disk (.ok value) disk "" "" := by
  rintro s rfl
  simp only [String.append_empty]
  rfl

theorem does_throw (fault : PassFault) (disk : Disk) :
    Does (throw fault : Pass α) disk (.error fault) disk "" "" := by
  rintro s rfl
  simp only [String.append_empty]
  rfl

theorem Does.bind {value : α} {outcome : Except PassFault β}
    (hp : Does p disk (.ok value) disk₁ printed reported)
    (hf : Does (f value) disk₁ outcome disk' printed' reported') :
    Does (p >>= f) disk outcome disk' (printed ++ printed') (reported ++ reported') := by
  intro s hs
  rw [run_bind_ok (hp s hs), hf _ rfl]
  simp only [String.append_assoc]

/-- Behind a pass that prints nothing. -/
theorem Does.bind_silent {value : α} {outcome : Except PassFault β}
    (hp : Does p disk (.ok value) disk₁ "" reported)
    (hf : Does (f value) disk₁ outcome disk' printed reported') :
    Does (p >>= f) disk outcome disk' printed (reported ++ reported') := by
  have h := hp.bind hf
  rwa [String.empty_append] at h

/-- Behind a pass that does nothing. -/
theorem Does.bind_idle {value : α} {outcome : Except PassFault β}
    (hp : Does p disk (.ok value) disk "" "")
    (hf : Does (f value) disk outcome disk' printed reported) :
    Does (p >>= f) disk outcome disk' printed reported := by
  have h := hp.bind_silent hf
  rwa [String.empty_append] at h

theorem Does.bind_error {fault : PassFault}
    (hp : Does p disk (.error fault) disk₁ printed reported) :
    Does (p >>= f) disk (.error fault) disk₁ printed reported :=
  fun s hs => run_bind_error (hp s hs)

theorem Does.eq_of_run {outcome result : Except PassFault α} {s s' : PassState}
    (h : Does p disk outcome disk' printed reported) (hr : p.run.run s = (result, s'))
    (hs : s.disk = disk) :
    result = outcome ∧ s' = ⟨disk', s.printed ++ printed, s.reported ++ reported⟩ :=
  Prod.mk.inj (hr.symm.trans (h s hs))

private theorem does_report (line : String) (disk : Disk) :
    Does (report line) disk (.ok ()) disk "" (line ++ "\n") := by
  rintro s rfl
  simp only [String.append_empty, ← String.append_assoc]
  rfl

/-- With any of these files the pass does nothing but report, and always comes to the same. -/
def Quiet (disks : Disk → Prop) (p : Pass α) : Prop :=
  ∃ outcome reported, ∀ disk, disks disk → Does p disk outcome disk "" reported

variable {disks : Disk → Prop}

theorem quiet_pure (value : α) :
    Quiet disks (pure value) := ⟨_, _, fun disk _ => does_pure value disk⟩

theorem quiet_throw (fault : PassFault) : Quiet disks (throw fault : Pass α) :=
  ⟨_, _, fun disk _ => does_throw fault disk⟩

theorem Quiet.bind (hp : Quiet disks p) (hf : ∀ value, Quiet disks (f value)) :
    Quiet disks (p >>= f) := by
  obtain ⟨fault | value, reported, hp⟩ := hp
  · exact ⟨_, _, fun disk hd => (hp disk hd).bind_error⟩
  · obtain ⟨outcome, reported', hf⟩ := hf value
    exact ⟨_, _, fun disk hd => (hp disk hd).bind_silent (hf disk hd)⟩

private theorem quiet_report (line : String) :
    Quiet disks (report line) := ⟨_, _, fun disk _ => does_report line disk⟩

private theorem quiet_forM {γ : Type} {act : γ → Pass PUnit} {l : List γ}
    (h : ∀ x ∈ l, Quiet disks (act x)) :
    Quiet disks (l.forM act) := by
  induction l with
  | nil => exact quiet_pure ()
  | cons x l ih =>
    exact (h x List.mem_cons_self).bind fun _ => ih fun x hx => h x (List.mem_cons_of_mem _ hx)

/-- What reading a path comes to, by what it leads to. -/
def readOutcome (path : ProjectPath) (absent : PassFault) : Lookup → Except PassFault String
  | .file text => .ok text
  | .directory => .error (.directory path.text)
  | .absent => .error absent
  | .tooLong => .error (.tooLong path.text)

theorem does_readFile (path : ProjectPath) (absent : PassFault) (disk : Disk) :
    Does (readFile path absent) disk (readOutcome path absent (disk.lookup path)) disk "" "" := by
  rintro s rfl
  have hg : (get : Pass PassState).run.run s = (.ok s, s) := rfl
  rw [readFile, run_bind_ok hg, String.append_empty, String.append_empty]
  cases s.disk.lookup path <;> rfl

end Doing

section Functions

variable {disks : Disk → Prop} (options : PassOptions)

private theorem quiet_reportLog (log : PassLog) : Quiet disks (reportLog options log) :=
  quiet_forM fun e _ => quiet_report e.line

theorem quiet_applyAll {δ : Type} (editor : Editor δ) (ops : List Operation) (doc : δ) :
    Quiet disks (applyAll options editor ops doc) := by
  refine (quiet_reportLog options _).bind fun _ => ?_
  split
  · exact quiet_throw _
  · exact quiet_pure _

private theorem quiet_alignModules (settings : AlignmentSettings) (reactor : Reactor)
    (isRoot : Bool) (ms : List PomModule)
    (result : AlignmentResult) :
    Quiet disks (alignModules options settings reactor isRoot ms result) := by
  induction ms generalizing isRoot result with
  | nil => exact quiet_pure result
  | cons m ms ih =>
    refine (quiet_reportLog options _).bind fun _ => ?_
    split
    · exact quiet_throw _
    · exact ih false _

private theorem quiet_editPom (result : AlignmentResult) (target : String) (root : XmlNode) :
    Quiet disks (editPom options result target root) :=
  (quiet_applyAll options DocumentEdits.pomEditor _ root).bind fun _ => quiet_pure _

private theorem quiet_editPoms (result : AlignmentResult)
    (targets : List String) (trees : PomTrees) :
    Quiet disks (editPoms options result targets trees) := by
  induction targets generalizing trees with
  | nil => exact quiet_pure trees
  | cons target targets ih =>
    rw [editPoms]
    split
    · exact ih trees
    · exact (quiet_editPom options result target _).bind fun _ => ih _

end Functions

section Loading

/-- The texts that are put out for a list, one behind the other. -/
def texts {γ : Type} (text : γ → String) (l : List γ) : String :=
  l.foldr (fun x later => text x ++ later) ""

private theorem texts_singleton {γ : Type} (text : γ → String) (x : γ) :
    texts text [x] = text x := String.append_empty

theorem texts_append {γ : Type} (text : γ → String) (l l' : List γ) :
    texts text (l ++ l') = texts text l ++ texts text l' := by
  induction l with
  | nil => exact String.empty_append.symm
  | cons x l ih =>
    change text x ++ texts text (l ++ l') = text x ++ texts text l ++ texts text l'
    rw [ih, String.append_assoc]

/-- The lines of a report. -/
def lines {γ : Type} (line : γ → String) (l : List γ) : String := texts (fun x => line x ++ "\n") l

theorem does_reports {γ : Type} (line : γ → String) (l : List γ) (disk : Disk) :
    Does (l.forM fun x => report (line x)) disk (.ok ()) disk "" (lines line l) := by
  induction l with
  | nil => exact does_pure () disk
  | cons x l ih =>
    exact (does_report (line x) disk).bind (f := fun _ => l.forM fun x => report (line x)) ih

def skippedLine (directory : String) : String :=
  s!"WARNING: Module '{directory}' has no pom.xml, skipping"

/-- How looking for the modules of a root ends, and what is reported of it. -/
def searchOutcome (root : LoadedModule) (search : Discovery) :
    Except PassFault (List LoadedModule) × String :=
  (match search.fault with
    | some fault => .error fault
    | none => .ok (root :: search.found),
    lines skippedLine search.skipped)

/-- How looking for the modules of a project ends, and what is reported of it. -/
def loadOutcome (options : PassOptions) (disk : Disk) :
    Except PassFault (List LoadedModule) × String :=
  let path := options.project.child ModuleDiscovery.pomFile
  match readOutcome path (.noPom path.text) (disk.lookup path) with
  | .error fault => (.error fault, "")
  | .ok text =>
    match LoadedModule.load "." text with
    | .error cause => (.error (.xml cause), "")
    | .ok root =>
      searchOutcome root (ModuleDiscovery.discover disk options.project [] root.module.modules)

private theorem does_search (root : LoadedModule) (search : Discovery) (disk : Disk) :
    Does (do
      search.skipped.forM fun directory => report (skippedLine directory)
      match search.fault with
      | some fault => throw fault
      | none => return root :: search.found) disk (searchOutcome root search).1 disk ""
        (searchOutcome root search).2 := by
  obtain ⟨found, skipped, fault⟩ := search
  rw [← String.append_empty (s := (searchOutcome root _).2)]
  cases fault with
  | some fault => exact (does_reports skippedLine skipped disk).bind_silent (does_throw fault disk)
  | none =>
    exact (does_reports skippedLine skipped disk).bind_silent (does_pure (root :: found) disk)

theorem does_loadModules (options : PassOptions) (disk : Disk) :
    Does (loadModules options) disk (loadOutcome options disk).1 disk ""
      (loadOutcome options disk).2 := by
  have hread := does_readFile (options.project.child ModuleDiscovery.pomFile)
    (.noPom (options.project.child ModuleDiscovery.pomFile).text) disk
  rw [loadModules]
  simp only [loadOutcome]
  cases hf : readOutcome (options.project.child ModuleDiscovery.pomFile)
    (.noPom (options.project.child ModuleDiscovery.pomFile).text)
    (disk.lookup (options.project.child ModuleDiscovery.pomFile)) with
  | error fault => exact (hf ▸ hread).bind_error
  | ok text =>
    refine (hf ▸ hread).bind_idle ?_
    cases hl : LoadedModule.load "." text with
    | error cause =>
      simp only [hl]
      exact does_throw _ disk
    | ok root =>
      rintro s rfl
      simp only [hl]
      have hg : (get : Pass PassState).run.run s = (.ok s, s) := rfl
      rw [run_bind_ok hg]
      exact does_search root _ s.disk s rfl

end Loading

section Outputs

variable {options : PassOptions}

/-- The new text of a target as it is shown and as it is written. -/
structure Output where
  target : String
  shown : String
  written : String

/-- The file that it is written to. -/
def Output.file (options : PassOptions) (disk : Disk) (o : Output) : Location :=
  disk.resolve (options.project.child o.target)

def Output.put (options : PassOptions) (o : Output) : Pass Unit :=
  BuildPass.put options o.target (.ofString o.shown) (.ofString o.written)

/-- What a dry run prints for outputs. -/
def sections (outputs : List Output) : String :=
  texts (fun o => heading o.target ++ o.shown ++ "\n\n") outputs

/-- What a real run prints for outputs. -/
def ticks (options : PassOptions) (outputs : List Output) : String :=
  texts (fun o => s!"  ✓ {(options.project.child o.target).text}\n") outputs

/-- The files after outputs have been written one after the other. -/
def writeAll (options : PassOptions) (disk : Disk) (outputs : List Output) : Disk :=
  outputs.foldl (fun disk o => disk.write (options.project.child o.target) o.written) disk

theorem writeAll_append (options : PassOptions) (disk : Disk) (outputs outputs' : List Output) :
    writeAll options disk (outputs ++ outputs') =
      writeAll options (writeAll options disk outputs) outputs' :=
  List.foldl_append

/-- The same pass as a dry run. -/
def dry (options : PassOptions) : PassOptions := { options with dryRun := true }

private theorem does_put (wet : options.dryRun = false) (o : Output) (disk : Disk) :
    Does (o.put options) disk (.ok ()) (writeAll options disk [o]) (ticks options [o]) "" := by
  rintro s rfl
  rw [Output.put, BuildPass.put, if_neg (by simp [wet]),
    run_bind_ok (run_writeFile (LooseText.encode_ofString o.written) _ s),
      run_print, String.append_empty,
    ticks, texts_singleton]
  rfl

theorem does_putAll (wet : options.dryRun = false) (outputs : List Output) (disk : Disk) :
    Does (outputs.forM (Output.put options)) disk (.ok ()) (writeAll options disk outputs)
      (ticks options outputs)
      "" := by
  induction outputs generalizing disk with
  | nil => exact does_pure () disk
  | cons o outputs ih =>
    have h := (does_put wet o disk).bind (f := fun _ => outputs.forM (Output.put options)) (ih _)
    have ht : ticks options (o :: outputs) = ticks options [o] ++ ticks options outputs :=
      texts_append _ [o] outputs
    rw [ht]
    exact h

end Outputs

section Trees

variable {options : PassOptions} {result : AlignmentResult} {target : String} {s s' : PassState}
  {root edited : XmlNode} {targets : List String} {trees trees' : PomTrees}

/-- The tree of a POM with all the changes made once that a result has for it. -/
def editedTree (result : AlignmentResult) (target : String) (root : XmlNode) : XmlNode :=
  let ops := result.operations.filter fun op => op.target = target
  let root := (DocumentEdits.pomEditor.applyAll (ops.map Operation.edit) root).document
  let root := match result.newProperties.get? target with
    | some props => PomSections.addProperties props.entries root
    | none => root
  match result.injected.get? target with
  | some entries => PomSections.addManaged entries root
  | none => root

private theorem eq_of_editPom
    (h : (editPom options result target root).run.run s = (.ok edited, s')) :
    edited = editedTree result target root := by
  obtain ⟨document, s₁, ha, h⟩ := run_bind_eq_ok h
  obtain ⟨_, s₂, -, ha⟩ := run_bind_eq_ok ha
  split at ha
  · cases ha
  · cases ha
    cases h
    rfl

/-- Every POM is edited as often as it stands among the targets. -/
theorem trees_of_editPoms
    (h : (editPoms options result targets trees).run.run s = (.ok trees', s')) (target : String) :
    trees'.get? target =
      (trees.get? target).map (editedTree result target)^[targets.count target] := by
  induction targets generalizing trees s with
  | nil =>
    cases h
    exact Option.map_id.symm ▸ rfl
  | cons first targets ih =>
    rw [editPoms] at h
    cases hf : trees.get? first with
    | none =>
      rw [hf] at h
      rw [ih h]
      by_cases ht : first = target
      · rw [← ht, hf]
        rfl
      · rw [List.count_cons_of_ne ht]
    | some root =>
      rw [hf] at h
      obtain ⟨edited, s₁, he, h⟩ := run_bind_eq_ok h
      cases eq_of_editPom he
      rw [ih h, OrderedMap.get?_insert]
      by_cases ht : first = target
      · rw [if_pos ht, ← ht, hf, List.count_cons_self, Option.map_some, Option.map_some,
          Function.iterate_succ_apply]
      · rw [if_neg ht, List.count_cons_of_ne ht]

end Trees

section Poms

variable {disks : Disk → Prop} (options : PassOptions)

/-- The new text of a POM with this tree. -/
def pomOutput (target : String) (root : XmlNode) : Output :=
  ⟨target, XmlPrinter.print root, XmlPrinter.printFile root⟩

def pomOutputs (trees : PomTrees) (targets : List String) : List Output :=
  targets.filterMap fun target => (trees.get? target).map (pomOutput target)

/-- Aligns and edits the POMs that have been loaded, and returns what is to be put out. -/
def preparePoms (settings : AlignmentSettings) (loaded : List LoadedModule) :
    Pass (AlignmentResult × List Output) := do
  let modules := loaded.map LoadedModule.module
  let result ← alignModules options settings (InheritedProperties.reactorOf modules) true modules ∅
  let targets := modules.map PomModule.target
  let trees ← editPoms options result targets
    (OrderedMap.ofList (loaded.map fun l => (l.module.target, l.tree)))
  return (result, pomOutputs trees (targets.filter (isChanged result)))

private theorem putPoms_eq (trees : PomTrees) (targets : List String) :
    targets.forM (putPom options trees) = (pomOutputs trees targets).forM (Output.put options) := by
  induction targets with
  | nil => rfl
  | cons target targets ih =>
    change (putPom options trees target >>= fun _ => targets.forM (putPom options trees)) = _
    rw [ih, putPom]
    cases ht : trees.get? target with
    | none =>
      have ho : pomOutputs trees (target :: targets) = pomOutputs trees targets := by
        simp [pomOutputs, ht]
      rw [ho]
      rfl
    | some root =>
      have ho : pomOutputs trees (target :: targets) =
          pomOutput target root :: pomOutputs trees targets := by
        simp [pomOutputs, ht]
      rw [ho]
      rfl

theorem alignProject_eq (settings : AlignmentSettings) :
    alignProject options settings = (do
      let loaded ← loadModules options
      let (result, outputs) ← preparePoms options settings loaded
      outputs.forM (Output.put options)
      return result) := by
  simp only [alignProject, preparePoms, bind_assoc, pure_bind, putPoms_eq]

theorem quiet_preparePoms (settings : AlignmentSettings) (loaded : List LoadedModule) :
    Quiet disks (preparePoms options settings loaded) := by
  refine (quiet_alignModules options settings _ true _ ∅).bind fun result => ?_
  exact (quiet_editPoms options result _ _).bind fun trees => quiet_pure _

theorem outputs_of_preparePoms {settings : AlignmentSettings} {loaded : List LoadedModule}
    {result : AlignmentResult}
    {outputs : List Output} {s s' : PassState}
    (h : (preparePoms options settings loaded).run.run s = (.ok (result, outputs), s')) :
    ∃ trees s₁ s₂, (editPoms options result (loaded.map fun l => l.module.target)
        (OrderedMap.ofList (loaded.map fun l => (l.module.target, l.tree)))).run.run
          s₁ = (.ok trees, s₂) ∧
      outputs =
        pomOutputs trees ((loaded.map fun l => l.module.target).filter (isChanged result)) := by
  obtain ⟨aligned, s₁, -, h⟩ := run_bind_eq_ok h
  obtain ⟨trees, s₂, ht, h⟩ := run_bind_eq_ok h
  cases h
  rw [List.map_map] at ht
  exact ⟨trees, _, _, ht, by rw [List.map_map]; rfl⟩

end Poms
end BuildAlign.BuildPass
