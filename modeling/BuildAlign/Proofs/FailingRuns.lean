import BuildAlign.Proofs.DocumentKinds
import BuildAlign.Proofs.JsonPhase
import BuildAlign.Proofs.PassEffects

/-! # What a failing run leaves behind

A run fails at one of the JSON documents or in the POM phase.  The documents before that have all of
their edits, and no other file has changed; only a text that cannot be written leaves its own file
empty. -/
namespace BuildAlign.BuildPass
open DocumentEdits JsonReader

variable {options : PassOptions} {disk disk₁ disk' : Disk} {target : String} {ops : List Operation}
  {s s' : PassState}

section Frames

/-- Only the files of these targets may have changed. -/
structure Confined (options : PassOptions) (targets : List String) (disk disk' : Disk) : Prop where
  home : disk'.home = disk.home
  files : ∀ location, (∀ t ∈ targets, disk.resolve (options.project.child t) ≠ location) →
    disk'.files.get? location = disk.files.get? location
  paths : ∀ path, (∀ t ∈ targets, disk.resolve (options.project.child t) ≠ disk.resolve path) →
    disk'.lookup path = disk.lookup path

theorem Confined.refl (options : PassOptions) (targets : List String) (disk : Disk) :
    Confined options targets disk disk := ⟨rfl, fun _ _ => rfl, fun _ _ => rfl⟩

theorem resolve_congr (h : disk'.home = disk.home) (path : ProjectPath) :
    disk'.resolve path = disk.resolve path := by
  simp only [Disk.resolve, Disk.start, h]

theorem Confined.trans {targets targets' : List String} (h : Confined options targets disk disk₁)
    (h' : Confined options targets' disk₁ disk') :
    Confined options (targets ++ targets') disk disk' := by
  have hr := resolve_congr h.home
  refine ⟨h'.home.trans h.home, fun location hn => ?_, fun path hn => ?_⟩
  · rw [h'.files location fun t ht =>
      hr (options.project.child t) ▸ hn t (List.mem_append_right _ ht)]
    exact h.files location fun t ht => hn t (List.mem_append_left _ ht)
  · rw [h'.paths path fun t ht => by rw [hr, hr]; exact hn t (List.mem_append_right _ ht)]
    exact h.paths path fun t ht => hn t (List.mem_append_left _ ht)

theorem Confined.mono {targets targets' : List String} (h : Confined options targets disk disk')
    (hs : ∀ t ∈ targets, t ∈ targets') : Confined options targets' disk disk' :=
  ⟨h.home, fun location hn => h.files location fun t ht => hn t (hs t ht),
    fun path hn => h.paths path fun t ht => hn t (hs t ht)⟩

theorem confined_write {text : String} (h : disk.lookup (options.project.child target) = .file text)
    (written : String) :
    Confined options [target] disk (disk.write (options.project.child target) written) := by
  refine ⟨rfl, fun location hn => ?_, fun path hn => ?_⟩
  · rw [Disk.get?_write, if_neg (hn target List.mem_cons_self)]
  · exact Disk.lookup_write h written (Ne.symm (hn target List.mem_cons_self))

end Frames

section Targets

/-- What is written for a target: the document in its file with all of the operations made. -/
def Outcome (options : PassOptions) (disk : Disk) (entry : String × List Operation)
    (content : LooseText) : Prop :=
  ∃ text doc edited, disk.lookup (options.project.child entry.1) = .file text ∧
    read? text = some doc ∧
    editEach entry.2 doc = .ok edited ∧ content = JsonPrinter.print edited ++ .ofString "\n"

/-- The file of a target holds the result of all its operations. -/
def Edited (options : PassOptions) (disk disk' : Disk) (entry : String × List Operation) : Prop :=
  ∃ content written, Outcome options disk entry content ∧ content.encode = .ok written ∧
    disk'.lookup (options.project.child entry.1) = .file written

theorem lookup_of_readFile {path : ProjectPath} {absent : PassFault} {text : String}
    (h : (readFile path absent).run.run s = (.ok text, s')) : s.disk.lookup path = .file text := by
  have hg : (get : Pass PassState).run.run s = (.ok s, s) := rfl
  rw [readFile, run_bind_ok hg] at h
  split at h
  · next hl =>
    cases h
    exact hl
  all_goals cases h

theorem editEach_of_applyAll {doc edited : JsonValue} (hc : scalarKind? doc = none)
    (h : (applyAll options jsonEditor ops doc).run.run s = (.ok edited, s')) :
    editEach ops doc = .ok edited := by
  rw [editEach_container hc]
  cases hf : (jsonEditor.applyAll (ops.map Operation.edit) doc).failure with
  | some cause =>
    obtain ⟨fault, s₁, hb⟩ := breaks_applyAll options hf s.disk s rfl
    cases hb.symm.trans h
  | none =>
    obtain ⟨s₁, he, -⟩ := ends_applyAll options hf s.disk s rfl
    cases he.symm.trans h
    rfl

private theorem run_put_cases (wet : options.dryRun = false) {shown content : LooseText}
    {result : Except PassFault Unit}
    (h : (put options target shown content).run.run s = (result, s')) :
    (∃ written, content.encode = .ok written ∧ result = .ok () ∧
      s'.disk = s.disk.write (options.project.child target) written) ∨
    ∃ halves, content.encode = .error halves ∧ result = .error (.unwritable halves) ∧
      s'.disk = s.disk.write (options.project.child target) "" := by
  cases he : content.encode with
  | ok written =>
    have hends : Ends (put options target shown content) s.disk () _ := ends_put wet he s.disk
    obtain ⟨s₁, hr, hd⟩ := hends s rfl
    cases hr.symm.trans h
    exact .inl ⟨written, rfl, rfl, hd⟩
  | error halves =>
    simp only [put, wet] at h
    cases (run_bind_error (run_writeFile_error he _ s)).symm.trans h
    exact .inr ⟨halves, rfl, rfl, rfl⟩

/-- A pass over one document writes its outcome, or fails before it writes, or leaves the file empty
because the outcome cannot be written. -/
theorem run_updateJson_cases (wet : options.dryRun = false) {result : Except PassFault Unit}
    (h : (updateJson options target ops).run.run s = (result, s')) :
    (∃ content written, Outcome options s.disk (target, ops) content ∧
      content.encode = .ok written ∧
      result = .ok () ∧ s'.disk = s.disk.write (options.project.child target) written) ∨
    (∃ fault, result = .error fault ∧ s'.disk = s.disk) ∨
    ∃ content halves, Outcome options s.disk (target, ops) content ∧
      result = .error (.unwritable halves) ∧
        s'.disk = s.disk.write (options.project.child target) "" := by
  rcases run_bind_cases h with ⟨fault, hf, rfl⟩ | ⟨text, s₁, hr, h⟩
  · exact .inr (.inl ⟨fault, rfl, (readOnly_readFile _ _).disk_eq hf⟩)
  have hl := lookup_of_readFile hr
  have hd₁ : s₁.disk = s.disk := (readOnly_readFile _ _).disk_eq hr
  cases hdoc : read? text with
  | none =>
    simp only [read_of_none hdoc] at h
    cases h
    exact .inr (.inl ⟨_, rfl, hd₁⟩)
  | some doc =>
    simp only [read_of_some hdoc] at h
    cases hk : scalarKind? doc with
    | some kind =>
      simp only [editorFor, hk] at h
      cases h
      exact .inr (.inl ⟨_, rfl, hd₁⟩)
    | none =>
      simp only [editorFor_container hk] at h
      rcases run_bind_cases h with ⟨fault, hf, rfl⟩ | ⟨edited, s₂, ha, h⟩
      · exact .inr (.inl ⟨fault, rfl, ((readOnly_applyAll options _ ops doc).disk_eq hf).trans hd₁⟩)
      have hd₂ : s₂.disk = s.disk := ((readOnly_applyAll options _ ops doc).disk_eq ha).trans hd₁
      have ho : Outcome options s.disk (target, ops) (JsonPrinter.print edited ++ .ofString "\n") :=
        ⟨text, doc, edited, hl, hdoc, editEach_of_applyAll hk ha, rfl⟩
      rcases run_put_cases wet h with ⟨written, he, rfl, hd⟩ | ⟨halves, -, rfl, hd⟩
      · exact .inl ⟨_, written, ho, he, rfl, hd₂ ▸ hd⟩
      · exact .inr (.inr ⟨_, halves, ho, rfl, hd₂ ▸ hd⟩)

theorem Outcome.congr {entry : String × List Operation} {content : LooseText}
    (h : Outcome options disk₁ entry content)
    (hl : disk₁.lookup (options.project.child entry.1) =
      disk.lookup (options.project.child entry.1)) :
    Outcome options disk entry content := by
  obtain ⟨text, doc, edited, hf, h⟩ := h
  exact ⟨text, doc, edited, hl ▸ hf, h⟩

/-- There is a file with a JSON document. -/
def HoldsJson (disk : Disk) (location : Location) : Prop :=
  ∃ text doc, disk.files.get? location = some text ∧ read? text = some doc

private theorem Outcome.holdsJson {entry : String × List Operation} {content : LooseText}
    (h : Outcome options disk entry content) :
    HoldsJson disk (disk.resolve (options.project.child entry.1)) := by
  obtain ⟨text, doc, _, hl, hd, -⟩ := h
  exact ⟨text, doc, Disk.get?_of_lookup hl, hd⟩

theorem HoldsJson.congr {location : Location} (h : HoldsJson disk' location)
    (hg : disk'.files.get? location = disk.files.get? location) : HoldsJson disk location := by
  obtain ⟨text, doc, ht, hd⟩ := h
  exact ⟨text, doc, hg ▸ ht, hd⟩

end Targets

section Entries

variable {entries : List (String × List Operation)} {fault : PassFault}

/-- The files of the targets hold the results of their operations, and no other file has changed. -/
structure Done (options : PassOptions) (entries : List (String × List Operation))
    (disk disk' : Disk) : Prop where
  edited : ∀ entry ∈ entries, Edited options disk disk' entry
  confined : Confined options (entries.map Prod.fst) disk disk'

private theorem done_nil (options : PassOptions) (disk : Disk) : Done options [] disk disk :=
  ⟨nofun, .refl options [] disk⟩

theorem Done.cons {content : LooseText} {written : String}
    (ho : Outcome options disk (target, ops) content)
    (he : content.encode = .ok written)
    (ha : ∀ t ∈ entries.map Prod.fst,
      disk.resolve (options.project.child target) ≠ disk.resolve (options.project.child t))
    (h : Done options entries (disk.write (options.project.child target) written) disk') :
    Done options ((target, ops) :: entries) disk disk' := by
  have ⟨text, _, _, hl, _⟩ := ho
  refine ⟨fun entry hm => ?_, (confined_write hl written).trans h.confined⟩
  rcases List.mem_cons.1 hm with rfl | hm
  · have hp := h.confined.paths (options.project.child target) fun t ht => Ne.symm (ha t ht)
    exact ⟨content, written, ho, he, hp.trans (Disk.lookup_write_self hl written)⟩
  · obtain ⟨content', written', ho', he', hw⟩ := h.edited entry hm
    have hne := Ne.symm (ha entry.1 (List.mem_map_of_mem hm))
    exact ⟨content', written', ho'.congr (Disk.lookup_write hl written hne), he', hw⟩

private theorem done_of_updateEntries (wet : options.dryRun = false) {targets : List String}
    (ha : Apart options s.disk (entries.map Prod.fst))
    (h : (updateEntries options entries).run.run s = (.ok targets, s')) :
    Done options entries s.disk s'.disk := by
  induction entries generalizing s targets with
  | nil =>
    cases h
    exact done_nil options _
  | cons entry entries ih =>
    obtain ⟨target, ops⟩ := entry
    obtain ⟨hhead, htail⟩ := ha.of_cons
    rw [updateEntries_cons] at h
    obtain ⟨_, s₁, hu, h⟩ := run_bind_eq_ok h
    obtain ⟨later, s₂, hl, h⟩ := run_bind_eq_ok h
    cases h
    rcases run_updateJson_cases wet hu with
      ⟨content, written, ho, he, -, hd⟩ | ⟨_, hr, -⟩ | ⟨_, _, _, hr, -⟩
    · exact .cons ho he hhead (hd ▸ ih (hd ▸ htail.write target written) hl)
    · cases hr
    · cases hr

/-- Documents that are edited one after the other fail at one of them, after those before it. -/
theorem exists_of_updateEntries_error
    (h : (updateEntries options entries).run.run s = (.error fault, s')) :
    ∃ before target ops after s₁, entries = before ++ (target, ops) :: after ∧
      (updateEntries options before).run.run s = (.ok (before.map Prod.fst), s₁) ∧
      (updateJson options target ops).run.run s₁ = (.error fault, s') := by
  induction entries generalizing s with
  | nil => cases h
  | cons entry entries ih =>
    obtain ⟨target, ops⟩ := entry
    rw [updateEntries_cons] at h
    rcases run_bind_cases h with ⟨_, hu, hf⟩ | ⟨_, s₁, hu, h⟩
    · cases hf
      exact ⟨[], target, ops, entries, s, rfl, rfl, hu⟩
    rcases run_bind_cases h with ⟨_, hl, hf⟩ | ⟨_, _, _, h⟩
    · cases hf
      obtain ⟨before, target', ops', after, s₂, rfl, hb, hu'⟩ := ih hl
      refine ⟨(target, ops) :: before, target', ops', after, s₂, rfl, ?_, hu'⟩
      rw [updateEntries_cons, run_bind_ok hu, run_bind_ok hb]
      rfl
    · cases h

private theorem Done.holdsJson (h : Done options entries disk disk') {location : Location}
    (changed : disk'.files.get? location ≠ disk.files.get? location) : HoldsJson disk location := by
  have hm : ¬ ∀ t ∈ entries.map Prod.fst, disk.resolve (options.project.child t) ≠ location :=
    fun hn => changed (h.confined.files location hn)
  push Not at hm
  obtain ⟨t, ht, rfl⟩ := hm
  obtain ⟨entry, he, rfl⟩ := List.mem_map.1 ht
  obtain ⟨_, _, ho, -⟩ := h.edited entry he
  exact ho.holdsJson

end Entries

section Runs

variable {props : PropertyMap} {json : JsonSettings}
  {alignment : AlignmentSettings} {fault : PassFault}

theorem entries_of_disabled (h : json.isEnabled = false) : json.byTarget.entries = [] := by
  obtain ⟨ops⟩ := json
  cases ops with
  | nil => rfl
  | cons op ops => cases h

private theorem discard_bind {α β : Type} (p : Pass α) (f : Unit → Pass β) :
    discard p >>= f = p >>= fun _ => f () := by
  rw [discard, LawfulFunctor.map_const, Function.comp_apply, bind_map_left]

/-- What a run does after the JSON phase. -/
def pomPhase (options : PassOptions) (alignment : AlignmentSettings) :
    Pass (Option AlignmentResult) := do
  if !alignment.isEnabled then return none
  let result ← alignProject options alignment
  result.warnings.forM fun warning => report s!"WARNING: {warning}"
  print (.ofString (summary result))
  return some result

private theorem run_pomPhase_error
    (h : (pomPhase options alignment).run.run s = (.error fault, s')) :
    (alignProject options alignment).run.run s = (.error fault, s') := by
  rw [pomPhase] at h
  split at h
  · cases h
  · rcases run_bind_cases h with ⟨_, hp, he⟩ | ⟨result, s₁, -, h⟩
    · cases he
      exact hp
    · obtain ⟨value, s₂, hv⟩ := unfailing_closing result s₁
      cases hv.symm.trans h

/-- A run whose settings can be read has nothing to do, or goes through both phases. -/
theorem run_eq (hj : JsonSettings.ofProperties props = .ok json)
    (ha : AlignmentSettings.ofProperties props = .ok alignment) :
    run options props =
      if !json.isEnabled && !alignment.isEnabled then do
        print (.ofString "Nothing to do: neither jsonUpdate nor dependencyManagement is set.\n")
        return none
      else updateAllJson options json >>= fun _ => pomPhase options alignment := by
  simp only [run, hj, ha, pure_bind]
  cases hd : json.isEnabled with
  | true =>
    simp only [discard_bind]
    rfl
  | false =>
    have hn : updateAllJson options json = pure [] := by
      rw [updateAllJson, entries_of_disabled hd]
      rfl
    rw [hn, pure_bind]
    rfl

theorem run_of_operations_error {cause : OperationError}
    (hj : JsonSettings.ofProperties props = .error cause)
    (s : PassState) : (run options props).run.run s = (.error (.operation cause), s) := by
  simp only [run, hj]
  rfl

theorem run_of_settings_error {cause : SettingsError}
    (hj : JsonSettings.ofProperties props = .ok json)
    (ha : AlignmentSettings.ofProperties props = .error cause) (s : PassState) :
    (run options props).run.run s = (.error (.settings cause), s) := by
  simp only [run, hj, ha, pure_bind]
  rfl

/-- A run fails where the JSON phase fails. -/
theorem run_of_updateEntries_error (hj : JsonSettings.ofProperties props = .ok json)
    (ha : AlignmentSettings.ofProperties props = .ok alignment)
    (h : (updateEntries options json.byTarget.entries).run.run s = (.error fault, s')) :
    (run options props).run.run s = (.error fault, s') := by
  have henabled : json.isEnabled = true := by
    cases hn : json.isEnabled with
    | true => rfl
    | false =>
      rw [entries_of_disabled hn] at h
      cases h
  rw [run_eq hj ha, henabled]
  exact run_bind_error h

private theorem run_error_cases (hj : JsonSettings.ofProperties props = .ok json)
    (ha : AlignmentSettings.ofProperties props = .ok alignment)
    (h : (run options props).run.run s = (.error fault, s')) :
    (updateAllJson options json).run.run s = (.error fault, s') ∨
      ∃ targets s₁, (updateAllJson options json).run.run s = (.ok targets, s₁) ∧
        (alignProject options alignment).run.run s₁ = (.error fault, s') := by
  rw [run_eq hj ha] at h
  split at h
  · cases h
  · rcases run_bind_cases h with ⟨_, hu, he⟩ | ⟨targets, s₁, hu, h⟩
    · cases he
      exact .inl hu
    · exact .inr ⟨targets, s₁, hu, run_pomPhase_error h⟩

private theorem apart_entries {disk : Disk} (apart : ∀ t ∈ json.targets, ∀ t' ∈ json.targets,
      disk.resolve (options.project.child t) = disk.resolve (options.project.child t') → t = t') :
    Apart options disk (json.byTarget.entries.map Prod.fst) := by
  refine json.byTarget.distinct.imp_of_mem fun {t t'} ht ht' hne he => hne ?_
  have hkeys : json.byTarget.entries.map Prod.fst = json.targets.eraseDups :=
    JsonSettings.keys_byTarget json
  rw [hkeys, List.mem_eraseDups] at ht ht'
  exact apart t ht t' ht' he

/-- How a run fails without leaving work half done. -/
inductive FailsWhole (options : PassOptions) (json : JsonSettings) (alignment : AlignmentSettings)
    (s : PassState) (fault : PassFault) (s' : PassState) : Prop
  /-- It fails at one of the JSON targets, after those before it. -/
  | target {before after : List (String × List Operation)} {target : String} {ops : List Operation}
    {s₁ : PassState} (entries : json.byTarget.entries = before ++ (target, ops) :: after)
    (updated : (updateEntries options before).run.run s = (.ok (before.map Prod.fst), s₁))
    (fails : (updateJson options target ops).run.run s₁ = (.error fault, s'))
    (done : Done options before s.disk s₁.disk)
    (kept : s'.disk = s₁.disk ∨
      ∃ halves, fault = .unwritable halves ∧
        s'.disk = s₁.disk.write (options.project.child target) "")
  /-- It fails in the POM phase, after all JSON targets. -/
  | poms {targets : List String} {s₁ : PassState}
    (updated : (updateAllJson options json).run.run s = (.ok targets, s₁))
    (fails : (alignProject options alignment).run.run s₁ = (.error fault, s'))
    (done : Done options json.byTarget.entries s.disk s₁.disk)
    (kept : s'.disk = s₁.disk)

/-- A failing run leaves files whole.  When it fails at one of the JSON targets, the files of those
before it hold the results of all their operations, and no other file has changed, save that the
target's own is left empty when its new text cannot be written.  When it fails in the POM phase,
that has changed nothing: the files of all JSON targets hold the results, and no other file has
changed.  Whatever has changed was a JSON document, so it was no POM. -/
theorem failing_run_leaves_files_whole (options : PassOptions) (wet : options.dryRun = false)
    (hj : JsonSettings.ofProperties props = .ok json)
    (ha : AlignmentSettings.ofProperties props = .ok alignment)
    (s s' : PassState) (apart : ∀ t ∈ json.targets, ∀ t' ∈ json.targets,
      s.disk.resolve (options.project.child t) = s.disk.resolve (options.project.child t') → t = t')
    (failed : (run options props).run.run s = (.error fault, s')) :
    FailsWhole options json alignment s fault s' ∧
    ∀ location, s'.disk.files.get? location ≠ s.disk.files.get? location →
      ∃ text, s.disk.files.get? location = some text ∧ (∃ doc, read? text = some doc) ∧
        ∀ root, XmlReader.read text ≠ .ok root := by
  have hapart := apart_entries apart
  have hkind : ∀ {location}, HoldsJson s.disk location →
    ∃ text, s.disk.files.get? location = some text ∧
      (∃ doc, read? text = some doc) ∧ ∀ root, XmlReader.read text ≠ .ok root :=
    fun ⟨text, doc, hg, hd⟩ => ⟨text, hg, ⟨doc, hd⟩, DocumentKinds.not_xml_of_json hd⟩
  rcases run_error_cases hj ha failed with hu | ⟨targets, s₁, hu, hp⟩
  · obtain ⟨before, target, ops, after, s₁, he, hb, ht⟩ := exists_of_updateEntries_error hu
    have hdone : Done options before s.disk s₁.disk := by
      refine done_of_updateEntries wet ?_ hb
      rw [he, List.map_append] at hapart
      exact (List.pairwise_append.1 hapart).1
    rcases run_updateJson_cases wet ht with
      ⟨_, _, _, _, hr, -⟩ | ⟨_, hr, hd⟩ | ⟨_, halves, ho, hr, hd⟩
    · cases hr
    · refine ⟨.target he hb ht hdone (.inl hd), fun location changed => hkind ?_⟩
      rw [hd] at changed
      exact hdone.holdsJson changed
    · cases hr
      refine ⟨.target he hb ht hdone (.inr ⟨halves, rfl, hd⟩), fun location changed => hkind ?_⟩
      -- What the emptied file held last was a JSON document, and then so was what it held at first.
      by_cases hg : s₁.disk.files.get? location = s.disk.files.get? location
      · rw [hd, Disk.get?_write] at changed
        split at changed
        · next hl => exact (hl ▸ ho.holdsJson).congr hg
        · exact absurd hg changed
      · exact hdone.holdsJson hg
  · have hdone := done_of_updateEntries wet hapart hu
    have hd := atomic_alignProject options alignment s₁ fault s' hp
    refine ⟨.poms hu hp hdone hd, fun location changed => hkind ?_⟩
    rw [hd] at changed
    exact hdone.holdsJson changed

def here : PassOptions := ⟨⟨"", []⟩, false, false⟩

/-- An edit of a document that is there and one of a document that is not. -/
def twoTargets : PropertyMap := .ofList [("jsonUpdate", some "a.json:$.x:y,b.json:$.z")]

def oneFileMissing : PassState :=
  ⟨⟨["p"], .ofList [(["p", "a.json"], "\x7b\"x\": 1\x7d"), (["p", "pom.xml"], "<project/>")]⟩, "",
    ""⟩

theorem failing_run_leaves_files_whole_missing :
    ∃ fault s', (run here twoTargets).run.run oneFileMissing = (.error fault, s') ∧
      FailsWhole here ⟨[⟨"a.json", "$.x", some "y"⟩, ⟨"b.json", "$.z", none⟩]⟩
        ⟨[], true, true, false, false, .literal, []⟩ oneFileMissing fault s' ∧
      s'.disk.files.get? ["p", "a.json"] = some "\x7b\n  \"x\": \"y\"\n\x7d\n" ∧
      s'.disk.files.get? ["p", "pom.xml"] = some "<project/>" ∧
      ∀ root, XmlReader.read "\x7b\"x\": 1\x7d" ≠ .ok root := by
  have hfails : ((run here twoTargets).run.run oneFileMissing).1.toOption.isNone = true := by
    decide +kernel
  have hfiles : ((run here twoTargets).run.run oneFileMissing).2.disk.files.get? ["p", "a.json"] =
      some "\x7b\n  \"x\": \"y\"\n\x7d\n" ∧
      ((run here twoTargets).run.run oneFileMissing).2.disk.files.get? ["p", "pom.xml"] =
        some "<project/>" := by
    decide +kernel
  have hj : JsonSettings.ofProperties twoTargets =
      .ok ⟨[⟨"a.json", "$.x", some "y"⟩, ⟨"b.json", "$.z", none⟩]⟩ := by decide +kernel
  have ha : AlignmentSettings.ofProperties twoTargets =
      .ok ⟨[], true, true, false, false, .literal, []⟩ := by
    decide +kernel
  rcases hr : (run here twoTargets).run.run oneFileMissing with ⟨fault | result, s'⟩
  · rw [hr] at hfiles
    obtain ⟨hwhole, hkind⟩ :=
      failing_run_leaves_files_whole here rfl hj ha oneFileMissing s' (by decide +kernel) hr
    obtain ⟨text, ht, -, hx⟩ := hkind ["p", "a.json"] (by rw [hfiles.1]; decide +kernel)
    cases ht
    exact ⟨fault, s', rfl, hwhole, hfiles.1, hfiles.2, hx⟩
  · rw [hr] at hfails
    cases hfails

end Runs
end BuildAlign.BuildPass
