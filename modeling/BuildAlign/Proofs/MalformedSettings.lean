import BuildAlign.Proofs.FailingRuns
import BuildAlign.Proofs.ListReading

/-! # Malformed settings

Most malformed values are found when the settings are read, before anything else.  Of a path into a
JSON document only the beginning is looked at then; the rest is compiled when the document is
edited, and by then the documents before it have been written. -/
namespace BuildAlign
open BuildPass

section Settings

variable {props : PropertyMap}

/-- Some value of the properties is malformed, as can be told from the properties. -/
inductive MalformedValue (props : PropertyMap) : Prop
  | operations {cause : OperationError}
    (h : EditOperation.parse ((props.value? "jsonUpdate").getD "") = .error cause)
  | relativePath {ops : List Operation} {op : Operation}
    (h : EditOperation.parse ((props.value? "jsonUpdate").getD "") = .ok ops) (hm : op ∈ ops)
    (hp : op.path.toList.head? ≠ some '$')
  | candidate {text : String} {raw : List Char} {cause : CoordinateError}
    (hv : props.value? "dependencyManagement" = some text) (hb : BlankText.trim text.toList ≠ [])
    (hm : raw ∈ DelimitedText.split ',' text.toList)
    (h : DependencyCoordinates.parseReference (String.ofList raw) = .error cause)
  | exclusion {key : String} {value : Option String} {cause : CoordinateError}
    (hm : (key, value) ∈ props.entries)
    (h : AlignmentSettings.exclusion? key value = .error cause)
  | format {text : String} (hv : props.value? "versionPropertyFormat" = some text) (hn : text ≠ "")
    (h : VersionPropertyFormat.ofLabel? text = none)

private theorem operations_fail_iff :
    (∃ cause, JsonSettings.ofProperties props = .error cause) ↔
      (∃ cause, EditOperation.parse ((props.value? "jsonUpdate").getD "") = .error cause) ∨
        ∃ ops, EditOperation.parse ((props.value? "jsonUpdate").getD "") = .ok ops ∧
          ∃ op ∈ ops, op.path.toList.head? ≠ some '$' := by
  unfold JsonSettings.ofProperties
  cases EditOperation.parse ((props.value? "jsonUpdate").getD "") with
  | error cause => exact iff_of_true ⟨cause, rfl⟩ (.inl ⟨cause, rfl⟩)
  | ok ops =>
    simp only [bind, Except.bind]
    cases hf : ops.find? fun op => op.path.toList.head? ≠ some '$' with
    | some op =>
      have hp := List.find?_some hf
      exact iff_of_true ⟨_, rfl⟩
        (.inr ⟨ops, rfl, op, List.mem_of_find?_eq_some hf, by simpa using hp⟩)
    | none =>
      refine iff_of_false ?_ ?_
      · rintro ⟨_, h⟩
        cases h
      rintro (⟨_, h⟩ | ⟨_, h, op, hm, hp⟩)
      · cases h
      · cases h
        exact List.find?_eq_none.1 hf op hm (by simpa using hp)

private theorem candidates_fail_iff {text : String} :
    (∃ cause, DependencyCoordinates.parseList text = .error cause) ↔
      BlankText.trim text.toList ≠ [] ∧ ∃ raw ∈ DelimitedText.split ',' text.toList,
        ∃ cause, DependencyCoordinates.parseReference (String.ofList raw) = .error cause := by
  unfold DependencyCoordinates.parseList
  split
  · next hb => exact iff_of_false nofun fun h => h.1 hb
  · next hb =>
    rw [ListReading.mapM_fails_iff]
    exact (and_iff_right hb).symm

private theorem exclusions_fail_iff :
    (∃ cause, AlignmentSettings.exclusionsOf props = .error cause) ↔
      ∃ entry ∈ props.entries, ∃ cause,
        AlignmentSettings.exclusion? entry.1 entry.2 = .error cause := by
  rw [← ListReading.mapM_fails_iff]
  unfold AlignmentSettings.exclusionsOf
  cases props.entries.mapM fun entry => AlignmentSettings.exclusion? entry.1 entry.2 with
  | error cause => exact iff_of_true ⟨cause, rfl⟩ ⟨cause, rfl⟩
  | ok found =>
    refine iff_of_false ?_ ?_
    · rintro ⟨_, h⟩
      cases h
    · rintro ⟨_, h⟩
      cases h

private theorem format_fails_iff {value : Option String} :
    (∃ cause, AlignmentSettings.formatOf value = .error cause) ↔
      ∃ text, value = some text ∧ text ≠ "" ∧ VersionPropertyFormat.ofLabel? text = none := by
  cases value with
  | none => exact iff_of_false nofun nofun
  | some text =>
    unfold AlignmentSettings.formatOf
    by_cases hn : text = ""
    · simp [hn]
    · cases hf : VersionPropertyFormat.ofLabel? text <;> simp [hn, hf]

private theorem alignment_fails_iff :
    (∃ cause, AlignmentSettings.ofProperties props = .error cause) ↔
      (∃ cause, DependencyCoordinates.parseList
        ((props.value? "dependencyManagement").getD "") = .error cause) ∨
      (∃ cause, AlignmentSettings.formatOf (props.value? "versionPropertyFormat") = .error cause) ∨
      ∃ cause, AlignmentSettings.exclusionsOf props = .error cause := by
  unfold AlignmentSettings.ofProperties
  cases DependencyCoordinates.parseList ((props.value? "dependencyManagement").getD "") <;>
    cases AlignmentSettings.formatOf (props.value? "versionPropertyFormat") <;>
    cases AlignmentSettings.exclusionsOf props <;>
    simp [Except.mapError, bind, Except.bind, pure, Except.pure]

/-- The settings cannot be read just when some value is malformed. -/
theorem settings_fail_iff :
    (∃ cause, JsonSettings.ofProperties props = .error cause) ∨
        (∃ cause, AlignmentSettings.ofProperties props = .error cause) ↔ MalformedValue props := by
  rw [operations_fail_iff, alignment_fails_iff, candidates_fail_iff,
    format_fails_iff, exclusions_fail_iff]
  constructor
  · rintro ((⟨_, h⟩ | ⟨_, h, _, hm, hp⟩) | (⟨hb, _, hm, _, h⟩ | ⟨_, hv, hn, h⟩ | ⟨_, hm, _, h⟩))
    · exact .operations h
    · exact .relativePath h hm hp
    · cases hv : props.value? "dependencyManagement" with
      | none =>
        rw [hv] at hb
        exact absurd rfl hb
      | some text =>
        rw [hv] at hb hm
        exact .candidate hv hb hm h
    · exact .format hv hn h
    · exact .exclusion hm h
  · intro h
    cases h with
    | operations h => exact .inl (.inl ⟨_, h⟩)
    | relativePath h hm hp => exact .inl (.inr ⟨_, h, _, hm, hp⟩)
    | candidate hv hb hm h =>
      rw [hv]
      exact .inr (.inl ⟨hb, _, hm, _, h⟩)
    | exclusion hm h => exact .inr (.inr (.inr ⟨_, hm, _, h⟩))
    | format hv hn h => exact .inr (.inr (.inl ⟨_, hv, hn, h⟩))

end Settings

section Paths

variable {options : PassOptions} {ops : List Operation} {target : String}

private theorem run_of_malformedValue {props : PropertyMap}
    (h : MalformedValue props) (s : PassState) :
    ∃ fault, (run options props).run.run s = (.error fault, s) := by
  cases hj : JsonSettings.ofProperties props with
  | error cause => exact ⟨_, run_of_operations_error hj s⟩
  | ok json =>
    rcases settings_fail_iff.2 h with ⟨_, hj'⟩ | ⟨cause, ha⟩
    · cases hj.symm.trans hj'
    · exact ⟨_, run_of_settings_error hj ha s⟩

/-- Edits are only made when all their paths are paths. -/
theorem compiles_of_applyAll {doc : JsonValue}
    (h : (DocumentEdits.jsonEditor.applyAll (ops.map Operation.edit) doc).failure = none) :
    ∀ op ∈ ops, ∃ segments, JsonPath.compile op.path = .ok segments := by
  induction ops generalizing doc with
  | nil => nofun
  | cons op ops ih =>
    rw [List.map_cons, Editor.applyAll] at h
    cases ha : DocumentEdits.jsonEditor.apply op.edit doc with
    | error cause =>
      simp only [ha] at h
      cases h
    | ok edited =>
      simp only [ha] at h
      refine List.forall_mem_cons.2 ⟨?_, ih h⟩
      cases hc : JsonPath.compile op.path with
      | ok segments => exact ⟨segments, rfl⟩
      | error cause =>
        have hl : DocumentEdits.jsonEditor.locate op.edit.path doc = .error (.jsonPath cause) := by
          change DocumentEdits.locateJson op.path doc = _
          simp only [DocumentEdits.locateJson, hc]
          rfl
        simp only [Editor.apply, hl] at ha
        cases ha

/-- One of the operations has a path that is none. -/
def Rejected (ops : List Operation) : Prop :=
  ∃ op ∈ ops, ∃ cause, JsonPath.compile op.path = .error cause

private theorem quits_applyAll (h : Rejected ops) (doc : JsonValue) :
    Quits (applyAll options DocumentEdits.jsonEditor ops doc) := by
  cases hf : (DocumentEdits.jsonEditor.applyAll (ops.map Operation.edit) doc).failure with
  | some cause =>
    intro s
    obtain ⟨fault, s', hr⟩ := breaks_applyAll options hf s.disk s rfl
    exact ⟨fault, s', hr, (readOnly_applyAll options _ ops doc).disk_eq hr⟩
  | none =>
    obtain ⟨op, hm, cause, hc⟩ := h
    obtain ⟨segments, hs⟩ := compiles_of_applyAll hf op hm
    cases hc.symm.trans hs

private theorem eq_jsonEditor {doc : JsonValue} {editor : Editor JsonValue}
    (h : DocumentEdits.editorFor doc = .ok editor) :
    editor = DocumentEdits.jsonEditor := by
  unfold DocumentEdits.editorFor at h
  split at h
  · cases h
  · cases h
    rfl

/-- A document with such an operation is not written. -/
theorem quits_updateJson (h : Rejected ops) (target : String) :
    Quits (updateJson options target ops) := by
  refine (readOnly_readFile _ _).bind_quits fun text => ?_
  split
  · exact quits_throw _
  · split
    · exact quits_throw _
    · next he =>
      cases eq_jsonEditor he
      exact (quits_applyAll h _).bind

/-- Whatever comes of a document, no file but its own changes. -/
theorem confined_updateJson {s s' : PassState} {result : Except PassFault Unit}
    (h : (updateJson options target ops).run.run s = (result, s')) :
    Confined options [target] s.disk s'.disk := by
  by_cases dry : options.dryRun = true
  · rw [(readOnly_updateJson dry target ops).disk_eq h]
    exact .refl options [target] s.disk
  · rcases run_updateJson_cases (by simpa using dry) h with
      ⟨_, _, ho, _, _, hd⟩ | ⟨_, _, hd⟩ | ⟨_, _, ho, _, hd⟩
    · obtain ⟨_, _, _, hl, -⟩ := ho
      rw [hd]
      exact confined_write hl _
    · rw [hd]
      exact .refl options [target] s.disk
    · obtain ⟨_, _, _, hl, -⟩ := ho
      rw [hd]
      exact confined_write hl _

/-- Where one of the documents has such an operation, the pass over all of them fails.  It gets at
most as far as that document, and as far as that when those before it are edited. -/
theorem updateEntries_of_rejected (options : PassOptions) (h : Rejected ops)
    (before after : List (String × List Operation)) (s : PassState) :
    ∃ fault s',
      (updateEntries options (before ++ (target, ops) :: after)).run.run s = (.error fault, s') ∧
      Confined options (before.map Prod.fst) s.disk s'.disk ∧
      ∀ targets s₁, (updateEntries options before).run.run s = (.ok targets, s₁) →
        s'.disk = s₁.disk := by
  induction before generalizing s with
  | nil =>
    obtain ⟨fault, s', hu, hd⟩ : ∃ fault s',
        (updateJson options target ops).run.run s = (.error fault, s') ∧ _ :=
      quits_updateJson h target s
    refine ⟨fault, s', ?_, ?_, ?_⟩
    · rw [List.nil_append, updateEntries_cons]
      exact run_bind_error hu
    · rw [hd]
      exact .refl options [] s.disk
    · rintro targets s₁ ⟨⟩
      exact hd
  | cons entry before ih =>
    obtain ⟨first, ops'⟩ := entry
    rw [List.cons_append, updateEntries_cons, updateEntries_cons]
    rcases hu : (updateJson options first ops').run.run s with ⟨fault | _, s₁⟩
    · -- It fails even earlier, and then those before it do not come to their end.
      refine ⟨fault, s₁, run_bind_error hu, (confined_updateJson hu).mono (by simp),
        fun targets s₂ hb => ?_⟩
      cases (run_bind_error hu).symm.trans hb
    · obtain ⟨fault, s', hr, hc, hd⟩ := ih s₁
      refine ⟨fault, s', ?_, (confined_updateJson hu).trans hc, fun targets s₂ hb => ?_⟩
      · rw [run_bind_ok hu]
        exact run_bind_error hr
      · rw [run_bind_ok hu] at hb
        obtain ⟨later, s₃, hb, he⟩ := run_bind_eq_ok hb
        cases he
        exact hd later _ hb

theorem readOnly_updateEntries (dry : options.dryRun = true)
    (entries : List (String × List Operation)) :
    ReadOnly (updateEntries options entries) :=
  readOnly_mapM fun entry _ =>
    (readOnly_updateJson dry entry.1 entry.2).bind fun _ => readOnly_pure _

/-- Every operation is among those of its target. -/
theorem exists_entry {json : JsonSettings} {op : Operation} (h : op ∈ json.operations) :
    ∃ before ops after, json.byTarget.entries = before ++ (op.target, ops) :: after ∧ op ∈ ops := by
  have ht : op.target ∈ json.targets := List.mem_map_of_mem h
  have hg := JsonSettings.get?_byTarget json op.target
  rw [if_pos ht] at hg
  obtain ⟨before, after, he⟩ := List.append_of_mem (OrderedMap.get?_eq_some_iff.1 hg)
  exact ⟨before, _, after, he, List.mem_filter.2 ⟨h, by simp⟩⟩

/-- A malformed setting ends the run before it has done anything, save that of a path into a JSON
document only the beginning is looked at in time.  A path that is none ends the run as well, but
only when its document is edited: the document is not written, nor is any that comes later, and a
dry run changes nothing at all; but those of the targets before it are, where they can be edited. -/
theorem malformed_setting_ends_run (options : PassOptions) (props : PropertyMap) (s : PassState) :
    (MalformedValue props → ∃ fault, (run options props).run.run s = (.error fault, s)) ∧
    ∀ json alignment op cause, JsonSettings.ofProperties props = .ok json →
      AlignmentSettings.ofProperties props = .ok alignment →
      op ∈ json.operations → JsonPath.compile op.path = .error cause →
      ∃ before ops after, json.byTarget.entries = before ++ (op.target, ops) :: after ∧ op ∈ ops ∧
        ∃ fault s', (run options props).run.run s = (.error fault, s') ∧
          (options.dryRun = true → s'.disk = s.disk) ∧
            Confined options (before.map Prod.fst) s.disk s'.disk ∧
          ∀ targets s₁, (updateEntries options before).run.run s = (.ok targets, s₁) →
            s'.disk = s₁.disk := by
  refine ⟨fun h => run_of_malformedValue h s, fun json alignment op cause hj ha hm hp => ?_⟩
  obtain ⟨before, ops, after, he, ho⟩ := exists_entry hm
  have hr : Rejected ops := ⟨op, ho, cause, hp⟩
  obtain ⟨fault, s', hu, hc, hd⟩ := updateEntries_of_rejected options hr before after s
  rw [← he] at hu
  have henabled : json.isEnabled = true := by
    cases hn : json.isEnabled with
    | true => rfl
    | false =>
      rw [entries_of_disabled hn] at he
      simp at he
  refine ⟨before, ops, after, he, ho, fault, s', ?_,
    fun dry => (readOnly_updateEntries dry _).disk_eq hu, hc, hd⟩
  rw [run_eq hj ha, henabled]
  exact run_bind_error hu

def unknownFormat : PropertyMap := .ofList [("versionPropertyFormat", some "ALL")]

/-- The path of the second target is none. -/
def secondPathOpen : PropertyMap := .ofList [("jsonUpdate", some "a.json:$.x:y,b.json:$[")]

def bothDocuments : PassState :=
  ⟨⟨["p"], .ofList [(["p", "a.json"], "\x7b\"x\": 1\x7d"), (["p", "b.json"], "\x7b\"z\": 1\x7d")]⟩,
    "", ""⟩

private theorem secondPathOpen_settings :
    JsonSettings.ofProperties secondPathOpen =
        .ok ⟨[⟨"a.json", "$.x", some "y"⟩, ⟨"b.json", "$[", none⟩]⟩ ∧
      AlignmentSettings.ofProperties secondPathOpen =
        .ok ⟨[], true, true, false, false, .literal, []⟩ ∧
      JsonPath.compile "$[" = .error ⟨"$[", .openBracket 1⟩ := by
  decide +kernel

/-- The first target is written nevertheless. -/
theorem run_secondPathOpen :
    ((run here secondPathOpen).run.run bothDocuments).2.disk.files.get? ["p", "a.json"] =
      some "\x7b\n  \"x\": \"y\"\n\x7d\n" := by
  decide +kernel

theorem malformed_setting_ends_run_late :
    (∃ fault, (run here unknownFormat).run.run bothDocuments = (.error fault, bothDocuments)) ∧
    ∃ fault s', (run here secondPathOpen).run.run bothDocuments = (.error fault, s') ∧
      Confined here ["a.json"] bothDocuments.disk s'.disk ∧
      s'.disk.files.get? ["p", "a.json"] = some "\x7b\n  \"x\": \"y\"\n\x7d\n" := by
  have hvalue : unknownFormat.value? "versionPropertyFormat" = some "ALL" := rfl
  have hformat : MalformedValue unknownFormat := .format hvalue (by decide) (by decide +kernel)
  refine ⟨(malformed_setting_ends_run here unknownFormat bothDocuments).1 hformat, ?_⟩
  obtain ⟨hj, ha, hp⟩ := secondPathOpen_settings
  obtain ⟨before, ops, after, he, -, fault, s', hr, -, hc, -⟩ :=
    (malformed_setting_ends_run here secondPathOpen bothDocuments).2 _ _
      ⟨"b.json", "$[", none⟩ _ hj ha (by simp) hp
  have hbefore : before.map Prod.fst = ["a.json"] := by
    have hentries :
      [("a.json", [(⟨"a.json", "$.x", some "y"⟩ : Operation)]),
      ("b.json", [⟨"b.json", "$[", none⟩])] =
        before ++ ("b.json", ops) :: after := he
    rcases before with - | ⟨first, - | ⟨second, before⟩⟩
    · simp at hentries
    · cases hentries
      rfl
    · simp at hentries
  have hfile := run_secondPathOpen
  rw [hr] at hfile
  exact ⟨fault, s', hr, hbefore ▸ hc, hfile⟩

/-- Not every malformed path is met before a document is touched. -/
theorem not_every_malformed_path_is_met_in_time :
    ¬ ∀ (options : PassOptions) (props : PropertyMap) (s : PassState) (json : JsonSettings),
      JsonSettings.ofProperties props = .ok json →
      (∃ op ∈ json.operations, ∃ cause, JsonPath.compile op.path = .error cause) →
      ∃ fault s', (run options props).run.run s = (.error fault, s') ∧ s'.disk = s.disk := by
  intro h
  obtain ⟨hj, -, hp⟩ := secondPathOpen_settings
  obtain ⟨fault, s', hr, hd⟩ :=
    h here secondPathOpen bothDocuments _ hj ⟨⟨"b.json", "$[", none⟩, by simp, _, hp⟩
  have hfile := run_secondPathOpen
  rw [hr, hd] at hfile
  exact absurd hfile (by decide +kernel)

end Paths
end BuildAlign
