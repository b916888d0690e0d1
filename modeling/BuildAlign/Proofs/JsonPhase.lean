import BuildAlign.Proofs.DiskWrites
import BuildAlign.Proofs.JsonAssembly
import BuildAlign.Proofs.KeyedMerges
import BuildAlign.Proofs.PassRuns
import Mathlib.Logic.Function.Basic
import Mathlib.Tactic.ByContra

/-! # JSON documents edited in declaration order

The documents are edited one after the other, each with all of its operations at once.  Operations
on different documents do not touch each other, so this comes to the same as making every operation
when its turn comes; and what is written to a file is read back as the document it was written
for. -/
namespace BuildAlign.JsonSettings

def targets (settings : JsonSettings) : List String := settings.operations.map Operation.target

/-- The operations for one target. -/
def operationsFor (ops : List Operation) (target : String) : List Operation :=
  ops.filter fun op => op.target = target

private theorem byTarget_append (ops : List Operation) (op : Operation) :
    (JsonSettings.mk (ops ++ [op])).byTarget =
      (JsonSettings.mk ops).byTarget.insert op.target
        (((JsonSettings.mk ops).byTarget.get? op.target).getD [] ++ [op]) := by
  simp only [byTarget, List.foldl_append, List.foldl_cons, List.foldl_nil]

private theorem targets_append (ops : List Operation) (op : Operation) :
    (JsonSettings.mk (ops ++ [op])).targets = (JsonSettings.mk ops).targets ++ [op.target] := by
  simp [targets]

private theorem operationsFor_of_notMem {ops : List Operation} {target : String}
    (h : target ∉ (JsonSettings.mk ops).targets) : operationsFor ops target = [] := by
  rw [operationsFor, List.filter_eq_nil_iff]
  intro op hm he
  exact h (of_decide_eq_true he ▸ List.mem_map_of_mem hm)

/-- Under every target stand its operations in their order. -/
theorem get?_byTarget (settings : JsonSettings) (target : String) :
    settings.byTarget.get? target =
      if target ∈ settings.targets then some (operationsFor settings.operations target)
      else none := by
  obtain ⟨ops⟩ := settings
  induction ops using List.reverseRecOn with
  | nil => rfl
  | append_singleton ops op ih =>
    have hf : operationsFor (ops ++ [op]) target =
        operationsFor ops target ++ if op.target = target then [op] else [] := by
      by_cases ht : op.target = target <;> simp [operationsFor, ht]
    rw [byTarget_append, OrderedMap.get?_insert, targets_append, hf]
    by_cases ht : op.target = target
    · subst ht
      have hm : op.target ∈ (JsonSettings.mk ops).targets ++ [op.target] := by simp
      rw [if_pos rfl, if_pos hm, if_pos rfl, ih]
      split
      · rfl
      · next hn => rw [operationsFor_of_notMem hn]; rfl
    · have hm : target ∈ (JsonSettings.mk ops).targets ++ [op.target] ↔
        target ∈ (JsonSettings.mk ops).targets := by
        simp [Ne.symm ht]
      simp only [if_neg ht, List.append_nil, hm, ih]

/-- The targets stand in the order in which they appear first. -/
theorem keys_byTarget (settings : JsonSettings) :
    settings.byTarget.keys = settings.targets.eraseDups :=
  OrderedMap.keys_foldl_insert Operation.target _ settings.operations

end BuildAlign.JsonSettings

namespace BuildAlign.BuildPass
open DocumentEdits JsonReader
open JsonSettings (operationsFor)
open JsonValue (Everywhere Keyed Readable Writable)

section DeclarationOrder

/-- Documents by their targets. -/
abbrev Documents := String → JsonValue

/-- One operation, made on its own. -/
def editOnce (op : Operation) (doc : JsonValue) : Except EditError JsonValue :=
  match editorFor doc with
  | .error cause => .error cause
  | .ok editor => editor.apply op.edit doc

/-- Operations on one document, each made on its own. -/
def editEach (ops : List Operation) (doc : JsonValue) : Except EditError JsonValue :=
  ops.foldlM (fun doc op => editOnce op doc) doc

/-- One operation on the document of its target. -/
def perform (docs : Documents) (op : Operation) : Except EditError Documents := do
  let doc ← editOnce op (docs op.target)
  return Function.update docs op.target doc

/-- Operations in the order in which they are declared, whatever their targets. -/
def performAll (ops : List Operation) (docs : Documents) : Except EditError Documents :=
  ops.foldlM perform docs

variable {op : Operation} {ops : List Operation} {doc edited : JsonValue} {docs docs' : Documents}

theorem editEach_cons (op : Operation) (ops : List Operation) (doc : JsonValue) :
    editEach (op :: ops) doc = editOnce op doc >>= editEach ops := rfl

private theorem performAll_cons (op : Operation) (ops : List Operation) (docs : Documents) :
    performAll (op :: ops) docs = perform docs op >>= performAll ops := rfl

private theorem perform_ok (h : editOnce op (docs op.target) = .ok doc) :
    perform docs op = .ok (Function.update docs op.target doc) := by
  simp only [perform, h]
  rfl

private theorem perform_error {cause : EditError}
    (h : editOnce op (docs op.target) = .error cause) :
    perform docs op = .error cause := by
  simp only [perform, h]
  rfl

/-- Operations on different documents do not meet: all can be made in declaration order just when
every document can take its own. -/
theorem performAll_eq_ok_iff :
    performAll ops docs = .ok docs' ↔
      ∀ target, editEach (operationsFor ops target) (docs target) = .ok (docs' target) := by
  induction ops generalizing docs with
  | nil =>
    constructor
    · intro h target
      cases h
      rfl
    · intro h
      exact congrArg Except.ok (funext fun target => Except.ok.inj (h target))
  | cons op ops ih =>
    have hown : operationsFor (op :: ops) op.target = op :: operationsFor ops op.target := by
      simp [operationsFor]
    have hother : ∀ target, op.target ≠ target →
        operationsFor (op :: ops) target = operationsFor ops target := by
      intro target ht
      simp [operationsFor, ht]
    cases he : editOnce op (docs op.target) with
    | error cause =>
      rw [performAll_cons, perform_error he]
      refine iff_of_false nofun fun h => ?_
      have ht := h op.target
      rw [hown, editEach_cons, he] at ht
      cases ht
    | ok doc =>
      rw [performAll_cons, perform_ok he]
      change performAll ops (Function.update docs op.target doc) = .ok docs' ↔ _
      rw [ih]
      refine forall_congr' fun target => ?_
      by_cases ht : op.target = target
      · subst ht
        rw [hown, editEach_cons, he, Function.update_self]
        rfl
      · rw [hother target ht, Function.update_of_ne (Ne.symm ht)]

end DeclarationOrder

section Batches

theorem editorFor_container (h : scalarKind? doc = none) : editorFor doc = .ok jsonEditor := by
  simp only [editorFor, h]

theorem editOnce_container (h : scalarKind? doc = none) (op : Operation) :
    editOnce op doc = jsonEditor.apply op.edit doc := by
  simp only [editOnce, editorFor_container h]

private theorem container_of_editOnce (h : editOnce op doc = .ok edited) :
    scalarKind? doc = none := by
  cases hk : scalarKind? doc with
  | none => rfl
  | some kind =>
    simp only [editOnce, editorFor, hk] at h
    cases h

/-- A batch of edits comes to the same as the edits one by one. -/
theorem editEach_container (h : scalarKind? doc = none) (ops : List Operation) :
    editEach ops doc =
      match (jsonEditor.applyAll (ops.map Operation.edit) doc).failure with
      | none => .ok (jsonEditor.applyAll (ops.map Operation.edit) doc).document
      | some cause => .error cause := by
  induction ops generalizing doc with
  | nil => rfl
  | cons op ops ih =>
    rw [editEach_cons, editOnce_container h, List.map_cons]
    cases ha : jsonEditor.apply op.edit doc with
    | error cause => simp only [Editor.applyAll, ha]; rfl
    | ok edited =>
      simp only [Editor.applyAll, ha]
      exact ih ((scalarKind?_apply ha).trans h)

/-- Edits keep containers. -/
theorem scalarKind?_editEach (container : scalarKind? doc = none)
    (h : editEach ops doc = .ok edited) : scalarKind? edited = none := by
  induction ops generalizing doc with
  | nil =>
    cases h
    exact container
  | cons op ops ih =>
    rw [editEach_cons, editOnce_container container] at h
    cases ha : jsonEditor.apply op.edit doc with
    | error cause =>
      rw [ha] at h
      cases h
    | ok next =>
      rw [ha] at h
      exact ih ((scalarKind?_apply ha).trans container) h

private theorem container_of_editEach (hne : ops ≠ []) (h : editEach ops doc = .ok edited) :
    scalarKind? doc = none := by
  cases ops with
  | nil => exact absurd rfl hne
  | cons op ops =>
    rw [editEach_cons] at h
    cases he : editOnce op doc with
    | error cause => rw [he] at h; cases h
    | ok next => exact container_of_editOnce he

/-- Edits keep documents that can be written and have no name twice in an object. -/
theorem everywhere_editEach {good : JsonValue → Prop} (lasting : JsonValue.Lasting good)
    (ht : ∀ value, good (.text (.ofString value))) (hd : Everywhere good doc)
    (h : editEach ops doc = .ok edited) :
    Everywhere good edited := by
  induction ops generalizing doc with
  | nil => cases h; exact hd
  | cons op ops ih =>
    rw [editEach_cons] at h
    cases he : editOnce op doc with
    | error cause => rw [he] at h; cases h
    | ok next =>
      rw [he] at h
      have ha := he
      rw [editOnce_container (container_of_editOnce he)] at ha
      exact ih (everywhere_apply lasting ht hd ha) h

end Batches

section Phase

variable {options : PassOptions} {disk : Disk} {target : String}

/-- The file of a target holds the document. -/
def Holds (options : PassOptions) (disk : Disk) (target : String) (doc : JsonValue) : Prop :=
  ∃ text, disk.lookup (options.project.child target) = .file text ∧ read? text = some doc

theorem ends_put (wet : options.dryRun = false) {shown text : LooseText} {written : String}
    (h : text.encode = .ok written) (disk : Disk) :
    Ends (put options target shown text) disk ()
      (disk.write (options.project.child target) written) := by
  simp only [put, wet]
  exact (ends_writeFile h disk).bind (ends_print _ _)

/-- A document that takes its operations is written back with all of them made. -/
theorem ends_updateJson (wet : options.dryRun = false) (hh : Holds options disk target doc)
    (hw : Everywhere Writable doc) (hne : ops ≠ []) (he : editEach ops doc = .ok edited) :
    ∃ written, read? written = some edited ∧
      Ends (updateJson options target ops) disk ()
        (disk.write (options.project.child target) written) := by
  obtain ⟨text, hl, hr⟩ := hh
  have hc := container_of_editEach hne he
  have hreadable := everywhere_editEach JsonValue.lasting_readable (fun _ => ⟨trivial, trivial⟩)
    (readable_of_read? hr) he
  have hwritable := everywhere_editEach JsonValue.lasting_writable JsonValue.whole_ofString hw he
  obtain ⟨written, hencode, hread⟩ := read?_print hwritable hreadable
  refine ⟨written, hread, ?_⟩
  rw [editEach_container hc] at he
  have happly : Ends (applyAll options jsonEditor ops doc) disk edited disk := by
    cases hf : (jsonEditor.applyAll (ops.map Operation.edit) doc).failure with
    | some cause => rw [hf] at he; cases he
    | none =>
      rw [hf] at he
      cases he
      exact ends_applyAll options hf disk
  refine (ends_readFile hl _).bind ?_
  simp only [read_of_some hr, editorFor_container hc]
  exact happly.bind (ends_put wet hencode disk)

/-- A document that does not take an operation breaks the pass off. -/
theorem breaks_updateJson (hh : Holds options disk target doc) {cause : EditError}
    (he : editEach ops doc = .error cause) : Breaks (updateJson options target ops) disk := by
  obtain ⟨text, hl, hr⟩ := hh
  refine (ends_readFile hl _).bind_breaks ?_
  simp only [read_of_some hr]
  cases hc : scalarKind? doc with
  | some kind =>
    simp only [editorFor, hc]
    exact breaks_throw _ disk
  | none =>
    simp only [editorFor_container hc]
    rw [editEach_container hc] at he
    cases hf : (jsonEditor.applyAll (ops.map Operation.edit) doc).failure with
    | none => rw [hf] at he; cases he
    | some cause => exact (breaks_applyAll options hf disk).bind

/-- The phase for some of the targets. -/
def updateEntries (options : PassOptions)
    (entries : List (String × List Operation)) : Pass (List String) :=
  entries.mapM fun (target, ops) => do
    updateJson options target ops
    return target

theorem updateEntries_cons (options : PassOptions) (target : String) (ops : List Operation)
    (entries : List (String × List Operation)) :
    updateEntries options ((target, ops) :: entries) =
      (do
        updateJson options target ops
        let targets ← updateEntries options entries
        return target :: targets) := by
  simp only [updateEntries, List.mapM_cons, bind_assoc, pure_bind]

/-- The target has operations and a file with its document. -/
structure Ready (options : PassOptions) (disk : Disk) (docs : Documents)
    (entry : String × List Operation) : Prop where
  nonempty : entry.2 ≠ []
  holds : Holds options disk entry.1 (docs entry.1)
  writable : Everywhere Writable (docs entry.1)

/-- The files of the targets hold these documents, and elsewhere everything is as it was. -/
structure Updated (options : PassOptions) (docs : Documents) (targets : List String)
    (disk disk' : Disk) : Prop where
  home : disk'.home = disk.home
  holds : ∀ target ∈ targets, Holds options disk' target (docs target)
  files : ∀ location, (∀ target ∈ targets, disk.resolve (options.project.child target) ≠ location) →
    disk'.files.get? location = disk.files.get? location
  paths : ∀ path,
    (∀ target ∈ targets, disk.resolve (options.project.child target) ≠ disk.resolve path) →
    disk'.lookup path = disk.lookup path

/-- The targets name different files. -/
def Apart (options : PassOptions) (disk : Disk) (targets : List String) : Prop :=
  targets.Pairwise fun t t' =>
    disk.resolve (options.project.child t) ≠ disk.resolve (options.project.child t')

theorem Apart.of_cons {targets : List String} (h : Apart options disk (target :: targets)) :
    (∀ t ∈ targets, disk.resolve (options.project.child target) ≠
      disk.resolve (options.project.child t)) ∧
      Apart options disk targets := List.pairwise_cons.1 h

/-- Writing moves no file. -/
theorem Apart.write {targets : List String} (h : Apart options disk targets)
    (target written : String) :
    Apart options (disk.write (options.project.child target) written) targets := h

theorem Holds.write {other : String} {text : String} (h : Holds options disk target doc)
    (hl : disk.lookup (options.project.child other) = .file text) (written : String)
    (hne : disk.resolve (options.project.child target) ≠
      disk.resolve (options.project.child other)) :
    Holds options (disk.write (options.project.child other) written) target doc := by
  obtain ⟨before, hb, hr⟩ := h
  exact ⟨before, (Disk.lookup_write hl written hne).trans hb, hr⟩

/-- After one target, the others are as ready as before. -/
theorem ready_write {entries : List (String × List Operation)} {text : String}
    (hl : disk.lookup (options.project.child target) = .file text) (written : String)
    (ha : ∀ t ∈ entries.map Prod.fst,
      disk.resolve (options.project.child target) ≠ disk.resolve (options.project.child t))
    (hr : ∀ entry ∈ entries, Ready options disk docs entry) :
    ∀ entry ∈ entries,
      Ready options (disk.write (options.project.child target) written) docs entry := by
  intro entry hm
  have h := hr entry hm
  have hne := ha entry.1 (List.mem_map_of_mem hm)
  exact ⟨h.nonempty, h.holds.write hl written (Ne.symm hne), h.writable⟩

private theorem updated_nil (options : PassOptions) (docs : Documents) (disk : Disk) :
    Updated options docs [] disk disk :=
  ⟨rfl, by simp, fun _ _ => rfl, fun _ _ => rfl⟩

theorem Updated.cons {targets : List String} {disk' : Disk} {text written : String}
    (hl : disk.lookup (options.project.child target) = .file text)
    (hr : read? written = some (docs target))
    (ha : ∀ t ∈ targets, disk.resolve (options.project.child target) ≠
      disk.resolve (options.project.child t))
    (h : Updated options docs targets (disk.write (options.project.child target) written) disk') :
    Updated options docs (target :: targets) disk disk' := by
  refine ⟨h.home, fun t ht => ?_, fun location hn => ?_, fun path hn => ?_⟩
  · rcases List.mem_cons.1 ht with rfl | ht
    · have hp := h.paths (options.project.child t) fun t' ht' => Ne.symm (ha t' ht')
      exact ⟨written, hp.trans (Disk.lookup_write_self hl written), hr⟩
    · exact h.holds t ht
  · have hn := List.forall_mem_cons.1 hn
    rw [h.files location hn.2, Disk.get?_write, if_neg hn.1]
  · have hn := List.forall_mem_cons.1 hn
    rw [h.paths path hn.2, Disk.lookup_write hl written (Ne.symm hn.1)]

/-- All targets are updated when every document takes its operations. -/
theorem ends_updateEntries (wet : options.dryRun = false) {entries : List (String × List Operation)}
    (ha : Apart options disk (entries.map Prod.fst))
    (hr : ∀ entry ∈ entries, Ready options disk docs entry)
    (he : ∀ entry ∈ entries, editEach entry.2 (docs entry.1) = .ok (docs' entry.1)) :
    ∃ disk', Ends (updateEntries options entries) disk (entries.map Prod.fst) disk' ∧
      Updated options docs' (entries.map Prod.fst) disk disk' := by
  induction entries generalizing disk with
  | nil => exact ⟨disk, ends_pure [] disk, updated_nil options docs' disk⟩
  | cons entry entries ih =>
    obtain ⟨target, ops⟩ := entry
    have hready := hr (target, ops) List.mem_cons_self
    obtain ⟨written, hread, hends⟩ :=
      ends_updateJson wet hready.holds hready.writable hready.nonempty (he _ List.mem_cons_self)
    obtain ⟨text, hl, -⟩ := hready.holds
    obtain ⟨hhead, htail⟩ := ha.of_cons
    have hlater := ready_write hl written hhead fun entry hm => hr entry (List.mem_cons_of_mem _ hm)
    have hapart := htail.write target written
    obtain ⟨disk', hrest, hupdated⟩ :=
      ih hapart hlater fun entry hm => he entry (List.mem_cons_of_mem _ hm)
    refine ⟨disk', ?_, hupdated.cons hl hread hhead⟩
    rw [updateEntries_cons]
    exact hends.bind (hrest.bind (ends_pure (target :: entries.map Prod.fst) disk'))

/-- The pass breaks off when a document does not take one of its operations. -/
theorem breaks_updateEntries (wet : options.dryRun = false)
    {entries : List (String × List Operation)}
    (ha : Apart options disk (entries.map Prod.fst))
    (hr : ∀ entry ∈ entries, Ready options disk docs entry)
    (he : ∃ entry ∈ entries, ∃ cause, editEach entry.2 (docs entry.1) = .error cause) :
    Breaks (updateEntries options entries) disk := by
  induction entries generalizing disk with
  | nil => obtain ⟨_, hm, -⟩ := he; cases hm
  | cons entry entries ih =>
    obtain ⟨target, ops⟩ := entry
    have hready := hr (target, ops) List.mem_cons_self
    rw [updateEntries_cons]
    cases hhead : editEach ops (docs target) with
    | error cause => exact (breaks_updateJson hready.holds hhead).bind
    | ok edited =>
      obtain ⟨written, -, hends⟩ :=
        ends_updateJson wet hready.holds hready.writable hready.nonempty hhead
      obtain ⟨text, hl, -⟩ := hready.holds
      obtain ⟨hhere, htail⟩ := ha.of_cons
      have hlater :=
        ready_write hl written hhere fun entry hm => hr entry (List.mem_cons_of_mem _ hm)
      have hapart := htail.write target written
      have hfails : ∃ entry ∈ entries, ∃ cause, editEach entry.2 (docs entry.1) = .error cause := by
        obtain ⟨entry, hm, cause, hc⟩ := he
        rcases List.mem_cons.1 hm with rfl | hm
        · rw [hhead] at hc; cases hc
        · exact ⟨entry, hm, cause, hc⟩
      exact hends.bind_breaks (ih hapart hlater hfails).bind

theorem Updated.congr {targets targets' : List String} {disk' : Disk}
    (h : Updated options docs targets disk disk') (hm : ∀ t, t ∈ targets ↔ t ∈ targets') :
    Updated options docs targets' disk disk' :=
  ⟨h.home, fun t ht => h.holds t ((hm t).2 ht),
    fun location hn => h.files location fun t ht => hn t ((hm t).1 ht),
    fun path hn => h.paths path fun t ht => hn t ((hm t).1 ht)⟩

private theorem entry_of_byTarget {settings : JsonSettings} {entry : String × List Operation}
    (h : entry ∈ settings.byTarget.entries) :
    entry.1 ∈ settings.targets ∧ entry.2 = operationsFor settings.operations entry.1 := by
  have hg := OrderedMap.get?_eq_some_iff.2 h
  rw [JsonSettings.get?_byTarget] at hg
  split at hg
  · next hm => exact ⟨hm, (Option.some.inj hg).symm⟩
  · cases hg

private theorem operationsFor_ne_nil {settings : JsonSettings} (h : target ∈ settings.targets) :
    operationsFor settings.operations target ≠ [] := by
  obtain ⟨op, hm, rfl⟩ := List.mem_map.1 h
  exact List.ne_nil_of_mem (List.mem_filter.2 ⟨hm, by simp⟩)

private theorem error_of_performAll {cause : EditError} (h : performAll ops docs = .error cause) :
    ∃ target cause', editEach (operationsFor ops target) (docs target) = .error cause' := by
  by_contra hn
  have hok : ∀ target, ∃ edited,
      editEach (operationsFor ops target) (docs target) = .ok edited := by
    intro target
    cases he : editEach (operationsFor ops target) (docs target) with
    | ok edited => exact ⟨edited, rfl⟩
    | error cause' => exact absurd ⟨target, cause', he⟩ hn
  rw [performAll_eq_ok_iff.2 fun target => Classical.choose_spec (hok target)] at h
  cases h

/-- Editing the JSON files document by document is editing in declaration order.  If every operation
can be made when its turn comes, then the pass returns the targets as they first appear, their files
are read as the documents that come out, and all other files are as they were; if one cannot, the
pass breaks off. -/
theorem json_phase_in_declaration_order (options : PassOptions) (wet : options.dryRun = false)
    (settings : JsonSettings) (disk : Disk) (docs : Documents)
    (apart : ∀ t ∈ settings.targets, ∀ t' ∈ settings.targets,
      disk.resolve (options.project.child t) = disk.resolve (options.project.child t') → t = t')
    (present : ∀ t ∈ settings.targets, Holds options disk t (docs t))
    (writable : ∀ t ∈ settings.targets, Everywhere Writable (docs t)) :
    (∀ docs', performAll settings.operations docs = .ok docs' →
      ∃ disk', Ends (updateAllJson options settings) disk settings.targets.eraseDups disk' ∧
        Updated options docs' settings.targets disk disk') ∧
    ∀ cause, performAll settings.operations docs = .error cause →
      Breaks (updateAllJson options settings) disk := by
  have hkeys : settings.byTarget.entries.map Prod.fst = settings.targets.eraseDups :=
    JsonSettings.keys_byTarget settings
  have hapart : Apart options disk (settings.byTarget.entries.map Prod.fst) := by
    refine settings.byTarget.distinct.imp_of_mem fun {t t'} ht ht' hne he => hne ?_
    rw [hkeys, List.mem_eraseDups] at ht ht'
    exact apart t ht t' ht' he
  have hready : ∀ entry ∈ settings.byTarget.entries, Ready options disk docs entry := by
    intro entry hm
    obtain ⟨ht, ho⟩ := entry_of_byTarget hm
    exact ⟨ho ▸ operationsFor_ne_nil ht, present _ ht, writable _ ht⟩
  constructor
  · intro docs' h
    have heach := performAll_eq_ok_iff.1 h
    obtain ⟨disk', hends, hupdated⟩ := ends_updateEntries wet hapart hready fun entry hm => by
      rw [(entry_of_byTarget hm).2]
      exact heach entry.1
    rw [hkeys] at hends hupdated
    exact ⟨disk', hends, hupdated.congr fun t => List.mem_eraseDups⟩
  · intro cause h
    obtain ⟨target, cause', he⟩ := error_of_performAll h
    have ht : target ∈ settings.targets := by
      by_contra hn
      rw [JsonSettings.operationsFor_of_notMem hn] at he
      cases he
    have hg := JsonSettings.get?_byTarget settings target
    rw [if_pos ht] at hg
    exact breaks_updateEntries wet hapart hready ⟨_, OrderedMap.get?_eq_some_iff.1 hg, cause', he⟩

/-- Operations on two documents that take turns. -/
def takingTurns : JsonSettings :=
  ⟨[⟨"a.json", "$.name", some "x"⟩, ⟨"b.json", "$.version", none⟩, ⟨"a.json", "$.count", some "y"⟩]⟩

def nameAndCount : JsonValue :=
  .object [(.ofString "name", .null), (.ofString "count", .integer (-1))]

def versionOnly : JsonValue := .object [(.ofString "version", .text (.ofString "1.0"))]

def twoDocuments : Documents :=
  fun target => if target = "a.json" then nameAndCount else versionOnly

def textOf (doc : JsonValue) : String :=
  ((JsonPrinter.print doc ++ .ofString "\n").encode.toOption).getD ""

def twoFiles : Disk where
  home := ["p"]
  files := .ofList [(["p", "a.json"], textOf nameAndCount), (["p", "b.json"], textOf versionOnly)]

private theorem read?_textOf (hw : Everywhere Writable doc) (hd : Everywhere Readable doc) :
    read? (textOf doc) = some doc := by
  obtain ⟨text, he, hr⟩ := read?_print hw hd
  rw [textOf, he]
  exact hr

private theorem everywhere_nameAndCount :
    Everywhere Writable nameAndCount ∧ Everywhere Readable nameAndCount := by
  have leaf : ∀ {good : JsonValue → Prop}, good .null → good (.integer (-1)) →
      ∀ member ∈ [(LooseText.ofString "name", JsonValue.null), (.ofString "count", .integer (-1))],
        Everywhere good member.2 := by
    intro good hn hi
    simp only [List.forall_mem_cons, List.not_mem_nil, false_implies, implies_true, and_true]
    exact ⟨(JsonValue.everywhere_leaf rfl).2 hn, (JsonValue.everywhere_leaf rfl).2 hi⟩
  constructor
  · refine JsonValue.everywhere_object.2 ⟨?_, leaf trivial trivial⟩
    simp [Writable, JsonValue.whole_ofString]
  · have hone : DecimalDigits.Short (Int.natAbs (-1)) := by decide
    refine JsonValue.everywhere_object.2 ⟨⟨?_, trivial⟩, leaf ⟨trivial, trivial⟩ ⟨trivial, hone⟩⟩
    have hne : LooseText.ofString "name" ≠ .ofString "count" := by decide +kernel
    simp [Keyed, hne]

private theorem everywhere_versionOnly :
    Everywhere Writable versionOnly ∧ Everywhere Readable versionOnly := by
  have leaf : ∀ {good : JsonValue → Prop}, good (.text (.ofString "1.0")) →
      ∀ member ∈ [(LooseText.ofString "version", JsonValue.text (.ofString "1.0"))],
        Everywhere good member.2 := by
    intro good ht
    simpa only [List.forall_mem_singleton] using (JsonValue.everywhere_leaf rfl).2 ht
  constructor
  · refine JsonValue.everywhere_object.2 ⟨?_, leaf (JsonValue.whole_ofString "1.0")⟩
    simp [Writable, JsonValue.whole_ofString]
  · refine JsonValue.everywhere_object.2 ⟨⟨?_, trivial⟩, leaf ⟨trivial, trivial⟩⟩
    simp [Keyed]

private theorem holds_takingTurns :
    ∀ t ∈ takingTurns.targets, Holds ⟨⟨"", []⟩, false, false⟩ twoFiles t (twoDocuments t) := by
  have ha : twoFiles.lookup (ProjectPath.child ⟨"", []⟩ "a.json") = .file (textOf nameAndCount) :=
    rfl
  have hb : twoFiles.lookup (ProjectPath.child ⟨"", []⟩ "b.json") = .file (textOf versionOnly) :=
    rfl
  have hra := read?_textOf everywhere_nameAndCount.1 everywhere_nameAndCount.2
  have hrb := read?_textOf everywhere_versionOnly.1 everywhere_versionOnly.2
  have ht : takingTurns.targets = ["a.json", "b.json", "a.json"] := rfl
  rw [ht]
  simp only [List.forall_mem_cons, List.not_mem_nil, false_implies, implies_true, and_true]
  exact ⟨⟨_, ha, hra⟩, ⟨_, hb, hrb⟩, ⟨_, ha, hra⟩⟩

private theorem writable_twoDocuments (t : String) : Everywhere Writable (twoDocuments t) := by
  unfold twoDocuments
  split
  · exact everywhere_nameAndCount.1
  · exact everywhere_versionOnly.1

private theorem performAll_takingTurns :
    ∃ docs', performAll takingTurns.operations twoDocuments = .ok docs' := by
  have h : (performAll takingTurns.operations twoDocuments).isOk = true := by decide +kernel
  cases hp : performAll takingTurns.operations twoDocuments with
  | error cause => rw [hp] at h; cases h
  | ok docs' => exact ⟨docs', rfl⟩

theorem json_phase_in_declaration_order_turns :
    (∀ t ∈ takingTurns.targets, Holds ⟨⟨"", []⟩, false, false⟩ twoFiles t (twoDocuments t)) ∧
    (∃ docs', performAll takingTurns.operations twoDocuments = .ok docs' ∧
      ∃ disk', Ends (updateAllJson ⟨⟨"", []⟩, false, false⟩ takingTurns) twoFiles
          ["a.json", "b.json"] disk' ∧
        Updated ⟨⟨"", []⟩, false, false⟩ docs' takingTurns.targets twoFiles disk') ∧
    ∀ cause, performAll takingTurns.operations twoDocuments = .error cause →
      Breaks (updateAllJson ⟨⟨"", []⟩, false, false⟩ takingTurns) twoFiles := by
  obtain ⟨hends, hbreaks⟩ :=
    json_phase_in_declaration_order ⟨⟨"", []⟩, false, false⟩ rfl takingTurns
    twoFiles twoDocuments (by decide +kernel) holds_takingTurns fun t _ => writable_twoDocuments t
  obtain ⟨docs', hp⟩ := performAll_takingTurns
  exact ⟨holds_takingTurns, ⟨docs', hp, hends docs' hp⟩, hbreaks⟩

end Phase

end BuildAlign.BuildPass
