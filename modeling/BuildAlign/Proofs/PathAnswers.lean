import BuildAlign.CommandLine
import BuildAlign.Proofs.MalformedSettings
import BuildAlign.Proofs.PassOutputs
import BuildAlign.Proofs.NumberlessIndices

/-! # What the command answers to a text that is no path

The command runs a pass and says how it ended.  A text that is no path ends the pass at the latest
when the turn of its operation comes.  The command then reports it, unless the fault is an index
that writes no number: that breaks the program off. -/
namespace BuildAlign.BuildPass
open DocumentEdits JsonReader

section Faults

variable {α β : Type} {p : Pass α} {f : α → Pass β} {allowed : PassFault → Prop}
  {options : PassOptions}

/-- The pass breaks off with faults of a kind only. -/
def Blames (allowed : PassFault → Prop) (p : Pass α) : Prop :=
  ∀ s fault s', p.run.run s = (.error fault, s') → allowed fault

theorem Blames.bind (hp : Blames allowed p) (hf : ∀ value, Blames allowed (f value)) :
    Blames allowed (p >>= f) := by
  intro s fault s' h
  rcases run_bind_cases h with ⟨fault', hr, he⟩ | ⟨value, s₁, -, hr⟩
  · cases he
    exact hp s fault s' hr
  · exact hf value s₁ fault s' hr

private theorem blames_throw {fault : PassFault} (h : allowed fault) :
    Blames allowed (throw fault : Pass α) := by
  intro s fault' s' hr
  cases hr
  exact h

private theorem Unfailing.blames (h : Unfailing p) : Blames allowed p := by
  intro s fault s' hr
  obtain ⟨value, s₁, hv⟩ := h s
  cases hv.symm.trans hr

/-- What is reported of a log. -/
def logged (options : PassOptions) (log : PassLog) : String :=
  lines LogEntry.line (log.filter fun e => options.verbose || e.level = .warning)

private theorem does_reportLog (options : PassOptions) (log : PassLog) (disk : Disk) :
    Does (reportLog options log) disk (.ok ()) disk "" (logged options log) :=
      does_reports LogEntry.line _ disk

private theorem unfailing_reportLog (options : PassOptions) (log : PassLog) :
    Unfailing (reportLog options log) :=
  fun s => ⟨(), _, does_reportLog options log s.disk s rfl⟩

/-- What can go wrong with the JSON documents. -/
inductive DocumentFault : PassFault → Prop
  | noJson (path : String) : DocumentFault (.noJson path)
  | directory (path : String) : DocumentFault (.directory path)
  | tooLong (path : String) : DocumentFault (.tooLong path)
  | json (cause : JsonFault) : DocumentFault (.json cause)
  | edit (cause : EditError) : DocumentFault (.edit cause)
  | unwritable (halves : LoneHalves) : DocumentFault (.unwritable halves)

private theorem blames_readJson (path : ProjectPath) :
    Blames DocumentFault (readFile path (.noJson path.text)) := by
  intro s fault s' h
  have hd := ((does_readFile path (.noJson path.text) s.disk).eq_of_run h rfl).1
  cases hl : s.disk.lookup path <;> rw [hl] at hd <;> cases hd
  · exact .directory _
  · exact .noJson _
  · exact .tooLong _

private theorem blames_applyAll {δ : Type} (editor : Editor δ) (ops : List Operation) (doc : δ) :
    Blames DocumentFault (applyAll options editor ops doc) := by
  refine (unfailing_reportLog options _).blames.bind fun _ => ?_
  split
  · exact blames_throw (.edit _)
  · exact (unfailing_pure _).blames

private theorem blames_encoded (text : LooseText) : Blames DocumentFault (encoded text) := by
  rw [encoded]
  split
  · exact (unfailing_pure _).blames
  · exact blames_throw (.unwritable _)

private theorem blames_print (text : LooseText) : Blames DocumentFault (print text) :=
  (blames_encoded text).bind fun _ => Unfailing.blames fun _ => ⟨_, _, rfl⟩

private theorem blames_writeFile (path : ProjectPath) (text : LooseText) :
    Blames DocumentFault (writeFile path text) := by
  cases he : text.encode with
  | ok written => exact (unfailing_writeFile he path).blames
  | error halves =>
    intro s fault s' h
    cases (run_writeFile_error he path s).symm.trans h
    exact .unwritable halves

private theorem blames_put (target : String) (shown written : LooseText) :
    Blames DocumentFault (put options target shown written) := by
  rw [put]
  split
  · exact (blames_print _).bind fun _ => (blames_print shown).bind fun _ => blames_print _
  · exact (blames_writeFile _ written).bind fun _ => blames_print _

private theorem blames_updateJson (target : String) (ops : List Operation) :
    Blames DocumentFault (updateJson options target ops) := by
  refine (blames_readJson _).bind fun text => ?_
  split
  · exact blames_throw (.json _)
  · split
    · exact blames_throw (.edit _)
    · exact (blames_applyAll _ ops _).bind fun _ => blames_put target _ _

private theorem blames_updateEntries (entries : List (String × List Operation)) :
    Blames DocumentFault (updateEntries options entries) := by
  induction entries with
  | nil => exact (unfailing_pure _).blames
  | cons entry entries ih =>
    obtain ⟨target, ops⟩ := entry
    rw [updateEntries_cons]
    exact (blames_updateJson target ops).bind fun _ => ih.bind fun _ => (unfailing_pure _).blames

end Faults

section Turns

variable {options : PassOptions} {json : JsonSettings} {start : PassState} {op : Operation}
  {cause : JsonPathError}
  {props : PropertyMap} {alignment : AlignmentSettings}

/-- The turn of an operation in a pass: the documents of the targets before its own are updated, and
its own takes all the operations that come before it. -/
structure Turn (options : PassOptions) (json : JsonSettings) (start : PassState)
    (op : Operation) where
  before : List (String × List Operation)
  made : List Operation
  left : List Operation
  after : List (String × List Operation)
  entries_eq : json.byTarget.entries = before ++ (op.target, made ++ op :: left) :: after
  targets : List String
  state : PassState
  updated : (updateEntries options before).run.run start = (.ok targets, state)
  doc : JsonValue
  holds : Holds options state.disk op.target doc
  container : scalarKind? doc = none
  edited : JsonValue
  takes : editEach made doc = .ok edited

/-- The state of a pass that ends with this turn. -/
def Turn.final (turn : Turn options json start op) : PassState :=
  let batch := jsonEditor.applyAll ((turn.made ++ op :: turn.left).map Operation.edit) turn.doc
  { turn.state with reported := turn.state.reported ++ logged options batch.log }

private theorem updateEntries_append (options : PassOptions)
    (before after : List (String × List Operation)) :
    updateEntries options (before ++ after) =
      (do
        let targets ← updateEntries options before
        let later ← updateEntries options after
        return targets ++ later) := List.mapM_append

private theorem does_applyAll_fails {δ : Type} {editor : Editor δ} {ops : List Operation}
    {doc : δ} {fault : EditError}
    (h : (editor.applyAll (ops.map Operation.edit) doc).failure = some fault) (disk : Disk) :
    Does (applyAll options editor ops doc) disk (.error (.edit fault)) disk ""
      (logged options (editor.applyAll (ops.map Operation.edit) doc).log) := by
  have hthrow : Does (throw (.edit fault) : Pass δ) disk (.error (.edit fault)) disk "" "" :=
    does_throw _ disk
  have hboth :=
    (does_reportLog options (editor.applyAll (ops.map Operation.edit) doc).log disk).bind_silent
    (f := fun _ => throw (.edit fault)) hthrow
  rw [String.append_empty] at hboth
  simp only [applyAll, h]
  exact hboth

private theorem Turn.failure_eq (turn : Turn options json start op)
    (h : JsonPath.compile op.path = .error cause) :
    (jsonEditor.applyAll ((turn.made ++ op :: turn.left).map Operation.edit) turn.doc).failure =
      some (.jsonPath cause) := by
  have hlocate : jsonEditor.locate op.edit.path turn.edited = .error (.jsonPath cause) := by
    change locateJson op.path turn.edited = _
    simp only [locateJson, h]
    rfl
  have happly : jsonEditor.apply op.edit turn.edited = .error (.jsonPath cause) := by
    rw [Editor.apply, hlocate]
  have hfails : editEach (turn.made ++ op :: turn.left) turn.doc = .error (.jsonPath cause) := by
    rw [editEach, List.foldlM_append]
    change (editEach turn.made turn.doc >>= editEach (op :: turn.left)) = _
    rw [turn.takes]
    change editEach (op :: turn.left) turn.edited = _
    rw [editEach_cons, editOnce_container (scalarKind?_editEach turn.container turn.takes), happly]
    rfl
  rw [editEach_container turn.container] at hfails
  split at hfails
  · cases hfails
  · next he =>
    cases hfails
    exact he

/-- With a text that is no path the pass ends when its turn comes. -/
theorem Turn.run_eq (turn : Turn options json start op)
    (hj : JsonSettings.ofProperties props = .ok json)
    (ha : AlignmentSettings.ofProperties props = .ok alignment)
    (h : JsonPath.compile op.path = .error cause) :
    (run options props).run.run start = (.error (.edit (.jsonPath cause)), turn.final) := by
  obtain ⟨text, hl, hr⟩ := turn.holds
  have hread :=
    does_readFile (options.project.child op.target) (.noJson (options.project.child op.target).text)
    turn.state.disk
  rw [hl] at hread
  have hupdate : Does (updateJson options op.target (turn.made ++ op :: turn.left)) turn.state.disk
      (.error (.edit (.jsonPath cause))) turn.state.disk ""
      (logged options
        (jsonEditor.applyAll
        ((turn.made ++ op :: turn.left).map Operation.edit) turn.doc).log) := by
    refine hread.bind_idle ?_
    simp only [read_of_some hr, editorFor_container turn.container]
    exact (does_applyAll_fails (turn.failure_eq h) _).bind_error
  refine run_of_updateEntries_error hj ha ?_
  rw [turn.entries_eq, updateEntries_append, run_bind_ok turn.updated, updateEntries_cons]
  refine run_bind_error (run_bind_error ?_)
  rw [hupdate _ rfl, String.append_empty]
  rfl

end Turns
end BuildAlign.BuildPass

namespace BuildAlign.CommandLine
open BuildPass

variable {disk : Disk} {arguments : List String} {options : PassOptions} {props : PropertyMap}

section Starting

/-- The properties of the file that is named, if one is. -/
inductive Provides (disk : Disk) : Option String → BuildProperties.Entries → Prop
  | nothing : Provides disk none ∅
  | file {path text : String} (named : path ≠ "--") (h : disk.lookup (.ofText path) = .file text) :
    Provides disk (some path) (BuildProperties.ofText text)

/-- The arguments start a pass with these options and properties. -/
inductive Starts (disk : Disk) (arguments : List String) : PassOptions → PropertyMap → Prop
  | intro {a : CommandArguments} {defined : List (String × String)}
    {provided : BuildProperties.Entries}
    (parsed : CommandArguments.parse arguments = .ok a) (no_help : a.help = false)
    (defines : definitions a.definitions = .ok defined)
      (provides : Provides disk a.properties provided) :
    Starts disk arguments ⟨.ofText (a.project.getD ""), a.dryRun, a.verbose⟩
      ((provided.insertAll (OrderedMap.ofList defined).entries).mapValues some)

private theorem run_fileProperties {path text : String} (named : path ≠ "--")
    (h : disk.lookup (.ofText path) = .file text) :
    (fileProperties path).run.run ⟨disk, "", ""⟩ =
      (.ok (BuildProperties.ofText text), ⟨disk, "", ""⟩) := by
  have hread := does_readFile (.ofText path) (.noProperties (ProjectPath.ofText path).text) disk
  rw [h] at hread
  unfold fileProperties
  rw [if_neg named]
  exact run_bind_ok (hread ⟨disk, "", ""⟩ rfl)

/-- The command ends as the pass that it starts. -/
theorem Starts.execute_eq (h : Starts disk arguments options props)
    {result : Except PassFault (Option AlignmentResult)}
    {final : PassState}
    (hr : (BuildPass.run options props).run.run ⟨disk, "", ""⟩ = (result, final)) :
    execute disk arguments = ended (result.map fun _ => ()) final := by
  have hrest : (BuildPass.run options props >>= fun _ => pure ()).run.run ⟨disk, "", ""⟩ =
      (result.map fun _ => (), final) := by
    cases result with
    | error fault => exact run_bind_error hr
    | ok value => exact run_bind_ok hr
  have hperform : (perform arguments).run.run ⟨disk, "", ""⟩ = (result.map fun _ => (), final) := by
    cases h with
    | @intro a defined provided parsed no_help defines provides =>
      unfold perform
      simp only [parsed, no_help, defines]
      cases hp : a.properties with
      | none =>
        rw [hp] at provides
        cases provides
        exact hrest
      | some path =>
        rw [hp] at provides
        cases provides with
        | file named h => exact (run_bind_ok (run_fileProperties named h)).trans hrest
  unfold execute
  rw [hperform]

end Starting

section Answers

variable {ops : List Operation} {op : Operation} {cause : JsonPathError}
  {alignment : AlignmentSettings}

private theorem ended_error {fault : PassFault}
    (h : ∀ cause, fault ≠ .usage cause) (final : PassState) :
    ended (.error fault) final =
      if fault.isReported then ⟨1, report final s!"ERROR: {fault.message}", none⟩
      else ⟨1, final, some fault⟩ := by
  cases fault with
  | usage cause => exact absurd rfl (h cause)
  | _ => rfl

private theorem status_ended_error {fault : PassFault}
    (h : ∀ cause, fault ≠ .usage cause) (final : PassState) :
    (ended (.error fault) final).status = 1 := by
  rw [ended_error h]
  split <;> rfl

/-- Of the paths of the operations, only the beginnings matter to the settings. -/
theorem settings_cases (h : EditOperation.parse ((props.value? "jsonUpdate").getD "") = .ok ops) :
    (∃ first ∈ ops, first.path.toList.head? ≠ some '$' ∧
      JsonSettings.ofProperties props = .error ⟨.relativePath, EditOperation.render first⟩) ∨
    (∀ op ∈ ops, op.path.toList.head? = some '$') ∧
      JsonSettings.ofProperties props = .ok ⟨ops⟩ := by
  unfold JsonSettings.ofProperties
  rw [h]
  simp only [bind, Except.bind]
  cases hf : ops.find? fun op => op.path.toList.head? ≠ some '$' with
  | some first =>
    have hp := List.find?_some hf
    exact .inl ⟨first, List.mem_of_find?_eq_some hf, by simpa using hp, rfl⟩
  | none => exact .inr ⟨by simpa using hf, rfl⟩

/-- A text that is no path ends the command with the status of a failure. -/
theorem Starts.status_eq (h : Starts disk arguments options props)
    (hops : EditOperation.parse ((props.value? "jsonUpdate").getD "") = .ok ops) (hm : op ∈ ops)
    (hc : JsonPath.compile op.path = .error cause) : (execute disk arguments).status = 1 := by
  obtain ⟨fault, final, hr, hn⟩ : ∃ fault final,
      (BuildPass.run options props).run.run ⟨disk, "", ""⟩ = (.error fault, final) ∧
        ∀ cause, fault ≠ .usage cause := by
    rcases settings_cases hops with ⟨first, -, -, hj⟩ | ⟨-, hj⟩
    · exact ⟨_, _, run_of_operations_error hj _, nofun⟩
    · cases ha : AlignmentSettings.ofProperties props with
      | error cause => exact ⟨_, _, run_of_settings_error hj ha _, nofun⟩
      | ok alignment =>
        obtain ⟨before, entry, after, he, ho⟩ :=
          exists_entry (show op ∈ (JsonSettings.mk ops).operations from hm)
        obtain ⟨fault, final, hu, -, -⟩ :=
          updateEntries_of_rejected options ⟨op, ho, cause, hc⟩ before after ⟨disk, "", ""⟩
        rw [← he] at hu
        refine ⟨fault, final, run_of_updateEntries_error hj ha hu, ?_⟩
        rintro cause rfl
        cases blames_updateEntries _ _ _ _ hu
  rw [h.execute_eq hr]
  exact status_ended_error hn final

/-- When the turn of a text that is no path comes, the command ends with that. -/
theorem Starts.execute_turn (h : Starts disk arguments options props)
    (hj : JsonSettings.ofProperties props = .ok ⟨ops⟩)
    (ha : AlignmentSettings.ofProperties props = .ok alignment)
    (turn : Turn options ⟨ops⟩ ⟨disk, "", ""⟩ op) (hc : JsonPath.compile op.path = .error cause) :
    execute disk arguments =
      if (PassFault.edit (.jsonPath cause)).isReported then ⟨1,
        report turn.final s!"ERROR: {cause.message}", none⟩
      else ⟨1, turn.final, some (.edit (.jsonPath cause))⟩ := by
  rw [h.execute_eq (turn.run_eq hj ha hc)]
  rfl

/-- A text is a path, or it fails with a fault that is said of this very text, an index that writes
no number among them.  As a path of an operation it ends the command with the status of a failure.
If it does not begin at the root, the first of the operations with such a path is reported before
anything is done.  Any other fault is reported when the turn of the operation comes, and only an
index that writes no number breaks the program off. -/
theorem bad_path_is_answered_unless_numberless (path : String) :
    ((∃ found, JsonPath.compile path = .ok found) ∨ ∃ fault,
      JsonPath.compile path = .error ⟨path, fault⟩) ∧
    (∀ digits, JsonPath.compile path = .error ⟨path, .noNumber digits⟩ ↔ ∃ before found lead rest,
      path = "$" ++ before ++ lead ++ "[" ++ digits ++ "]" ++ rest ∧
        JsonPath.compile ("$" ++ before) = .ok found ∧
        (lead = "" ∨ lead = "..") ∧ JsonPath.Numberless digits) ∧
    ∀ disk arguments options props ops op cause, Starts disk arguments options props →
      EditOperation.parse ((props.value? "jsonUpdate").getD "") = .ok ops →
        op ∈ ops → op.path = path →
      JsonPath.compile path = .error cause →
        (execute disk arguments).status = 1 ∧
        (path.toList.head? ≠ some '$' → ∃ first ∈ ops, first.path.toList.head? ≠ some '$' ∧
          execute disk arguments =
            ⟨1, report ⟨disk, "", ""⟩
              s!"ERROR: JSON path must start with '$': '{EditOperation.render first}'", none⟩) ∧
        ∀ alignment (turn : Turn options ⟨ops⟩ ⟨disk, "", ""⟩ op),
          JsonSettings.ofProperties props = .ok ⟨ops⟩ →
            AlignmentSettings.ofProperties props = .ok alignment →
          ((∀ digits, cause.fault ≠ .noNumber digits) →
            execute disk arguments = ⟨1, report turn.final s!"ERROR: {cause.message}", none⟩) ∧
          ∀ digits, cause.fault = .noNumber digits →
            execute disk arguments = ⟨1, turn.final, some (.edit (.jsonPath cause))⟩ := by
  refine ⟨JsonPath.compile_cases path, fun digits => JsonPath.compile_noNumber_iff, ?_⟩
  rintro disk arguments options props ops op cause h hops hm rfl hc
  refine ⟨h.status_eq hops hm hc, fun hp => ?_,
    fun alignment turn hj ha => ⟨fun hf => ?_, fun digits hf => ?_⟩⟩
  · rcases settings_cases hops with ⟨first, hfirst, hroot, hj⟩ | ⟨hall, -⟩
    · refine ⟨first, hfirst, hroot, ?_⟩
      rw [h.execute_eq (run_of_operations_error hj _)]
      rfl
    · exact absurd (hall op hm) hp
  · rw [h.execute_turn hj ha turn hc]
    obtain ⟨path, fault⟩ := cause
    cases fault with
    | noNumber digits => exact absurd rfl (hf digits)
    | _ => rfl
  · rw [h.execute_turn hj ha turn hc]
    obtain ⟨path, fault⟩ := cause
    cases hf
    rfl

def document : String := "\x7b\"x\": 1\x7d"

def oneDocument : Disk := ⟨["p"], .ofList [(["p", "a.json"], document)]⟩

def inProject : PassOptions := ⟨.ofText ".", false, false⟩

/-- The only operation of the command below. -/
def deletion (path : String) : Operation := ⟨"a.json", path, none⟩

def definitionOf (path : String) : String := "jsonUpdate=a.json:" ++ path

def deleting (path : String) : List String := [".", "-D", definitionOf path]

def propertiesOf (path : String) : PropertyMap :=
  ((∅ : BuildProperties.Entries).insertAll
    (OrderedMap.ofList [("jsonUpdate", "a.json:" ++ path)]).entries).mapValues some

def onlyTurn (path : String) :
    Turn inProject ⟨[deletion path]⟩ ⟨oneDocument, "", ""⟩ (deletion path) where
  before := []
  made := []
  left := []
  after := []
  entries_eq := rfl
  targets := []
  state := ⟨oneDocument, "", ""⟩
  updated := rfl
  doc := (JsonReader.read? document).get (by decide +kernel)
  holds := ⟨document,
    (by decide +kernel : oneDocument.lookup (inProject.project.child "a.json") = .file document),
    (Option.some_get _).symm⟩
  container := by decide +kernel
  edited := (JsonReader.read? document).get (by decide +kernel)
  takes := rfl

/-- The arguments, the settings and the operation of the command, all read from one text. -/
structure Deletes (path : String) : Prop where
  parsed : CommandArguments.parse (deleting path) =
    .ok ⟨some ".", [definitionOf path], none, false, false, false, []⟩
  defines : definitions [definitionOf path] = .ok [("jsonUpdate", "a.json:" ++ path)]
  operations :
    EditOperation.parse (((propertiesOf path).value? "jsonUpdate").getD "") = .ok [deletion path]
  json : JsonSettings.ofProperties (propertiesOf path) = .ok ⟨[deletion path]⟩
  alignment : AlignmentSettings.ofProperties (propertiesOf path) =
    .ok ⟨[], true, true, false, false, .literal, []⟩

private theorem Deletes.starts {path : String} (h : Deletes path) :
    Starts oneDocument (deleting path) inProject (propertiesOf path) :=
      .intro h.parsed rfl h.defines .nothing

/-- The one is a letter, the other a digit to the eye only. -/
theorem bad_path_is_answered_unless_numberless_indices :
    (execute oneDocument (deleting "$[x]")).status = 1 ∧
      (execute oneDocument (deleting "$[x]")).brokenBy = none ∧
    (execute oneDocument (deleting "$[x]")).final.reported =
      "ERROR: Expected non-negative integer index after '[' at position 1 in '$[x]'\n" ∧
    (execute oneDocument (deleting "$[²]")).status = 1 ∧
    (execute oneDocument (deleting "$[²]")).brokenBy =
      some (.edit (.jsonPath ⟨"$[²]", .noNumber "²"⟩)) ∧
    (execute oneDocument (deleting "$[²]")).final.reported = "" := by
  have letter : Deletes "$[x]" := by constructor <;> decide +kernel
  have sign : Deletes "$[²]" := by constructor <;> decide +kernel
  have hletter : JsonPath.compile "$[x]" = .error ⟨"$[x]", .noIndex 3⟩ := by decide +kernel
  have hsign : JsonPath.compile "$[²]" = .error ⟨"$[²]", .noNumber "²"⟩ := by decide +kernel
  obtain ⟨-, -, hanswers⟩ := bad_path_is_answered_unless_numberless "$[x]"
  obtain ⟨-, -, hletter⟩ := hanswers _ _ _ _ _ (deletion "$[x]") _ letter.starts letter.operations
    (List.mem_singleton_self _) rfl hletter
  obtain ⟨-, -, hanswers⟩ := bad_path_is_answered_unless_numberless "$[²]"
  obtain ⟨-, -, hsign⟩ := hanswers _ _ _ _ _ (deletion "$[²]") _ sign.starts sign.operations
    (List.mem_singleton_self _) rfl hsign
  have hreported := (hletter _ (onlyTurn "$[x]") letter.json letter.alignment).1 nofun
  have hbroken := (hsign _ (onlyTurn "$[²]") sign.json sign.alignment).2 "²" rfl
  rw [hreported, hbroken]
  exact ⟨rfl, rfl, by decide +kernel, rfl, rfl, by decide +kernel⟩

/-- A digit to the eye is not a fault that is reported. -/
theorem not_every_bad_path_is_reported :
    JsonPath.compile "$[²]" = .error ⟨"$[²]", .noNumber "²"⟩ ∧
    JsonPathError.message ⟨"$[²]", .noNumber "²"⟩ = "invalid literal for int() with base 10: '²'" ∧
    (execute oneDocument (deleting "$[²]")).brokenBy =
      some (.edit (.jsonPath ⟨"$[²]", .noNumber "²"⟩)) ∧
    (execute oneDocument (deleting "$[²]")).final.reported = "" := by
  decide +kernel

end Answers
end BuildAlign.CommandLine
