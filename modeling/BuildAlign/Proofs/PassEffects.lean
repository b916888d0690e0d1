import BuildAlign.Proofs.PassRuns

/-! # What passes do to files

Most of a pass only looks at files.  Writing comes last in every unit of work, after everything that
can fail, so a unit that fails has written nothing. -/
namespace BuildAlign.BuildPass

/-- The pass changes no file, whether it fails or not. -/
def ReadOnly {α : Type} (p : Pass α) : Prop := ∀ s : PassState, (p.run.run s).2.disk = s.disk

/-- If the pass fails, then no file has changed. -/
def Atomic {α : Type} (p : Pass α) : Prop :=
  ∀ (s : PassState) fault s', p.run.run s = (.error fault, s') → s'.disk = s.disk

/-- The pass cannot fail. -/
def Unfailing {α : Type} (p : Pass α) : Prop :=
  ∀ s : PassState, ∃ value s', p.run.run s = (.ok value, s')

/-- The pass fails and changes no file, whatever the files are. -/
def Quits {α : Type} (p : Pass α) : Prop :=
  ∀ s : PassState, ∃ fault s', p.run.run s = (.error fault, s') ∧ s'.disk = s.disk

section Composition

variable {α β : Type} {p : Pass α} {f : α → Pass β}

theorem run_bind_error {s s' : PassState} {fault : PassFault}
    (h : p.run.run s = (.error fault, s')) :
    (p >>= f).run.run s = (.error fault, s') := by
  simp only [ExceptT.run_bind, StateT.run_bind, h]
  rfl

/-- Of two passes in a row the first fails, or the second runs from where the first ends. -/
theorem run_bind_cases {s s' : PassState} {result : Except PassFault β}
    (h : (p >>= f).run.run s = (result, s')) :
    (∃ fault, p.run.run s = (.error fault, s') ∧ result = .error fault) ∨
      ∃ value s₁, p.run.run s = (.ok value, s₁) ∧ (f value).run.run s₁ = (result, s') := by
  rcases hp : p.run.run s with ⟨fault | value, s₁⟩
  · rw [run_bind_error hp] at h
    cases h
    exact .inl ⟨fault, rfl, rfl⟩
  · rw [run_bind_ok hp] at h
    exact .inr ⟨value, s₁, rfl, h⟩

theorem run_bind_eq_ok {s s' : PassState} {result : β}
    (h : (p >>= f).run.run s = (.ok result, s')) :
    ∃ value s₁, p.run.run s = (.ok value, s₁) ∧ (f value).run.run s₁ = (.ok result, s') := by
  rcases run_bind_cases h with ⟨fault, -, he⟩ | hb
  · cases he
  · exact hb

theorem ReadOnly.disk_eq (h : ReadOnly p) {s s' : PassState} {result : Except PassFault α}
    (hr : p.run.run s = (result, s')) : s'.disk = s.disk := by
  have hs := h s
  rwa [hr] at hs

theorem readOnly_pure (value : α) : ReadOnly (pure value) := fun _ => rfl

theorem readOnly_throw (fault : PassFault) : ReadOnly (throw fault : Pass α) := fun _ => rfl

private theorem readOnly_get : ReadOnly (get : Pass PassState) := fun _ => rfl

theorem ReadOnly.bind (hp : ReadOnly p) (hf : ∀ value, ReadOnly (f value)) :
    ReadOnly (p >>= f) := by
  intro s
  rcases run_bind_cases (s := s) rfl with ⟨_, h, -⟩ | ⟨value, s₁, h, h'⟩
  · exact hp.disk_eq h
  · exact ((hf value).disk_eq h').trans (hp.disk_eq h)

theorem readOnly_forM {γ : Type} {act : γ → Pass PUnit} {l : List γ}
    (h : ∀ x ∈ l, ReadOnly (act x)) :
    ReadOnly (l.forM act) := by
  induction l with
  | nil => exact readOnly_pure ()
  | cons x l ih =>
    exact (h x List.mem_cons_self).bind fun _ => ih fun x hx => h x (List.mem_cons_of_mem _ hx)

theorem readOnly_mapM {γ : Type} {act : γ → Pass β} {l : List γ} (h : ∀ x ∈ l, ReadOnly (act x)) :
    ReadOnly (l.mapM act) := by
  induction l with
  | nil => exact readOnly_pure []
  | cons x l ih =>
    rw [List.mapM_cons]
    refine (h x List.mem_cons_self).bind fun _ => ?_
    exact (ih fun x hx => h x (List.mem_cons_of_mem _ hx)).bind fun _ => readOnly_pure _

private theorem Unfailing.atomic (h : Unfailing p) : Atomic p := by
  intro s fault s' hr
  obtain ⟨value, s₁, hv⟩ := h s
  cases hv.symm.trans hr

/-- What only looks at files can stand before a unit of work. -/
theorem ReadOnly.bind_atomic (hp : ReadOnly p) (hf : ∀ value, Atomic (f value)) :
    Atomic (p >>= f) := by
  intro s fault s' hr
  rcases run_bind_cases hr with ⟨_, h, -⟩ | ⟨value, s₁, h, h'⟩
  · exact hp.disk_eq h
  · exact (hf value s₁ fault s' h').trans (hp.disk_eq h)

theorem unfailing_pure (value : α) : Unfailing (pure value) := fun s => ⟨value, s, rfl⟩

theorem Unfailing.bind (hp : Unfailing p) (hf : ∀ value, Unfailing (f value)) :
    Unfailing (p >>= f) := by
  intro s
  obtain ⟨value, s₁, h⟩ := hp s
  rw [run_bind_ok h]
  exact hf value s₁

private theorem unfailing_forM {γ : Type} {act : γ → Pass PUnit}
    (h : ∀ x, Unfailing (act x)) (l : List γ) :
    Unfailing (l.forM act) := by
  induction l with
  | nil => exact unfailing_pure ()
  | cons x l ih => exact (h x).bind fun _ => ih

theorem quits_throw (fault : PassFault) :
    Quits (throw fault : Pass α) := fun s => ⟨fault, s, rfl, rfl⟩

/-- What stands behind a pass that quits does nothing. -/
theorem Quits.bind (hp : Quits p) : Quits (p >>= f) := by
  intro s
  obtain ⟨fault, s', h, hd⟩ := hp s
  exact ⟨fault, s', run_bind_error h, hd⟩

theorem ReadOnly.bind_quits (hp : ReadOnly p) (hf : ∀ value, Quits (f value)) :
    Quits (p >>= f) := by
  intro s
  rcases h : p.run.run s with ⟨fault | value, s₁⟩
  · exact ⟨fault, s₁, run_bind_error h, hp.disk_eq h⟩
  · obtain ⟨fault, s', h', hd⟩ := hf value s₁
    exact ⟨fault, s', (run_bind_ok h).trans h', hd.trans (hp.disk_eq h)⟩

end Composition

section Functions

variable (options : PassOptions)

theorem readOnly_print (text : LooseText) : ReadOnly (print text) := by
  refine ReadOnly.bind ?_ fun written => fun _ => rfl
  unfold encoded
  split
  · exact readOnly_pure _
  · exact readOnly_throw _

private theorem unfailing_print (text : String) :
    Unfailing (print (.ofString text)) := fun s => ⟨(), _, run_print text s⟩

private theorem readOnly_printSection (title : String) (content : LooseText) :
    ReadOnly (printSection title content) :=
  (readOnly_print _).bind fun _ => (readOnly_print content).bind fun _ => readOnly_print _

private theorem unfailing_printSection (title content : String) :
    Unfailing (printSection title (.ofString content)) :=
  (unfailing_print _).bind fun _ => (unfailing_print content).bind fun _ => unfailing_print _

theorem readOnly_report (line : String) : ReadOnly (report line) := fun _ => rfl

private theorem unfailing_report (line : String) : Unfailing (report line) := fun _ => ⟨(), _, rfl⟩

private theorem readOnly_reportLog (log : PassLog) : ReadOnly (reportLog options log) :=
  readOnly_forM fun e _ => readOnly_report e.line

theorem readOnly_readFile (path : ProjectPath) (absent : PassFault) :
    ReadOnly (readFile path absent) := by
  refine readOnly_get.bind fun s => ?_
  cases s.disk.lookup path with
  | file text => exact readOnly_pure text
  | directory => exact readOnly_throw _
  | absent => exact readOnly_throw _
  | tooLong => exact readOnly_throw _

theorem readOnly_applyAll {δ : Type} (editor : Editor δ) (ops : List Operation) (doc : δ) :
    ReadOnly (applyAll options editor ops doc) := by
  refine (readOnly_reportLog options _).bind fun _ => ?_
  split
  · exact readOnly_throw _
  · exact readOnly_pure _

theorem readOnly_put {options : PassOptions} (dry : options.dryRun = true) (target : String)
    (shown written : LooseText) : ReadOnly (put options target shown written) := by
  rw [put, if_pos dry]
  exact readOnly_printSection target shown

theorem readOnly_updateJson {options : PassOptions} (dry : options.dryRun = true) (target : String)
    (ops : List Operation) : ReadOnly (updateJson options target ops) := by
  refine (readOnly_readFile _ _).bind fun text => ?_
  split
  · exact readOnly_throw _
  · split
    · exact readOnly_throw _
    · exact (readOnly_applyAll options _ ops _).bind fun edited => readOnly_put dry target _ _

theorem readOnly_loadModules : ReadOnly (loadModules options) := by
  refine (readOnly_readFile _ _).bind fun text => ?_
  split
  · exact readOnly_throw _
  · refine readOnly_get.bind fun s => ?_
    refine (readOnly_forM fun directory _ => readOnly_report _).bind fun _ => ?_
    split
    · exact readOnly_throw _
    · exact readOnly_pure _

private theorem readOnly_alignModules (settings : AlignmentSettings)
    (reactor : Reactor) (isRoot : Bool)
    (ms : List PomModule) (result : AlignmentResult) :
    ReadOnly (alignModules options settings reactor isRoot ms result) := by
  induction ms generalizing isRoot result with
  | nil => exact readOnly_pure result
  | cons m ms ih =>
    refine (readOnly_reportLog options _).bind fun _ => ?_
    split
    · exact readOnly_throw _
    · exact ih false _

private theorem readOnly_editPom (result : AlignmentResult) (target : String) (root : XmlNode) :
    ReadOnly (editPom options result target root) :=
  (readOnly_applyAll options DocumentEdits.pomEditor _ root).bind fun _ => readOnly_pure _

private theorem readOnly_editPoms (result : AlignmentResult)
    (targets : List String) (trees : PomTrees) :
    ReadOnly (editPoms options result targets trees) := by
  induction targets generalizing trees with
  | nil => exact readOnly_pure trees
  | cons target targets ih =>
    rw [editPoms]
    split
    · exact ih trees
    · exact (readOnly_editPom options result target _).bind fun _ => ih _

theorem unfailing_writeFile {text : LooseText} {written : String} (h : text.encode = .ok written)
    (path : ProjectPath) : Unfailing (writeFile path text) :=
      fun s => ⟨(), _, run_writeFile h path s⟩

/-- What is written to a POM is a text without surrogates. -/
theorem unfailing_putPom (trees : PomTrees) (target : String) :
    Unfailing (putPom options trees target) := by
  rw [putPom]
  split
  · exact unfailing_pure _
  · rw [put]
    split
    · exact unfailing_printSection _ _
    · exact (unfailing_writeFile (LooseText.encode_ofString _) _).bind fun _ => unfailing_print _

/-- All POMs are read, aligned and edited before the first of them is written. -/
theorem atomic_alignProject (settings : AlignmentSettings) :
    Atomic (alignProject options settings) := by
  refine (readOnly_loadModules options).bind_atomic fun loaded => ?_
  refine (readOnly_alignModules options settings _ true _ ∅).bind_atomic fun result => ?_
  refine (readOnly_editPoms options result _ _).bind_atomic fun trees => ?_
  exact ((unfailing_forM (unfailing_putPom options trees) _).bind fun _ =>
    unfailing_pure result).atomic

theorem unfailing_closing (result : AlignmentResult) :
    Unfailing (do
      result.warnings.forM fun warning => report s!"WARNING: {warning}"
      print (.ofString (summary result))
      return some result) := by
  refine (unfailing_forM (fun _ => unfailing_report _) _).bind fun _ => ?_
  exact (unfailing_print _).bind fun _ => unfailing_pure _

end Functions
end BuildAlign.BuildPass
