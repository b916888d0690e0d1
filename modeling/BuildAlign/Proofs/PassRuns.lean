import BuildAlign.BuildPass

/-! # How passes end

What a pass does depends on the files alone: what it has printed and reported before plays no part.
So a pass returns a value and leaves some files, or it breaks off, and passes in a row compose. -/
namespace BuildAlign.BuildPass

/-- From these files the pass returns the value and leaves those files. -/
def Ends {α : Type} (p : Pass α) (disk : Disk) (value : α) (disk' : Disk) : Prop :=
  ∀ s : PassState, s.disk = disk → ∃ s' : PassState, p.run.run s = (.ok value, s') ∧ s'.disk = disk'

/-- From these files the pass breaks off. -/
def Breaks {α : Type} (p : Pass α) (disk : Disk) : Prop :=
  ∀ s : PassState, s.disk = disk → ∃ fault s', p.run.run s = (.error fault, s')

variable {α β : Type} {p : Pass α} {f : α → Pass β} {disk disk' disk'' : Disk}
  {value : α} {result : β}

theorem ends_pure (value : α) (disk : Disk) : Ends (pure value) disk value disk :=
  fun s hs => ⟨s, rfl, hs⟩

theorem breaks_throw (fault : PassFault) (disk : Disk) : Breaks (throw fault : Pass α) disk :=
  fun s _ => ⟨fault, s, rfl⟩

theorem run_bind_ok {s s' : PassState} (h : p.run.run s = (.ok value, s')) :
    (p >>= f).run.run s = (f value).run.run s' := by
  simp only [ExceptT.run_bind, StateT.run_bind, h]
  rfl

/-- From the same files the pass always returns the same value. -/
theorem Ends.value_eq {other : α} (h : Ends p disk value disk') (h' : Ends p disk other disk'') :
    value = other := by
  obtain ⟨s, hs, -⟩ := h ⟨disk, "", ""⟩ rfl
  obtain ⟨s', hs', -⟩ := h' ⟨disk, "", ""⟩ rfl
  cases hs.symm.trans hs'
  rfl

theorem Ends.bind (hp : Ends p disk value disk') (hf : Ends (f value) disk' result disk'') :
    Ends (p >>= f) disk result disk'' := by
  intro s hs
  obtain ⟨s', hr, hs'⟩ := hp s hs
  rw [run_bind_ok hr]
  exact hf s' hs'

theorem Ends.bind_breaks (hp : Ends p disk value disk') (hf : Breaks (f value) disk') :
    Breaks (p >>= f) disk := by
  intro s hs
  obtain ⟨s', hr, hs'⟩ := hp s hs
  rw [run_bind_ok hr]
  exact hf s' hs'

theorem Breaks.bind (hp : Breaks p disk) : Breaks (p >>= f) disk := by
  intro s hs
  obtain ⟨fault, s', hr⟩ := hp s hs
  refine ⟨fault, s', ?_⟩
  simp only [ExceptT.run_bind, StateT.run_bind, hr]
  rfl

private theorem encoded_of_ok {text : LooseText} {written : String}
    (h : text.encode = .ok written) :
    encoded text = pure written := by
  rw [encoded, h]

theorem encoded_of_error {text : LooseText} {halves : LoneHalves}
    (h : text.encode = .error halves) :
    encoded text = throw (.unwritable halves) := by
  rw [encoded, h]

theorem run_print (text : String) (s : PassState) :
    (print (.ofString text)).run.run s = (.ok (), { s with printed := s.printed ++ text }) := by
  rw [print, encoded_of_ok (LooseText.encode_ofString text)]
  rfl

theorem ends_print (text : String) (disk : Disk) : Ends (print (.ofString text)) disk () disk :=
  fun s hs => ⟨_, run_print text s, hs⟩

private theorem ends_report (line : String) (disk : Disk) : Ends (report line) disk () disk :=
  fun s hs => ⟨{ s with reported := s.reported ++ line ++ "\n" }, rfl, hs⟩

private theorem ends_forM {γ : Type} {act : γ → Pass PUnit} {l : List γ}
    (h : ∀ x ∈ l, Ends (act x) disk () disk) :
    Ends (l.forM act) disk () disk := by
  induction l with
  | nil => exact ends_pure () disk
  | cons x l ih =>
    exact (h x List.mem_cons_self).bind (ih fun x hx => h x (List.mem_cons_of_mem _ hx))

theorem ends_reportLog (options : PassOptions) (log : PassLog) (disk : Disk) :
    Ends (reportLog options log) disk () disk := ends_forM fun e _ => ends_report e.line disk

theorem ends_applyAll {δ : Type} (options : PassOptions) {editor : Editor δ} {ops : List Operation}
    {doc : δ} (h : (editor.applyAll (ops.map Operation.edit) doc).failure = none) (disk : Disk) :
    Ends (applyAll options editor ops doc) disk
      (editor.applyAll (ops.map Operation.edit) doc).document
      disk := by
  simp only [applyAll, h]
  exact (ends_reportLog options _ disk).bind (ends_pure _ disk)

theorem breaks_applyAll {δ : Type} (options : PassOptions) {editor : Editor δ}
    {ops : List Operation}
    {doc : δ} {cause : EditError}
    (h : (editor.applyAll (ops.map Operation.edit) doc).failure = some cause)
    (disk : Disk) :
    Breaks (applyAll options editor ops doc) disk := by
  simp only [applyAll, h]
  exact (ends_reportLog options _ disk).bind_breaks (breaks_throw _ disk)

theorem ends_readFile {path : ProjectPath} {text : String} (h : disk.lookup path = .file text)
    (absent : PassFault) : Ends (readFile path absent) disk text disk := by
  intro s hs
  refine ⟨s, ?_, hs⟩
  have hg : (get : Pass PassState).run.run s = (.ok s, s) := rfl
  rw [readFile, run_bind_ok hg, hs, h]
  rfl

theorem run_writeFile {text : LooseText} {written : String}
    (h : text.encode = .ok written) (path : ProjectPath)
    (s : PassState) :
    (writeFile path text).run.run s = (.ok (), { s with disk := s.disk.write path written }) := by
  rw [writeFile, h, encoded_of_ok h]
  rfl

/-- The file is emptied before the text turns out to be one that cannot be put out. -/
theorem run_writeFile_error {text : LooseText} {halves : LoneHalves}
    (h : text.encode = .error halves)
    (path : ProjectPath) (s : PassState) :
    (writeFile path text).run.run s =
      (.error (.unwritable halves), { s with disk := s.disk.write path "" }) := by
  rw [writeFile, h, encoded_of_error h]
  rfl

theorem ends_writeFile {path : ProjectPath} {text : LooseText} {written : String}
    (h : text.encode = .ok written) (disk : Disk) :
    Ends (writeFile path text) disk () (disk.write path written) :=
  fun s hs => ⟨_, run_writeFile h path s, hs ▸ rfl⟩

end BuildAlign.BuildPass
