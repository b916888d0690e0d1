import BuildAlign.Proofs.PomPathSpelling

/-! # The spellings of a path

Steps may have an index or not, there may be several slashes where one is enough, and slashes and
blanks around the whole.  A path is read as the steps that it was made of, however it is spelled.
Only a first step that is written like the name of the root is not told from it, where the root is
not named in front of it. -/
namespace BuildAlign.PomPath
open BlankText

variable {step : PomStep} {steps : List PomStep} {text cs : List Char}
  {texts : List (List Char)} {path : String}

/-- The ways to write a step.  Zeros may stand in front of an index, and the index 0 may be left
out. -/
inductive Written : PomStep → List Char → Prop
  | bare {name : String} (h : StepName name) : Written ⟨name, 0⟩ name.toList
  | indexed {name : String} (h : StepName name) (zeros i : Nat) :
    Written ⟨name, i⟩ (bracketed name (DecimalDigits.padded zeros i))

/-- The texts with one slash or more behind each but the last. -/
inductive Slashed : List (List Char) → List Char → Prop
  | last (text : List Char) : Slashed [text] text
  | before (text : List Char) (slashes : Nat) {texts : List (List Char)} {cs : List Char}
    (h : Slashed texts cs) :
    Slashed (text :: texts) (text ++ '/' :: (List.replicate slashes '/' ++ cs))

/-- A path with these texts between its slashes.  Further slashes may stand around them, and blanks
around these. -/
inductive Spelled (texts : List (List Char)) : String → Prop
  | intro {front cs back : List Char} (leading trailing : Nat) (slashed : Slashed texts cs)
    (hf : ∀ c ∈ front, isBlank c = true) (hb : ∀ c ∈ back, isBlank c = true) :
    Spelled texts (String.ofList
      (front ++ (List.replicate leading '/' ++ cs ++ List.replicate trailing '/') ++ back))

/-- Besides the name and the brackets, a step has no more characters than a number may have
digits. -/
def Fits (step : PomStep) (text : List Char) : Prop :=
  text.length ≤ step.name.toList.length + 2 + DecimalDigits.longest

instance (step : PomStep) (text : List Char) :
    Decidable (Fits step text) := by unfold Fits; infer_instance

theorem Written.stepText (h : Written step text) : StepText text := by
  cases h with
  | bare h => exact h.stepText
  | indexed h zeros i => exact h.stepText_bracketed zeros i

/-- A written step is read, unless its index is too long. -/
theorem Written.step_eq_ok_iff (h : Written step text) :
    PomPath.step text = .ok step ↔ Fits step text := by
  cases h with
  | bare h => exact iff_of_true (step_name h) (by simp only [Fits]; omega)
  | indexed h zeros i =>
    rw [step_padded h, Fits, bracketed]
    simp only [List.length_append, List.length_cons, List.length_nil]
    omega

private theorem Written.spells_iff (h : Written step text) : Spells text step ↔ Fits step text :=
  ⟨fun hs => h.step_eq_ok_iff.1 hs.read, fun hf => ⟨h.stepText, h.step_eq_ok_iff.2 hf⟩⟩

section Slashes

private theorem filled_slashes_append (slashes : Nat) (cs : List Char) :
    filled (List.replicate slashes '/' ++ cs) = filled cs := by
  induction slashes with
  | zero => rfl
  | succ slashes ih =>
    have hcut := filled_append_slash [] (List.replicate slashes '/' ++ cs)
    rwa [ih] at hcut

private theorem filled_append_slashes (cs : List Char) (slashes : Nat) :
    filled (cs ++ List.replicate slashes '/') = filled cs := by
  cases slashes with
  | zero => rw [List.replicate_zero, List.append_nil]
  | succ slashes =>
    have hnone := filled_slashes_append slashes []
    rw [List.append_nil] at hnone
    rw [List.replicate_succ, filled_append_slash, hnone]
    exact List.append_nil (filled cs)

/-- The induction is on the texts: a slash cuts the first one off, and the slashes behind it do not
count. -/
theorem Slashed.filled_eq (h : Slashed texts cs) (hn : ∀ t ∈ texts, t ≠ [])
    (hc : ∀ t ∈ texts, '/' ∉ t) :
    filled cs = texts := by
  induction h with
  | last text => exact filled_of_closed (hn text List.mem_cons_self) (hc text List.mem_cons_self)
  | before text slashes _ ih =>
    rw [List.forall_mem_cons] at hn hc
    rw [filled_append_slash, filled_slashes_append, filled_of_closed hn.1 hc.1, ih hn.2 hc.2]
    rfl

private theorem Slashed.not_blank (h : Slashed texts cs)
    (hb : ∀ t ∈ texts, ∀ c ∈ t, isBlank c = false) :
    ∀ c ∈ cs, isBlank c = false := by
  induction h with
  | last text => exact hb text List.mem_cons_self
  | before text slashes _ ih =>
    rw [List.forall_mem_cons] at hb
    intro c hc
    simp only [List.mem_append, List.mem_cons, List.mem_replicate] at hc
    rcases hc with hc | rfl | ⟨-, rfl⟩ | hc
    · exact hb.1 c hc
    · decide
    · decide
    · exact ih hb.2 c hc

/-- What stands around the texts is not read. -/
theorem Spelled.filled_trim (h : Spelled texts path) (hn : ∀ t ∈ texts, t ≠ [])
    (hc : ∀ t ∈ texts, ∀ c ∈ t, c ≠ '/' ∧ isBlank c = false) :
    filled (trim path.toList) = texts := by
  cases h with
  | @intro front cs back leading trailing slashed hf hb =>
    have hcore : ∀ c ∈ List.replicate leading '/' ++ cs ++ List.replicate trailing '/',
        isBlank c = false := by
      intro c hm
      rcases List.mem_append.1 hm with hm | hm
      · rcases List.mem_append.1 hm with hm | hm
        · rw [List.eq_of_mem_replicate hm]
          decide
        · exact slashed.not_blank (fun t ht c hm => (hc t ht c hm).2) c hm
      · rw [List.eq_of_mem_replicate hm]
        decide
    rw [String.toList_ofList, trim_append_of_blank _ hb, trim_of_blank_append hf,
      trim_of_not_blank hcore,
      filled_append_slashes, filled_slashes_append]
    exact slashed.filled_eq hn fun t ht hm => (hc t ht _ hm).1 rfl

end Slashes

private theorem length_of_parse (h : parse path = .ok steps) :
    (stepTexts path).length = steps.length := by
  unfold parse at h
  split at h
  · cases h
  · exact (ListReading.mapM_eq_ok_iff.1 h).length_eq

/-- A path between whose slashes these texts stand is read if and only if none of them has too long
an index. -/
theorem parse_of_written (written : List.Forall₂ Written steps texts) (nonempty : steps ≠ [])
    (ht : stepTexts path = texts) : parse path = .ok steps ↔ List.Forall₂ Fits steps texts := by
  constructor
  · intro h
    unfold parse at h
    split at h
    · cases h
    · have hread := ListReading.mapM_eq_ok_iff.1 h
      rw [ht] at hread
      exact written.mp
        (fun _ _ hw hr => hw.step_eq_ok_iff.1 (ListReading.mapError_eq_ok.1 hr)) hread.flip
  · intro hfits
    have hs := List.Forall₂.mp (fun _ _ hw hf => hw.spells_iff.2 hf) written hfits
    exact parse_of_stepTexts (ht ▸ hs.flip) nonempty

private theorem stepText_of_written (written : List.Forall₂ Written steps texts) :
    ∀ t ∈ texts, StepText t := by
  intro t ht
  obtain ⟨_, -, h⟩ := ListReading.exists_left written ht
  exact h.stepText

private theorem filled_of_written (written : List.Forall₂ Written steps texts)
    (spelled : Spelled texts path) :
    filled (trim path.toList) = texts :=
  spelled.filled_trim (fun t ht => (stepText_of_written written t ht).nonempty)
    fun t ht => (stepText_of_written written t ht).closed

private theorem parse_unrooted (written : List.Forall₂ Written steps texts) (nonempty : steps ≠ [])
    (spelled : Spelled texts path) (hroot : texts.head? ≠ some rootName) :
    parse path = .ok steps ↔ List.Forall₂ Fits steps texts := by
  refine parse_of_written written nonempty ?_
  rw [stepTexts_eq, filled_of_written written spelled, if_neg hroot]

/-- A path that names the root and then the steps is read as the steps, whatever the spelling, if
and only if no index is too long.  A path that does not name the root is so read if and only if,
besides, its first step is not written as the name of the root. -/
theorem spellings_are_read (written : List.Forall₂ Written steps texts) (nonempty : steps ≠ []) :
    (∀ path, Spelled (rootName :: texts) path →
      (parse path = .ok steps ↔ List.Forall₂ Fits steps texts)) ∧
      ∀ path, Spelled texts path →
        (parse path = .ok steps ↔ texts.head? ≠ some rootName ∧ List.Forall₂ Fits steps texts) := by
  constructor
  · intro path spelled
    have hproject : StepName "project" := stepName_of_chars (by decide)
    have hfilled := filled_of_written (.cons (.bare hproject) written) spelled
    refine parse_of_written written nonempty ?_
    rw [stepTexts_eq, hfilled, if_pos (by rfl)]
    rfl
  · intro path spelled
    by_cases hroot : texts.head? = some rootName
    · -- The first step is taken for the root, so one step less is read.
      refine iff_of_false (fun hp => ?_) fun h => h.1 hroot
      have ht := stepTexts_eq path
      rw [filled_of_written written spelled, if_pos hroot] at ht
      have hlen := length_of_parse hp
      rw [ht, List.length_tail, ← written.length_eq] at hlen
      have hpos := List.length_pos_of_ne_nil nonempty
      omega
    · rw [parse_unrooted written nonempty spelled hroot, and_iff_right hroot]

/-- A step with an index, which has zeros in front of it. -/
def numbered (zeros i : Nat) : List Char := bracketed "dependency" (DecimalDigits.padded zeros i)

private theorem written_numbered (zeros i : Nat) :
    List.Forall₂ Written [⟨"dependency", i⟩] [numbered zeros i] :=
  .cons (.indexed (stepName_of_chars (by decide)) zeros i) .nil

private theorem spelled_numbered (zeros i : Nat) :
    Spelled [numbered zeros i] (String.ofList (numbered zeros i)) := by
  have h :=
    Spelled.intro 0 0 (.last (numbered zeros i)) (List.forall_mem_nil _) (List.forall_mem_nil _)
  rwa [List.replicate_zero, List.nil_append, List.append_nil, List.nil_append, List.append_nil] at h

private theorem not_read_of_longer {zeros i : Nat}
    (h : DecimalDigits.longest < (DecimalDigits.padded zeros i).length) :
    parse (String.ofList (numbered zeros i)) ≠ .ok [⟨"dependency", i⟩] := by
  intro hread
  have hroot : [numbered zeros i].head? ≠ some rootName := by
    intro he
    have hd := congrArg List.head? (Option.some.inj he)
    exact absurd hd (by simp [numbered, bracketed, rootName])
  have hfits :=
    (parse_unrooted (written_numbered zeros i) (List.cons_ne_nil _ _)
      (spelled_numbered zeros i) hroot).1
    hread
  have hlong : (numbered zeros i).length ≤ "dependency".toList.length + 2 + DecimalDigits.longest :=
    (List.forall₂_cons.1 hfits).1
  rw [numbered, bracketed, List.length_append, List.length_append,
    List.length_cons, List.length_cons,
    List.length_nil] at hlong
  omega

/-- A position may have too many digits, and too many zeros may stand in front of it. -/
theorem long_spelling_is_not_read :
    List.Forall₂ Written [⟨"dependency", 10 ^ DecimalDigits.longest⟩]
      [numbered 0 (10 ^ DecimalDigits.longest)] ∧
      Spelled [numbered 0 (10 ^ DecimalDigits.longest)]
        (String.ofList (numbered 0 (10 ^ DecimalDigits.longest))) ∧
      parse (String.ofList (numbered 0 (10 ^ DecimalDigits.longest))) ≠
        .ok [⟨"dependency", 10 ^ DecimalDigits.longest⟩] ∧
    List.Forall₂ Written [⟨"dependency", 1⟩] [numbered 4300 1] ∧
      Spelled [numbered 4300 1] (String.ofList (numbered 4300 1)) ∧
      parse (String.ofList (numbered 4300 1)) ≠ .ok [⟨"dependency", 1⟩] :=
  ⟨written_numbered 0 _, spelled_numbered 0 _,
    not_read_of_longer (DecimalDigits.longest_lt_length_padded (Nat.le_refl _)),
    written_numbered 4300 1, spelled_numbered 4300 1,
    not_read_of_longer (DecimalDigits.length_padded 4300 1 ▸ by decide)⟩

/-- The first element is called like the root. -/
def namesakes : List PomStep := [⟨"project", 0⟩, ⟨"a", 12⟩]

theorem spellings_are_read_projects :
    List.Forall₂ Written namesakes ["project".toList, "a[012]".toList] ∧
      parse "\t/project//project/a[012]/ " = .ok namesakes ∧
      parse "project/a[012]" ≠ .ok namesakes ∧
    List.Forall₂ Written namesakes ["project[0]".toList, "a[012]".toList] ∧
      parse "//project[0]/a[012]" = .ok namesakes := by
  have hproject : StepName "project" := stepName_of_chars (by decide)
  have hname : StepName "a" := stepName_of_chars (by decide)
  have ha : Written ⟨"a", 12⟩ "a[012]".toList := .indexed hname 1 12
  have hbare : List.Forall₂ Written namesakes ["project".toList, "a[012]".toList] :=
    .cons (.bare hproject) (.cons ha .nil)
  have hindexed : List.Forall₂ Written namesakes ["project[0]".toList, "a[012]".toList] :=
    .cons (.indexed hproject 0 0) (.cons ha .nil)
  have hrooted :
      Spelled [rootName, "project".toList, "a[012]".toList] "\t/project//project/a[012]/ " :=
    .intro 1 1 (.before _ 1 (.before _ 0 (.last _))) (List.forall_mem_singleton.2 (by decide))
      (List.forall_mem_singleton.2 (by decide))
  have hopen : Spelled ["project".toList, "a[012]".toList] "project/a[012]" :=
    .intro 0 0 (.before _ 0 (.last _)) (List.forall_mem_nil _) (List.forall_mem_nil _)
  have hplain : Spelled ["project[0]".toList, "a[012]".toList] "//project[0]/a[012]" :=
    .intro 2 0 (.before _ 0 (.last _)) (List.forall_mem_nil _) (List.forall_mem_nil _)
  have hfits : List.Forall₂ Fits namesakes ["project".toList, "a[012]".toList] :=
    .cons (by decide) (.cons (by decide) .nil)
  have hfits' : List.Forall₂ Fits namesakes ["project[0]".toList, "a[012]".toList] :=
    .cons (by decide) (.cons (by decide) .nil)
  refine ⟨hbare, ((spellings_are_read hbare (by decide)).1 _ hrooted).2 hfits,
    fun h => ?_, hindexed,
    ((spellings_are_read hindexed (by decide)).2 _ hplain).2 ⟨by decide, hfits'⟩⟩
  exact (((spellings_are_read hbare (by decide)).2 _ hopen).1 h).1 rfl
end BuildAlign.PomPath
