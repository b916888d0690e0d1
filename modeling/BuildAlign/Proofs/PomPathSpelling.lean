import BuildAlign.PomPath
import BuildAlign.XmlCharacters
import BuildAlign.Proofs.DelimitedPieces
import BuildAlign.Proofs.EditLocations
import BuildAlign.Proofs.ListReading
import Mathlib.Data.List.TakeWhile

/-! # How the paths of edits are read

Names of elements hold nothing that means something in a path.  The paths that alignment writes are
therefore read as the steps they are made of. -/
namespace BuildAlign.CharacterRanges

/-- Tables that no code point is in both of. -/
def Disjoint (table table' : Table) : Prop :=
  ∀ range ∈ table, ∀ range' ∈ table', range.2 < range'.1 ∨ range'.2 < range.1

instance (table table' : Table) : Decidable (Disjoint table table') := by
  unfold Disjoint; infer_instance

private theorem Disjoint.covers_eq_false {table table' : Table}
    (h : Disjoint table table') {c : Char}
    (hc : covers table c = true) : covers table' c = false := by
  simp only [covers, List.any_eq_true, List.any_eq_false, Bool.and_eq_true,
    decide_eq_true_eq] at hc ⊢
  obtain ⟨range, hr, hl, hu⟩ := hc
  intro range' hr' hc'
  have hd := h range hr range' hr'
  omega

end BuildAlign.CharacterRanges

namespace BuildAlign.PomPath
open DelimitedText CharacterRanges XmlCharacters

section Names

/-- Whether a character stands for itself in the name of a step. -/
def isPlain (c : Char) : Bool := c ≠ '/' && !isBracket c && c ≠ '\x7d' && !BlankText.isBlank c

/-- A name that may stand in a path. -/
structure PlainName (name : String) : Prop where
  nonempty : name ≠ ""
  plain : ∀ c ∈ name.toList, isPlain c = true

private theorem letters_disjoint_blanks : Disjoint letters BlankText.blanks := by decide +kernel
private theorem marks_disjoint_blanks : Disjoint marks BlankText.blanks := by decide +kernel

private theorem hyphen_le_of_isNameChar {a : Alphabet} {c : Char} (hc : c.toNat < 0x80)
    (h : isNameChar a c = true) : '-'.toNat ≤ c.toNat := by
  have hle : ∀ {c' : Char}, c' ≤ c → '-'.toNat ≤ c'.toNat → '-'.toNat ≤ c.toNat :=
    fun h h' => Nat.le_trans h' h
  simp only [isNameChar, isNameStart, hc, if_true, isAsciiLetter, isAsciiDigit, Bool.or_eq_true,
    Bool.and_eq_true, decide_eq_true_eq] at h
  rcases h with ((⟨h, -⟩ | ⟨h, -⟩) | rfl) | (⟨h, -⟩ | h) | h
  · exact hle h (by decide)
  · exact hle h (by decide)
  · decide
  · exact hle h (by decide)
  · rw [h]
  · rw [h]; decide

theorem isBlank_of_isNameChar {a : Alphabet} {c : Char} (h : isNameChar a c = true) :
    BlankText.isBlank c = false := by
  by_cases hc : c.toNat < 0x80
  · have hl := hyphen_le_of_isNameChar hc h
    have hd : Disjoint [('-'.toNat, 0x7F)] BlankText.blanks := by decide
    refine hd.covers_eq_false ?_
    simp only [covers, List.any_cons, List.any_nil, Bool.or_false,
      Bool.and_eq_true, decide_eq_true_eq]
    omega
  · simp only [isNameChar, isNameStart, hc, if_false, Bool.or_eq_true] at h
    have hf : (furtherLetters a).all (!BlankText.isBlank ·) = true := by
      cases a <;> decide
    rcases h with (hl | hm) | hm
    · exact letters_disjoint_blanks.covers_eq_false hl
    · have hb := List.all_eq_true.1 hf c (by simpa using hm)
      simpa using hb
    · exact marks_disjoint_blanks.covers_eq_false hm

/-- Names of elements may stand in paths. -/
theorem isPlain_of_isNameChar {a : Alphabet} {c : Char} (h : isNameChar a c = true) :
    isPlain c = true := by
  have hn : ∀ c' : Char, isNameChar a c' = false → c ≠ c' := fun c' h' he => by simp [he, h'] at h
  have hs := hn '/' (by cases a <;> decide)
  have ho := hn '[' (by cases a <;> decide)
  have hc := hn ']' (by cases a <;> decide)
  have hb := hn '\x7d' (by cases a <;> decide)
  simp [isPlain, isBracket, hs, ho, hc, hb, isBlank_of_isNameChar h]

end Names

section Steps

/-- A step with its index, as it stands in the locations of dependencies. -/
def indexed (name : String) (i : Nat) : List Char :=
  name.toList ++ '[' :: Nat.toDigits 10 i ++ [']']

/-- What can be told to be a name where a step begins with it. -/
structure StepName (name : String) : Prop where
  nonempty : name ≠ ""
  closed : ∀ c ∈ name.toList, c ≠ '/' ∧ isBracket c = false ∧ BlankText.isBlank c = false

variable {name : String}

theorem stepName_of_chars
    (h : name ≠ "" ∧
      name.toList.all (fun c => c ≠ '/' && !isBracket c && !BlankText.isBlank c) = true) :
    StepName name := by
  refine ⟨h.1, fun c hc => ?_⟩
  simpa [and_assoc] using List.all_eq_true.1 h.2 c hc

private theorem PlainName.stepName (h : PlainName name) : StepName name := by
  refine ⟨h.nonempty, fun c hc => ?_⟩
  have hp := h.plain c hc
  simp only [isPlain, Bool.and_eq_true, decide_eq_true_eq, Bool.not_eq_true'] at hp
  exact ⟨hp.1.1.1, hp.1.1.2, hp.2⟩

private theorem indexDigits?_digits {digits : List Char} (hn : digits ≠ [])
    (hd : ∀ c ∈ digits, DecimalDigits.isDecimal c = true) :
    indexDigits? (digits ++ [']']) = some digits := by
  have hb : DecimalDigits.isDecimal ']' = false := by decide
  simp only [indexDigits?, List.takeWhile_append_of_pos hd, List.dropWhile_append_of_pos hd]
  simp [hb, hn]

private theorem StepName.isBracket_eq (h : StepName name) :
    ∀ c ∈ name.toList, (!isBracket c) = true :=
  fun c hc => by rw [(h.closed c hc).2.1, Bool.not_false]

theorem StepName.toList_ne_nil (h : StepName name) : name.toList ≠ [] := by
  simpa using h.nonempty

theorem step_name (h : StepName name) : step name.toList = .ok ⟨name, 0⟩ := by
  have ht : name.toList.takeWhile (!isBracket ·) = name.toList :=
    List.takeWhile_eq_self_iff.2 h.isBracket_eq
  have hd : name.toList.dropWhile (!isBracket ·) = [] := List.dropWhile_eq_nil_iff.2 h.isBracket_eq
  simp only [step, stepParts?, ht, hd, if_neg h.toList_ne_nil, String.ofList_toList]

/-- A name with digits in brackets behind it. -/
def bracketed (name : String) (digits : List Char) : List Char :=
  name.toList ++ '[' :: digits ++ [']']

/-- The digits in brackets behind a name are read as a number. -/
theorem step_bracketed (h : StepName name) {digits : List Char} (hn : digits ≠ [])
    (hd : ∀ c ∈ digits, DecimalDigits.isDecimal c = true) :
    step (bracketed name digits) =
      match DecimalDigits.number? digits with
      | none => .error (.noNumber (String.ofList digits))
      | some i => .ok ⟨name, i⟩ := by
  have hb : isBracket '[' = true := rfl
  have hparts : stepParts? (bracketed name digits) = some (name.toList, some digits) := by
    simp only [stepParts?, bracketed, List.append_assoc,
      List.takeWhile_append_of_pos h.isBracket_eq,
      List.dropWhile_append_of_pos h.isBracket_eq]
    simp [hb, h.nonempty, indexDigits?_digits hn hd]
  rw [step, hparts]
  cases hv : DecimalDigits.number? digits <;> simp [hv]

/-- A text that stands between slashes as it is. -/
structure StepText (text : List Char) : Prop where
  nonempty : text ≠ []
  closed : ∀ c ∈ text, c ≠ '/' ∧ BlankText.isBlank c = false

/-- A text that is read as the step when it stands between slashes. -/
structure Spells (text : List Char) (step : PomStep) : Prop extends StepText text where
  read : PomPath.step text = .ok step

theorem StepName.stepText (h : StepName name) : StepText name.toList :=
  ⟨h.toList_ne_nil, fun c hc => ⟨(h.closed c hc).1, (h.closed c hc).2.2⟩⟩

theorem spells_name (h : StepName name) : Spells name.toList ⟨name, 0⟩ := ⟨h.stepText, step_name h⟩

private theorem closed_of_isDigit {c : Char} (h : c.isDigit = true) :
    c ≠ '/' ∧ BlankText.isBlank c = false := by
  have hb : '0'.toNat ≤ c.toNat ∧ c.toNat ≤ '9'.toNat := by
    simp only [Char.isDigit, Bool.and_eq_true, decide_eq_true_eq] at h
    exact h
  have hd : Disjoint [('0'.toNat, '9'.toNat)] BlankText.blanks := by decide
  refine ⟨?_, hd.covers_eq_false (by simpa [covers] using hb)⟩
  rintro rfl
  exact absurd hb (by decide)

private theorem closed_of_mem_padded {zeros i : Nat} {c : Char}
    (h : c ∈ DecimalDigits.padded zeros i) :
    c ≠ '/' ∧ BlankText.isBlank c = false := by
  rcases List.mem_append.1 h with h | h
  · rw [List.eq_of_mem_replicate h]
    decide
  · exact closed_of_isDigit (Nat.isDigit_of_mem_toDigits (by decide) (by decide) h)

theorem StepName.stepText_bracketed (h : StepName name) (zeros i : Nat) :
    StepText (bracketed name (DecimalDigits.padded zeros i)) := by
  refine ⟨by simp [bracketed], fun c hc => ?_⟩
  simp only [bracketed, List.append_assoc, List.mem_append, List.mem_cons, List.cons_append,
    List.not_mem_nil, or_false] at hc
  rcases hc with hc | rfl | hc | rfl
  · exact h.stepText.closed c hc
  · decide
  · exact closed_of_mem_padded hc
  · decide

/-- Zeros may stand in front of an index, as long as its digits are not too many. -/
theorem step_padded (h : StepName name) (zeros i : Nat) :
    step (bracketed name (DecimalDigits.padded zeros i)) = .ok ⟨name, i⟩ ↔
      (DecimalDigits.padded zeros i).length ≤ DecimalDigits.longest := by
  rw [step_bracketed h (DecimalDigits.padded_ne_nil zeros i) fun c hc =>
    DecimalDigits.isDecimal_of_mem_padded hc]
  constructor
  · intro hread
    by_contra hlong
    rw [DecimalDigits.number?_of_longer (Nat.lt_of_not_le hlong)] at hread
    cases hread
  · intro hshort
    rw [DecimalDigits.number?_of_length hshort, DecimalDigits.value?_padded]

private theorem spells_indexed (h : StepName name) {i : Nat} (hi : DecimalDigits.Short i) :
    Spells (indexed name i) ⟨name, i⟩ :=
  ⟨h.stepText_bracketed 0 i, (step_padded h 0 i).2 hi⟩

/-- The texts between the slashes, the empty ones left out. -/
def filled (cs : List Char) : List (List Char) := (split '/' cs).filter (· ≠ [])

theorem filled_append_slash (cs ds : List Char) :
    filled (cs ++ '/' :: ds) = filled cs ++ filled ds := by
  rw [filled, split_append_delimiter, List.filter_append, filled, filled]

theorem filled_of_closed {text : List Char} (hn : text ≠ []) (hc : '/' ∉ text) :
    filled text = [text] := by
  simp [filled, split_of_notMem hc, hn]

theorem stepTexts_eq (path : String) : stepTexts path =
    if (filled (BlankText.trim path.toList)).head? =
      some rootName then (filled (BlankText.trim path.toList)).tail
    else filled (BlankText.trim path.toList) := by
  rw [stepTexts, ← filled]
  cases filled (BlankText.trim path.toList) with
  | nil => rfl
  | cons text texts => simp

/-- A path is read as the steps that its texts spell. -/
theorem parse_of_stepTexts {path : String} {steps : List PomStep}
    (hs : List.Forall₂ Spells (stepTexts path) steps)
    (hn : steps ≠ []) : parse path = .ok steps := by
  rw [parse]
  cases ht : stepTexts path with
  | nil =>
    rw [ht, List.forall₂_nil_left_iff] at hs
    exact absurd hs hn
  | cons text texts =>
    rw [ht] at hs
    exact ListReading.mapM_eq_ok_iff.2 (hs.imp fun _ _ h => by rw [h.read]; rfl)

private theorem stepTexts_join {path : String} {text : List Char} {texts : List (List Char)}
    (hp : path.toList = join '/' (text :: texts)) (hr : text ≠ rootName)
    (hn : ∀ t ∈ text :: texts, t ≠ [])
    (hc : ∀ t ∈ text :: texts, ∀ c ∈ t, c ≠ '/' ∧ BlankText.isBlank c = false) :
    stepTexts path = text :: texts := by
  have hb : ∀ c ∈ join '/' (text :: texts), BlankText.isBlank c = false := by
    intro c hm
    obtain rfl | ⟨t, ht, hm⟩ := mem_join hm
    · decide
    · exact (hc t ht c hm).2
  have hs : split '/' (join '/' (text :: texts)) = text :: texts :=
    split_join (by simp) fun t ht hm => (hc t ht _ hm).1 rfl
  have hf : filled (BlankText.trim path.toList) = text :: texts := by
    rw [hp, BlankText.trim_of_not_blank hb, filled, hs]
    exact List.filter_eq_self.2 fun t ht => by simp [hn t ht]
  simp [stepTexts_eq, hf, hr]

/-- A path is read as the steps that the texts between its slashes spell. -/
theorem parse_join {path : String} (text : List Char) (texts : List (List Char))
    {steps : List PomStep}
    (hp : path.toList = join '/' (text :: texts)) (hr : text ≠ rootName)
    (hs : List.Forall₂ Spells (text :: texts) steps) : parse path = .ok steps := by
  have hm : ∀ t ∈ text :: texts, ∃ step ∈ steps, Spells t step :=
    fun t => ListReading.exists_right hs
  have ht : stepTexts path = text :: texts :=
    stepTexts_join hp hr (fun t h => (hm t h).elim fun _ h => h.2.nonempty)
      fun t h => (hm t h).elim fun _ h => h.2.closed
  refine parse_of_stepTexts (ht ▸ hs) ?_
  rintro rfl
  cases hs

end Steps

section Edits
open ModuleAlignment PomModule

theorem plainName_of_chars {name : String} (h : name ≠ "" ∧ name.toList.all isPlain = true) :
    PlainName name :=
  ⟨h.1, fun c hc => List.all_eq_true.1 h.2 c hc⟩

theorem parse_propertyPath {name : String} (h : PlainName name) :
    parse (propertyPath name) = .ok [⟨"properties", 0⟩, ⟨name, 0⟩] := by
  have hsection : PlainName "properties" := plainName_of_chars (by decide)
  have hp : (propertyPath name).toList = join '/' ["properties".toList, name.toList] := by
    simp [propertyPath, join]
  apply parse_join _ _ hp (by decide)
  exact .cons (spells_name hsection.stepName) (.cons (spells_name h.stepName) .nil)

/-- The steps through a section of dependencies to one of them, and on from there. -/
theorem spells_dependency {i : Nat} (hi : DecimalDigits.Short i) {texts : List (List Char)}
    {steps : List PomStep}
    (h : List.Forall₂ Spells texts steps) :
    List.Forall₂ Spells ("dependencies".toList :: indexed "dependency" i :: texts)
      (⟨"dependencies", 0⟩ :: ⟨"dependency", i⟩ :: steps) := by
  have hsection : PlainName "dependencies" := plainName_of_chars (by decide)
  have helement : PlainName "dependency" := plainName_of_chars (by decide)
  exact .cons (spells_name hsection.stepName) (.cons (spells_indexed helement.stepName hi) h)

private theorem spells_management {texts : List (List Char)} {steps : List PomStep}
    (h : List.Forall₂ Spells texts steps) :
    List.Forall₂ Spells ("dependencyManagement".toList :: texts)
      (⟨"dependencyManagement", 0⟩ :: steps) := by
  have hmanagement : PlainName "dependencyManagement" := plainName_of_chars (by decide)
  exact .cons (spells_name hmanagement.stepName) h

private theorem spells_version : List.Forall₂ Spells ["version".toList] [⟨"version", 0⟩] := by
  have hversion : PlainName "version" := plainName_of_chars (by decide)
  exact .cons (spells_name hversion.stepName) .nil

theorem parse_directLocation {i : Nat} (hi : DecimalDigits.Short i) :
    parse (locationIn directPath i) = .ok [⟨"dependencies", 0⟩, ⟨"dependency", i⟩] := by
  have hp : (locationIn directPath i).toList =
      join '/' ["dependencies".toList, indexed "dependency" i] := by
    simp [locationIn, directPath, indexed, join]
  apply parse_join _ _ hp (by decide)
  exact spells_dependency hi .nil

theorem parse_managedLocation {i : Nat} (hi : DecimalDigits.Short i) :
    parse (locationIn managedPath i) =
    .ok [⟨"dependencyManagement", 0⟩, ⟨"dependencies", 0⟩, ⟨"dependency", i⟩] := by
  have hp : (locationIn managedPath i).toList =
      join '/' ["dependencyManagement".toList, "dependencies".toList, indexed "dependency" i] := by
    simp [locationIn, managedPath, indexed, join]
  apply parse_join _ _ hp (by decide)
  exact spells_management (spells_dependency hi .nil)

theorem parse_directPath {i : Nat} (hi : DecimalDigits.Short i) :
    parse (locationIn directPath i ++ "/version") =
    .ok [⟨"dependencies", 0⟩, ⟨"dependency", i⟩, ⟨"version", 0⟩] := by
  have hp : (locationIn directPath i ++ "/version").toList =
      join '/' ["dependencies".toList, indexed "dependency" i, "version".toList] := by
    simp [locationIn, directPath, indexed, join]
  apply parse_join _ _ hp (by decide)
  exact spells_dependency hi spells_version

theorem parse_managedPath {i : Nat} (hi : DecimalDigits.Short i) :
    parse (locationIn managedPath i ++ "/version") =
    .ok [⟨"dependencyManagement", 0⟩, ⟨"dependencies", 0⟩, ⟨"dependency", i⟩, ⟨"version", 0⟩] := by
  have hp : (locationIn managedPath i ++ "/version").toList =
      join '/' ["dependencyManagement".toList, "dependencies".toList, indexed "dependency" i,
        "version".toList] := by
    simp [locationIn, managedPath, indexed, join]
  apply parse_join _ _ hp (by decide)
  exact spells_management (spells_dependency hi spells_version)

end Edits

section Names

private theorem name_ne_empty {cs : List Char} {found : PomStep} (h : step cs = .ok found) :
    found.name ≠ "" := by
  have hparts : ∀ name digits, stepParts? cs = some (name, digits) → String.ofList name ≠ "" := by
    intro name digits hp
    simp only [stepParts?] at hp
    split at hp
    · cases hp
    · next hn =>
      split at hp
      · cases hp
        simpa using hn
      · obtain ⟨found, -, he⟩ := Option.map_eq_some_iff.1 hp
        cases he
        simpa using hn
      · cases hp
  unfold step at h
  split at h
  · cases h
  · next name hp =>
    cases h
    exact hparts name none hp
  · next name digits hp =>
    split at h
    · cases h
    · cases h
      exact hparts name (some digits) hp

/-- Every step of a path has a name. -/
theorem names_of_parse {path : String} {steps : List PomStep} (h : parse path = .ok steps) :
    ∀ step ∈ steps, step.name ≠ "" := by
  intro found hm
  unfold parse at h
  split at h
  · cases h
  · obtain ⟨text, -, hr⟩ := ListReading.exists_of_mapM h hm
    cases hs : step text with
    | error defect => rw [hs] at hr; cases hr
    | ok found =>
      rw [hs] at hr
      cases hr
      exact name_ne_empty hs

end Names

end BuildAlign.PomPath
