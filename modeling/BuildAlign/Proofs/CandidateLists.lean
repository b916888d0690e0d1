import BuildAlign.DependencyCoordinates
import BuildAlign.Proofs.DelimitedPieces
import BuildAlign.Proofs.ListReading
import Mathlib.Data.List.DropRight

/-! # Lists of candidates

A list of candidates is cut at its commas and each of its parts at its colons.  A part stands for a
reference if it has three fields that are more than blanks.  The reference has these fields without
the blanks around them, and it makes no difference that the blanks around the whole part are taken
away first.  The list is read if all of its parts stand for references, and it names the first part
that does not. -/
namespace BuildAlign.BlankText

variable {cs ds : List Char}

/-- A text that is more than blanks. -/
def HasText (cs : List Char) : Prop := ∃ c ∈ cs, isBlank c = false

private theorem not_hasText_iff : ¬ HasText cs ↔ ∀ c ∈ cs, isBlank c = true := by simp [HasText]

theorem HasText.append_left {cs : List Char} (h : HasText cs) (ds : List Char) :
    HasText (ds ++ cs) :=
  h.imp fun _ hc => ⟨List.mem_append_right ds hc.1, hc.2⟩

private theorem HasText.append_right {cs : List Char} (h : HasText cs) (ds : List Char) :
    HasText (cs ++ ds) :=
  h.imp fun _ hc => ⟨List.mem_append_left ds hc.1, hc.2⟩

/-- Trimming takes blanks away at the beginning and at the end. -/
theorem exists_padding (cs : List Char) :
    ∃ front back, (∀ c ∈ front, isBlank c = true) ∧ (∀ c ∈ back, isBlank c = true) ∧
      cs = front ++ trim cs ++ back := by
  refine ⟨cs.takeWhile isBlank, (trimLeft cs).rtakeWhile isBlank,
    fun c hc => List.mem_takeWhile_imp hc,
    fun c hc => List.mem_rtakeWhile_imp hc, ?_⟩
  have hback : trim cs ++ (trimLeft cs).rtakeWhile isBlank = trimLeft cs :=
    List.rdropWhile_append_rtakeWhile ..
  rw [List.append_assoc, hback]
  exact List.takeWhile_append_dropWhile.symm

theorem trim_eq_nil_iff : trim cs = [] ↔ ¬ HasText cs := by
  rw [not_hasText_iff]
  constructor
  · intro h
    obtain ⟨front, back, hf, hb, he⟩ := exists_padding cs
    rw [h, List.append_nil] at he
    intro c hc
    rw [he] at hc
    exact (List.mem_append.1 hc).elim (hf c) (hb c)
  · intro h
    rw [trim, trimLeft_of_blank h]
    rfl

/-- A text without blanks at its ends. -/
structure Tight (cs : List Char) : Prop where
  head : ∀ c ∈ cs.head?, isBlank c = false
  last : ∀ c ∈ cs.getLast?, isBlank c = false

private theorem tight_iff :
    Tight cs ↔ (cs.head?.all (!isBlank ·) && cs.getLast?.all (!isBlank ·)) = true := by
  simp only [Bool.and_eq_true, Option.all_eq_true, Bool.not_eq_true']
  exact ⟨fun h => ⟨h.head, h.last⟩, fun h => ⟨h.1, h.2⟩⟩

instance (cs : List Char) : Decidable (Tight cs) := decidable_of_iff _ tight_iff.symm

theorem Tight.hasText (h : Tight cs) (hn : cs ≠ []) : HasText cs := by
  obtain ⟨c, rest, rfl⟩ := List.exists_cons_of_ne_nil hn
  exact ⟨c, List.mem_cons_self, h.head c rfl⟩

theorem Tight.trim_eq (h : Tight cs) : trim cs = cs := by
  have hlast : trimLeft cs.reverse = cs.reverse :=
    trimLeft_of_head fun c hc => h.last c (by simpa using hc)
  rw [trim, trimLeft_of_head h.head, trimRight, hlast, List.reverse_reverse]

private theorem not_blank_of_head?_trimLeft {c : Char} (h : (trimLeft cs).head? = some c) :
    isBlank c = false := by
  have hn := List.head?_dropWhile_not isBlank cs
  rw [trimLeft] at h
  rwa [h] at hn

private theorem tight_trim (cs : List Char) : Tight (trim cs) := by
  constructor
  · intro c hc
    obtain ⟨rest, hr⟩ : trim cs <+: trimLeft cs := List.rdropWhile_prefix isBlank (trimLeft cs)
    have hhead : (trimLeft cs).head? = some c := by
      rw [← hr, List.head?_append, hc]
      rfl
    exact not_blank_of_head?_trimLeft hhead
  · intro c hc
    have hlast : (trimLeft (trimLeft cs).reverse).head? = some c := by
      rw [← hc, trim, trimRight, List.getLast?_reverse]
    exact not_blank_of_head?_trimLeft hlast

private theorem mem_of_mem_trim {c : Char} (h : c ∈ trim cs) : c ∈ cs := by
  obtain ⟨front, back, -, -, he⟩ := exists_padding cs
  rw [he]
  exact List.mem_append_left _ (List.mem_append_right _ h)

/-- Pieces that end with a text lose the blanks around the text when they are trimmed themselves. -/
theorem map_trim_split (delimiter : Char) (hd : isBlank delimiter = false) (cs : List Char) :
    (DelimitedText.split delimiter (trim cs)).map trim =
      (DelimitedText.split delimiter cs).map trim := by
  have notMem : ∀ ds : List Char, (∀ d ∈ ds, isBlank d = true) → delimiter ∉ ds := by
    intro ds hds hm
    rw [hds delimiter hm] at hd
    cases hd
  obtain ⟨front, back, hf, hb, he⟩ := exists_padding cs
  obtain ⟨first, others, hs, hfront⟩ := DelimitedText.split_append_front (notMem front hf) (trim cs)
  obtain ⟨others', last, hs', hback⟩ :=
    DelimitedText.split_append_back (notMem back hb) (front ++ trim cs)
  calc (DelimitedText.split delimiter (trim cs)).map trim
      = ((front ++ first) :: others).map trim := by
        rw [hs, List.map_cons, List.map_cons, trim_of_blank_append hf]
    _ = (others' ++ [last]).map trim := by rw [← hfront, hs']
    _ = (others' ++ [last ++ back]).map trim := by
      rw [List.map_append, List.map_append, List.map_singleton, List.map_singleton,
        trim_append_of_blank last hb]
    _ = (DelimitedText.split delimiter cs).map trim := by rw [← hback, ← he]

end BuildAlign.BlankText

namespace BuildAlign.DependencyCoordinates
open BlankText DelimitedText

variable {raw part : List Char} {parts : List (List Char)} {references : List VersionReference}
  {reference : VersionReference}

/-- The fields between the colons, all of them more than blanks. -/
structure Fields (raw : List Char) (fields : List (List Char)) : Prop where
  cut : Pieces ':' raw fields
  stated : ∀ field ∈ fields, HasText field

/-- A text that stands for a reference. -/
def IsReference (raw : List Char) : Prop :=
  ∃ group artifact version, Fields raw [group, artifact, version]

/-- The reference that a text stands for. -/
inductive Written : List Char → VersionReference → Prop
  | intro {raw group artifact version : List Char}
    (fields : Fields raw [group, artifact, version]) :
    Written raw ⟨String.ofList (trim group), String.ofList (trim artifact),
      String.ofList (trim version)⟩

theorem isReference_iff : IsReference raw ↔ ∃ reference, Written raw reference := by
  constructor
  · rintro ⟨group, artifact, version, h⟩
    exact ⟨_, .intro h⟩
  · rintro ⟨_, ⟨h⟩⟩
    exact ⟨_, _, _, h⟩

theorem parts?_eq_some_iff {components : List String} :
    parts? raw = some components ↔
      ∃ fields, Fields raw fields ∧ components = fields.map (String.ofList ∘ trim) := by
  have hparts : parts? raw = if ((split ':' raw).map trim).any List.isEmpty then none
      else some (((split ':' raw).map trim).map String.ofList) := by
    rw [← map_trim_split ':' (by decide)]
    rfl
  have hstated : ((split ':' raw).map trim).any List.isEmpty = false ↔
      ∀ field ∈ split ':' raw, HasText field := by
    simp [trim_eq_nil_iff]
  rw [hparts]
  constructor
  · intro h
    split at h
    · cases h
    · next hn =>
      rw [Bool.not_eq_true, hstated] at hn
      refine ⟨split ':' raw, ⟨pieces_iff.2 rfl, hn⟩, ?_⟩
      rw [← List.map_map]
      exact (Option.some.inj h).symm
  · rintro ⟨fields, hf, rfl⟩
    have hcut := pieces_iff.1 hf.cut
    rw [if_neg (by rw [Bool.not_eq_true, hstated, hcut]; exact hf.stated), hcut, List.map_map]

theorem parseReference_eq_ok_iff :
    parseReference (String.ofList raw) = .ok reference ↔ Written raw reference := by
  unfold parseReference
  rw [String.toList_ofList]
  constructor
  · intro h
    split at h
    · next hp =>
      obtain ⟨fields, hf, he⟩ := parts?_eq_some_iff.1 hp
      have hthree : fields.length = 3 := by simpa using (congrArg List.length he).symm
      obtain ⟨group, artifact, version, rfl⟩ := List.length_eq_three.1 hthree
      cases he
      cases h
      exact .intro hf
    · cases h
  · rintro ⟨hf⟩
    rw [parts?_eq_some_iff.2 ⟨_, hf, rfl⟩]
    rfl

private theorem parseReference_eq_error_iff {e : CoordinateError} :
    parseReference (String.ofList raw) = .error e ↔
      ¬ IsReference raw ∧ e = ⟨String.ofList raw, .groupArtifactVersion⟩ := by
  have hfault : ∀ e, parseReference (String.ofList raw) = .error e →
      e = ⟨String.ofList raw, .groupArtifactVersion⟩ := by
    intro e h
    unfold parseReference at h
    split at h
    · cases h
    · cases h
      rfl
  rw [isReference_iff]
  simp only [← parseReference_eq_ok_iff]
  cases hp : parseReference (String.ofList raw) with
  | ok reference => simp
  | error e' => simp [hfault e' hp, eq_comm]

/-- A list is read part by part. -/
theorem parseList_of_hasText {text : String} (h : HasText text.toList)
    (hp : Pieces ',' text.toList parts) :
    parseList text = parts.mapM fun part => parseReference (String.ofList part) := by
  rw [parseList, if_neg fun hn => trim_eq_nil_iff.1 hn h, pieces_iff.1 hp]

section Components

/-- What may be a group, an artifact or a version: it shows its beginning and its end and none of
the delimiters. -/
structure IsComponent (s : String) : Prop where
  nonempty : s ≠ ""
  tight : Tight s.toList
  closed : ∀ c ∈ s.toList, c ≠ ',' ∧ c ≠ ':'

private theorem isComponent_of_chars {s : String}
    (h : s ≠ "" ∧ s.toList.all (fun c => !isBlank c && c ≠ ',' && c ≠ ':') = true) :
    IsComponent s := by
  obtain ⟨nonempty, hall⟩ := h
  have hchars : ∀ c ∈ s.toList, isBlank c = false ∧ c ≠ ',' ∧ c ≠ ':' := by
    simpa [List.all_eq_true, and_assoc] using hall
  have tight : Tight s.toList :=
    ⟨fun c hc => (hchars c (List.mem_of_head? hc)).1,
      fun c hc => (hchars c (List.mem_of_getLast? hc)).1⟩
  exact ⟨nonempty, tight, fun c hc => (hchars c hc).2⟩

structure HasComponents (reference : VersionReference) : Prop where
  group : IsComponent reference.group
  artifact : IsComponent reference.artifact
  version : IsComponent reference.version

/-- A reference as it is printed, with blanks around it. -/
def Padded (part : List Char) (reference : VersionReference) : Prop :=
  ∃ front back, (∀ c ∈ front, isBlank c = true) ∧ (∀ c ∈ back, isBlank c = true) ∧
    part = front ++ reference.text.toList ++ back

private theorem Fields.isComponent {fields : List (List Char)} {field : List Char}
    (h : Fields raw fields)
    (comma : ',' ∉ raw) (hm : field ∈ fields) : IsComponent (String.ofList (trim field)) := by
  refine ⟨?_, ?_, ?_⟩
  · intro he
    have hn : trim field = [] := by simpa using congrArg String.toList he
    exact trim_eq_nil_iff.1 hn (h.stated field hm)
  · rw [String.toList_ofList]
    exact tight_trim field
  · intro c hc
    rw [String.toList_ofList] at hc
    have hfield := mem_of_mem_trim hc
    constructor
    · rintro rfl
      exact comma (h.cut.mem hm hfield)
    · rintro rfl
      exact h.cut.closed field hm hfield

/-- What is read has components. -/
theorem Written.hasComponents (h : Written part reference) (comma : ',' ∉ part) :
    HasComponents reference := by
  obtain ⟨hf⟩ := h
  exact ⟨hf.isComponent comma (by simp), hf.isComponent comma (by simp),
    hf.isComponent comma (by simp)⟩

theorem IsComponent.hasText {s : String} (h : IsComponent s) : HasText s.toList :=
  h.tight.hasText (by simpa using h.nonempty)

theorem IsComponent.trim_eq {s : String} (h : IsComponent s) :
    String.ofList (trim s.toList) = s := by
  rw [h.tight.trim_eq, String.ofList_toList]

/-- What is printed is read again, whatever blanks are put around it. -/
theorem Padded.written (h : Padded part reference) (hc : HasComponents reference) :
    Written part reference := by
  obtain ⟨front, back, hf, hb, rfl⟩ := h
  have colon : ∀ cs : List Char, (∀ c ∈ cs, isBlank c = true) → ':' ∉ cs :=
    fun cs hcs hm => absurd (hcs _ hm) (by decide)
  have closed : ∀ {s : String}, IsComponent s → ':' ∉ s.toList :=
    fun hs hm => (hs.closed _ hm).2 rfl
  have fields : Fields (front ++ reference.text.toList ++ back)
      [front ++ reference.group.toList, reference.artifact.toList,
        reference.version.toList ++ back] := by
    refine ⟨⟨List.cons_ne_nil _ _, ?_, ?_⟩, ?_⟩
    · simp [colon front hf, colon back hb, closed hc.group, closed hc.artifact, closed hc.version]
    · simp [join, VersionReference.text, VersionReference.ga, coordinateKey]
    · rw [List.forall_mem_cons, List.forall_mem_cons, List.forall_mem_singleton]
      exact ⟨hc.group.hasText.append_left front, hc.artifact.hasText,
        hc.version.hasText.append_right back⟩
  have hwritten := Written.intro fields
  rwa [trim_of_blank_append hf, trim_append_of_blank _ hb, hc.group.trim_eq, hc.artifact.trim_eq,
    hc.version.trim_eq] at hwritten

theorem Padded.comma (h : Padded part reference) (hc : HasComponents reference) : ',' ∉ part := by
  obtain ⟨front, back, hf, hb, rfl⟩ := h
  have comma : ∀ cs : List Char, (∀ c ∈ cs, isBlank c = true) → ',' ∉ cs :=
    fun cs hcs hm => absurd (hcs _ hm) (by decide)
  have closed : ∀ {s : String}, IsComponent s → ',' ∉ s.toList :=
    fun hs hm => (hs.closed _ hm).1 rfl
  simp [comma front hf, comma back hb, closed hc.group, closed hc.artifact, closed hc.version,
    VersionReference.text,
    VersionReference.ga, coordinateKey]

/-- The parts of a list of printed references. -/
theorem pieces_of_padded (hn : parts ≠ []) (hp : List.Forall₂ Padded parts references)
    (hc : ∀ reference ∈ references, HasComponents reference) :
    Pieces ',' (join ',' parts) parts := by
  refine ⟨hn, fun part hm => ?_, rfl⟩
  obtain ⟨reference, hr, hpadded⟩ := ListReading.exists_right hp hm
  exact hpadded.comma (hc reference hr)

private theorem written_of_padded (hp : List.Forall₂ Padded parts references)
    (hc : ∀ reference ∈ references, HasComponents reference) :
    List.Forall₂ Written parts references := by
  induction hp with
  | nil => exact .nil
  | cons h _ ih =>
    rw [List.forall_mem_cons] at hc
    exact .cons (h.written hc.1) (ih hc.2)

theorem Written.hasText (h : Written part reference) : HasText part := by
  obtain ⟨hf⟩ := h
  obtain ⟨c, hc, hb⟩ := hf.stated _ List.mem_cons_self
  exact ⟨c, hf.cut.mem List.mem_cons_self hc, hb⟩

end Components

/-- A text that is more than blanks is read as a list of candidates if each of its parts between
commas has three fields between colons that are more than blanks.  What is read are these fields
without the blanks around them, in order, so the components are not empty, have no blanks around
them and hold no delimiter.  Otherwise the first part that is not of this form is reported as it is
written.  Any references with such components are read from the text in which they are printed with
commas between them, and with any blanks around them. -/
theorem candidate_lists_are_read_exactly :
    (∀ text : String, HasText text.toList →
      ∃ parts, Pieces ',' text.toList parts ∧
        ((∃ references, parseList text = .ok references) ↔ ∀ part ∈ parts, IsReference part) ∧
        (∀ references, parseList text = .ok references →
          List.Forall₂ Written parts references ∧
            ∀ reference ∈ references, HasComponents reference) ∧
        ∀ e, parseList text = .error e →
          ∃ before part after, parts = before ++ part :: after ∧
            (∀ other ∈ before, IsReference other) ∧
            ¬ IsReference part ∧ e = ⟨String.ofList part, .groupArtifactVersion⟩) ∧
    ∀ parts references, List.Forall₂ Padded parts references →
      (∀ reference ∈ references, HasComponents reference) →
      parseList (String.ofList (join ',' parts)) = .ok references := by
  constructor
  · intro text h
    have hp := pieces_iff.2 (rfl : split ',' text.toList = _)
    have hread := parseList_of_hasText h hp
    refine ⟨_, hp, ?_, fun references hr => ?_, fun e he => ?_⟩
    · rw [hread, ListReading.mapM_succeeds_iff]
      exact forall₂_congr fun part _ => by simp only [parseReference_eq_ok_iff, isReference_iff]
    · rw [hread, ListReading.mapM_eq_ok_iff] at hr
      have hwritten := hr.imp fun _ _ => parseReference_eq_ok_iff.1
      refine ⟨hwritten, fun reference hm => ?_⟩
      obtain ⟨i, hi, rfl⟩ := List.mem_iff_getElem.1 hm
      have hj := hwritten.length_eq ▸ hi
      exact (hwritten.get hj hi).hasComponents (hp.closed _ (List.getElem_mem hj))
    · rw [hread, ListReading.mapM_eq_error_iff] at he
      obtain ⟨before, part, after, hparts, hb, hpart⟩ := he
      obtain ⟨hn, rfl⟩ := parseReference_eq_error_iff.1 hpart
      refine ⟨before, part, after, hparts, fun other hm => ?_, hn, rfl⟩
      obtain ⟨reference, hr⟩ := hb other hm
      exact isReference_iff.2 ⟨reference, parseReference_eq_ok_iff.1 hr⟩
  · intro parts references hp hc
    cases hp with
    | nil => decide
    | @cons first reference others later h hlater =>
      have hall := List.Forall₂.cons h hlater
      have hwritten := written_of_padded hall hc
      have hparts :
          Pieces ',' (String.ofList (join ',' (first :: others))).toList (first :: others) := by
        rw [String.toList_ofList]
        exact pieces_of_padded (List.cons_ne_nil _ _) hall hc
      have htext : HasText (String.ofList (join ',' (first :: others))).toList := by
        obtain ⟨c, hm, hb⟩ := (h.written (hc _ List.mem_cons_self)).hasText
        exact ⟨c, hparts.mem List.mem_cons_self hm, hb⟩
      rw [parseList_of_hasText htext hparts, ListReading.mapM_eq_ok_iff]
      exact hwritten.imp fun _ _ => parseReference_eq_ok_iff.2

def repeatedReference : VersionReference := ⟨"g", "a", "1.0"⟩

theorem candidate_lists_are_read_exactly_spaced :
    HasText " g : a:1.0 ,g:a:1.0,h: :2,x".toList ∧
    parseList " g : a:1.0 ,g:a:1.0,h: :2,x" = .error ⟨"h: :2", .groupArtifactVersion⟩ ∧
    (∃ before part after,
      Pieces ',' " g : a:1.0 ,g:a:1.0,h: :2,x".toList (before ++ part :: after) ∧
      (∀ other ∈ before, IsReference other) ∧ ¬ IsReference part ∧ "h: :2" = String.ofList part) ∧
    List.Forall₂ Padded [" g:a:1.0\t".toList, "g:a:1.0".toList]
      [repeatedReference, repeatedReference] ∧
    HasComponents repeatedReference ∧
    parseList (String.ofList (join ',' [" g:a:1.0\t".toList, "g:a:1.0".toList])) =
      .ok [repeatedReference, repeatedReference] := by
  have htext : HasText " g : a:1.0 ,g:a:1.0,h: :2,x".toList := ⟨'g', by decide, by decide⟩
  have hfails : parseList " g : a:1.0 ,g:a:1.0,h: :2,x" =
    .error ⟨"h: :2", .groupArtifactVersion⟩ := by decide +kernel
  have hpadded : List.Forall₂ Padded [" g:a:1.0\t".toList, "g:a:1.0".toList]
      [repeatedReference, repeatedReference] :=
    .cons ⟨[' '], ['\t'], List.forall_mem_singleton.2 (by decide),
      List.forall_mem_singleton.2 (by decide), by decide⟩
      (.cons ⟨[], [], List.forall_mem_nil _, List.forall_mem_nil _, by decide⟩ .nil)
  have hcomponents : HasComponents repeatedReference :=
    ⟨isComponent_of_chars (by decide), isComponent_of_chars (by decide),
      isComponent_of_chars (by decide)⟩
  obtain ⟨hreads, hreadsBack⟩ := candidate_lists_are_read_exactly
  obtain ⟨parts, hcut, -, -, hblames⟩ := hreads _ htext
  obtain ⟨before, part, after, rfl, hbefore, hpart, he⟩ := hblames _ hfails
  exact ⟨htext, hfails,
    ⟨before, part, after, hcut, hbefore, hpart, congrArg CoordinateError.coordinate he⟩, hpadded,
    hcomponents, hreadsBack _ _ hpadded (by simpa using hcomponents)⟩

end BuildAlign.DependencyCoordinates
