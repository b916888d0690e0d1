import BuildAlign.Proofs.KeyedMerges
import BuildAlign.Proofs.PropertyLines
import Mathlib.Data.List.DropRight

/-! # Properties that go on over several lines

A value may be cut into pieces that stand on lines of their own.  A backslash behind a piece asks
for the next line, and blanks in front of a piece do not belong to it.  Between the properties of a
file there may be blank lines and comments.  However properties are written by these rules, just
these properties are read. -/
namespace BuildAlign.BuildProperties
open BlankText

section Rules

/-- What may end a line: any line ends, or nothing. -/
def LineEnding (cs : List Char) : Prop := ∀ c ∈ cs, isLineEnd c = true

def Blank (cs : List Char) : Prop := ∀ c ∈ cs, isBlank c = true

/-- A key in which nothing ends it, and which makes no comment of its line. -/
structure LineKey (key : List Char) : Prop where
  nonempty : key ≠ []
  plain : ∀ c ∈ key, isKeyEnd c = false
  stated : ∀ c ∈ key.head?, c ≠ '#' ∧ c ≠ '!'

/-- A value, what the first of its lines has of it, and the other lines, which may be indented. -/
inductive Pieces : List Char → List Char → List (List Char) → Prop
  | last {piece ending : List Char} (h : PlainValue piece) (he : LineEnding ending) :
    Pieces piece (piece ++ ending) []
  | more {piece ending indent value first : List Char} {others : List (List Char)}
    (h : PlainValue piece)
    (he : LineEnding ending) (hi : Blank indent) (later : Pieces value first others) :
    Pieces (piece ++ value) (piece ++ '\\' :: ending) ((indent ++ first) :: others)

/-- Properties and the lines that they are written in. -/
inductive Written : List (String × String) → List (List Char) → Prop
  | done : Written [] []
  | blank {entries : List (String × String)} {line : List Char}
    {lines : List (List Char)} (h : Blank line)
    (later : Written entries lines) : Written entries (line :: lines)
  | comment {entries : List (String × String)} {indent text : List Char} {mark : Char}
    {lines : List (List Char)}
    (hi : Blank indent) (hm : mark = '#' ∨ mark = '!') (later : Written entries lines) :
    Written entries ((indent ++ mark :: text) :: lines)
  | property {entries : List (String × String)} {indent key value first : List Char} {sign : Char}
    {others lines : List (List Char)} (hi : Blank indent) (hk : LineKey key)
      (hs : sign = '=' ∨ sign = ':')
    (hv : Pieces value first others) (later : Written entries lines) :
    Written ((String.ofList key, String.ofList value) :: entries)
      ((indent ++ key ++ sign :: first) :: (others ++ lines))

end Rules

variable {line start rest raw indent value first : List Char} {others : List (List Char)} {c : Char}

section Trimming

private theorem chomp_eq_nil_iff : chomp line = [] ↔ LineEnding line := List.rdropWhile_eq_nil_iff

private theorem blank_chomp (h : Blank line) : Blank (chomp line) := fun c hc =>
  h c ((List.rdropWhile_prefix isLineEnd line).subset hc)

private theorem chomp_append_ending (h : LineEnding rest) (line : List Char) :
    chomp (line ++ rest) = chomp line := by
  have hr : ∀ c ∈ rest.reverse, isLineEnd c = true := fun c hc => h c (List.mem_reverse.1 hc)
  rw [chomp, List.reverse_append, List.dropWhile_append_of_pos hr, chomp]

private theorem chomp_append (h : chomp rest ≠ []) (start : List Char) :
    chomp (start ++ rest) = start ++ chomp rest := by
  rw [chomp, List.reverse_append, List.dropWhile_append]
  split
  · next he => exact absurd (congrArg List.reverse (List.isEmpty_iff.1 he)) h
  · rw [List.reverse_append, List.reverse_reverse, chomp]

private theorem chomp_cons (h : isLineEnd c = false) (rest : List Char) :
    chomp (c :: rest) = c :: chomp rest := by
  by_cases hr : chomp rest = []
  · have he := chomp_eq_nil_iff.1 hr
    have hc := chomp_of_unbroken (List.forall_mem_singleton.2 h)
    rw [hr, ← List.singleton_append, chomp_append_ending he, hc]
  · exact chomp_append hr [c]

/-- What goes on with a line is taken without its indent and its end. -/
theorem trimLeft_chomp_append (hi : Blank indent)
    (hf : ∀ c ∈ (chomp first).head?, isBlank c = false) :
    trimLeft (chomp (indent ++ first)) = chomp first := by
  by_cases hn : chomp first = []
  · have he := chomp_eq_nil_iff.1 hn
    rw [chomp_append_ending he, hn, trimLeft_of_blank (blank_chomp hi)]
  · rw [chomp_append hn, trimLeft_append hi, trimLeft_of_head hf]

end Trimming

section Reading

/-- What is read from a line that has been put together and from the lines behind it. -/
def readOn (line : List Char) (lines : List (List Char)) : List (List Char) :=
  if continues line then logicalLines line.dropLast lines else line :: logicalLines [] lines

variable {lines : List (List Char)}

theorem logicalLines_comment (h : isComment (chomp raw) = true) (lines : List (List Char)) :
    logicalLines [] (raw :: lines) = logicalLines [] lines := by
  simp [logicalLines, h]

theorem logicalLines_first (h : isComment (chomp raw) = false) (lines : List (List Char)) :
    logicalLines [] (raw :: lines) = readOn (chomp raw) lines := by
  simp [logicalLines, h, readOn]

theorem logicalLines_later (h : start ≠ []) (raw : List Char) (lines : List (List Char)) :
    logicalLines start (raw :: lines) = readOn (start ++ trimLeft (chomp raw)) lines := by
  simp [logicalLines, h, readOn]

private theorem readOn_closed (h : continues line = false) (lines : List (List Char)) :
    readOn line lines = line :: logicalLines [] lines := by
  simp [readOn, h]

private theorem readOn_open (h : continues line = false) (lines : List (List Char)) :
    readOn (line ++ ['\\']) lines = logicalLines line lines := by
  have hc : continues (line ++ ['\\']) = true := continues_append h _
  rw [readOn, if_pos hc, List.dropLast_concat]

/-- The backslash that asks for the next line is no part of the pair before it. -/
theorem continues_dropLast (h : continues line = true) : continues line.dropLast = false := by
  have hodd : trailingBackslashes line % 2 = 1 := of_decide_eq_true h
  obtain rfl | ⟨front, c, rfl⟩ := line.eq_nil_or_concat'
  · rfl
  · by_cases hc : c = '\\'
    · have ht : trailingBackslashes (front ++ [c]) = trailingBackslashes front + 1 := by
        simp [trailingBackslashes, hc]
      rw [List.dropLast_concat, continues, decide_eq_false_iff_not]
      omega
    · have ht : trailingBackslashes (front ++ [c]) = 0 := by simp [trailingBackslashes, hc]
      omega

/-- An empty line at the end makes no difference. -/
theorem logicalLines_append_empty (h : continues start = false) (lines : List (List Char)) :
    logicalLines start (lines ++ [[]]) = logicalLines start lines := by
  have hread : ∀ line lines, (∀ {start}, continues start = false →
      logicalLines start (lines ++ [[]]) = logicalLines start lines) →
      readOn line (lines ++ [[]]) = readOn line lines := by
    intro line lines ih
    unfold readOn
    split
    · next hc => exact ih (continues_dropLast hc)
    · rw [ih rfl]
  induction lines generalizing start with
  | nil =>
    by_cases hs : start = []
    · rw [hs]
      rfl
    · have hempty : start ++ trimLeft (chomp []) = start := List.append_nil start
      rw [List.nil_append, logicalLines_later hs, hempty, readOn_closed h]
      simp [logicalLines, hs]
  | cons raw lines ih =>
    rw [List.cons_append]
    by_cases hs : start = []
    · rw [hs]
      cases hc : isComment (chomp raw) with
      | true => rw [logicalLines_comment hc, logicalLines_comment hc, ih rfl]
      | false => rw [logicalLines_first hc, logicalLines_first hc, hread _ _ ih]
    · rw [logicalLines_later hs, logicalLines_later hs, hread _ _ ih]

end Reading

section Properties

variable {key piece ending : List Char} {lines : List (List Char)} {sign : Char}
  {entries : List (String × String)}

private theorem PlainValue.continues_eq (h : PlainValue piece) : continues piece = false := by
  rw [continues, h.ends]
  rfl

private theorem PlainValue.chomp_last (h : PlainValue piece) (he : LineEnding ending) :
    chomp (piece ++ ending) = piece := by
  rw [chomp_append_ending he, chomp_of_unbroken h.unbroken]

private theorem chomp_more (he : LineEnding ending) (piece : List Char) :
    chomp (piece ++ '\\' :: ending) = piece ++ ['\\'] := by
  have hb : chomp ('\\' :: ending) = ['\\'] := by rw [chomp_cons rfl, chomp_eq_nil_iff.2 he]
  rw [chomp_append (by simp [hb]), hb]

private theorem head_append {front back : List Char} (hf : ∀ c ∈ front.head?, isBlank c = false)
    (hb : ∀ c ∈ back.head?, isBlank c = false) :
    ∀ c ∈ (front ++ back).head?, isBlank c = false := by
  cases front with
  | nil => exact hb
  | cons c cs => exact hf

/-- Neither what the first line has of a value nor the value itself begins with a blank. -/
theorem Pieces.heads (h : Pieces value first others) :
    (∀ c ∈ (chomp first).head?, isBlank c = false) ∧ ∀ c ∈ value.head?, isBlank c = false := by
  induction h with
  | last h he =>
    rw [h.chomp_last he]
    exact ⟨h.begins, h.begins⟩
  | @more piece _ _ _ _ _ h he _ _ ih =>
    have hb : ∀ c ∈ ['\\'].head?, isBlank c = false := by
      rintro c ⟨⟩
      decide
    rw [chomp_more he]
    exact ⟨head_append h.begins hb, head_append h.begins ih.2⟩

/-- A value that stands behind something is put together from its lines, and the lines behind are
read as if they were the first ones. -/
theorem Pieces.readOn_eq (h : Pieces value first others) (hn : start ≠ [])
    (hs : continues start = false)
    (lines : List (List Char)) :
    readOn (start ++ chomp first) (others ++ lines) =
      (start ++ value) :: logicalLines [] lines := by
  induction h generalizing start with
  | @last piece _ h he =>
    have hc : continues (start ++ piece) = false := (continues_append hs piece).trans h.continues_eq
    rw [h.chomp_last he, List.nil_append, readOn_closed hc]
  | @more piece ending indent value first others h he hi later ih =>
    have hc : continues (start ++ piece) = false := (continues_append hs piece).trans h.continues_eq
    have hne : start ++ piece ≠ [] := List.append_ne_nil_of_left_ne_nil hn piece
    calc readOn (start ++ chomp (piece ++ '\\' :: ending)) ((indent ++ first) :: others ++ lines)
      _ = readOn ((start ++ piece) ++ ['\\']) ((indent ++ first) :: (others ++ lines)) := by
        rw [chomp_more he, ← List.append_assoc, List.cons_append]
      _ = readOn ((start ++ piece) ++ chomp first) (others ++ lines) := by
        rw [readOn_open hc, logicalLines_later hne, trimLeft_chomp_append hi later.heads.1]
      _ = (start ++ (piece ++ value)) :: logicalLines [] lines := by
        rw [ih hne hc, List.append_assoc]

/-- A property is read as one line. -/
theorem logicalLines_property (hi : Blank indent) (hk : LineKey key) (hs : sign = '=' ∨ sign = ':')
    (hv : Pieces value first others) (lines : List (List Char)) :
    logicalLines [] ((indent ++ key ++ sign :: first) :: (others ++ lines)) =
      (indent ++ key ++ sign :: value) :: logicalLines [] lines := by
  have hsign : isLineEnd sign = false := by rcases hs with rfl | rfl <;> rfl
  have hchomp : chomp (indent ++ key ++ sign :: first) =
      (indent ++ key ++ [sign]) ++ chomp first := by
    rw [chomp_append (by simp [chomp_cons hsign]), chomp_cons hsign, List.append_cons]
  have hstated : isComment (chomp (indent ++ key ++ sign :: first)) = false := by
    obtain ⟨c, cs, rfl⟩ := List.exists_cons_of_ne_nil hk.nonempty
    have hb := hk.plain c List.mem_cons_self
    simp only [isKeyEnd, Bool.or_eq_false_iff] at hb
    have ht : trimLeft (indent ++ (c :: cs ++ [sign] ++ chomp first)) =
        c :: (cs ++ [sign] ++ chomp first) :=
      (trimLeft_append hi _).trans (trimLeft_of_head fun d hd => by cases hd; exact hb.2)
    rw [isComment, hchomp, List.append_assoc, List.append_assoc, ← List.append_assoc (c :: cs), ht]
    simp [hk.stated c rfl]
  have hclosed : continues (indent ++ key ++ [sign]) = false := by
    rcases hs with rfl | rfl <;> simp [continues, trailingBackslashes]
  rw [logicalLines_first hstated, hchomp, hv.readOn_eq (by simp) hclosed, ← List.append_cons]

private theorem ofLine?_property (hi : Blank indent) (hk : LineKey key)
    (hs : sign = '=' ∨ sign = ':')
    (hv : Pieces value first others) :
    ofLine? (indent ++ key ++ sign :: value) = some (String.ofList key, String.ofList value) := by
  have hl := keyed_line hk.nonempty hk.plain hs hv.heads.2
  rw [ofLine?] at hl ⊢
  rwa [List.append_assoc, trimLeft_append hi]

private theorem isComment_of_mark (hi : Blank indent)
    (hm : sign = '#' ∨ sign = '!') (text : List Char) :
    isComment (chomp (indent ++ sign :: text)) = true := by
  have hend : isLineEnd sign = false := by rcases hm with rfl | rfl <;> rfl
  have hb : isBlank sign = false := by rcases hm with rfl | rfl <;> decide
  have ht : trimLeft (indent ++ sign :: chomp text) = sign :: chomp text :=
    (trimLeft_append hi _).trans (trimLeft_of_head fun c hc => by cases hc; exact hb)
  rw [chomp_append (by simp [chomp_cons hend]), chomp_cons hend, isComment, ht]
  simpa using hm

private theorem isComment_of_blank (h : Blank raw) : isComment (chomp raw) = true := by
  rw [isComment, trimLeft_of_blank (blank_chomp h)]

/-- The lines of a file are read as the properties that are written in them. -/
theorem Written.entries_eq (h : Written entries lines) :
    (logicalLines [] lines).filterMap ofLine? = entries := by
  induction h with
  | done => rfl
  | blank h _ ih => rw [logicalLines_comment (isComment_of_blank h), ih]
  | comment hi hm _ ih => rw [logicalLines_comment (isComment_of_mark hi hm _), ih]
  | property hi hk hs hv _ ih =>
    rw [logicalLines_property hi hk hs hv, List.filterMap_cons, ofLine?_property hi hk hs hv, ih]

/-- A file may end behind a backslash, as if an empty line came after it. -/
theorem Written.ofLines_eq (h : Written entries lines) {read : List (List Char)}
    (hr : read = lines ∨ lines = read ++ [[]]) : ofLines read = OrderedMap.ofList entries := by
  have hl : logicalLines [] read = logicalLines [] lines := by
    rcases hr with rfl | rfl
    · rfl
    · exact (logicalLines_append_empty rfl read).symm
  rw [ofLines, hl, h.entries_eq]

/-- Just the written properties are read.  A key stands where it is written first and has the value
that is written last. -/
theorem written_properties_are_read (h : Written entries lines) {read : List (List Char)}
    (hr : read = lines ∨ lines = read ++ [[]]) :
    (ofLines read).keys = (entries.map Prod.fst).eraseDups ∧
      ∀ before key value after, entries = before ++ (key, value) :: after →
        key ∉ after.map Prod.fst →
        (ofLines read).get? key = some value := by
  rw [h.ofLines_eq hr]
  refine ⟨OrderedMap.keys_foldl_insert Prod.fst _ entries, ?_⟩
  rintro before key value after rfl hlast
  refine OrderedMap.get?_ofList_append (Option.eq_none_iff_forall_ne_some.2 fun other hother => ?_)
  exact hlast (List.mem_map_of_mem (OrderedMap.mem_of_get?_ofList hother))

/-- The characters of a key can be tested one by one. -/
theorem lineKey_of_all (nonempty : key ≠ []) (plain : key.all fun c => !isKeyEnd c)
    (stated : key.head?.all fun c => c != '#' && c != '!') : LineKey key := by
  refine ⟨nonempty, by simpa using plain, fun c hc => ?_⟩
  rw [Option.mem_def.1 hc] at stated
  simpa using stated

/-- Two keys, one of them written twice, below a comment whose end does not ask for the next line.
The file ends behind a backslash. -/
def foldedLines : List (List Char) :=
  ["# no more \\\n".toList, "\t\n".toList, "  color=\\\n".toList,
    "\tred\\\r\n".toList, "  , green\n".toList,
    "! a path\n".toList, "path:c:\\\\dir\\\\\n".toList, "color=blue\\\n".toList]

private theorem written_foldedLines :
    Written [("color", "red, green"), ("path", "c:\\\\dir\\\\"), ("color", "blue")]
      (foldedLines ++ [[]]) := by
  have hlines : foldedLines ++ [[]] =
      ([] ++ '#' :: " no more \\\n".toList) :: "\t\n".toList ::
      ("  ".toList ++ "color".toList ++ '=' :: ([] ++ '\\' :: ['\n'])) ::
      (["\t".toList ++ ("red".toList ++ '\\' :: ['\r', '\n']),
        "  ".toList ++ (", green".toList ++ ['\n'])] ++
        ([] ++ '!' :: " a path\n".toList) ::
        ([] ++ "path".toList ++ ':' :: ("c:\\\\dir\\\\".toList ++ ['\n'])) ::
        ([] ++ ([] ++ "color".toList ++ '=' :: ("blue".toList ++ '\\' :: ['\n'])) ::
        ([[] ++ ([] ++ [])] ++ []))) := by decide
  have hentries : [("color", "red, green"), ("path", "c:\\\\dir\\\\"), ("color", "blue")] =
      [(String.ofList "color".toList, String.ofList ([] ++ ("red".toList ++ ", green".toList))),
        (String.ofList "path".toList, String.ofList "c:\\\\dir\\\\".toList),
        (String.ofList "color".toList, String.ofList ("blue".toList ++ []))] := by decide
  have hnothing : PlainValue [] := plainValue_of_all rfl rfl rfl
  have hred : PlainValue "red".toList := plainValue_of_all (by decide) (by decide) (by decide)
  have hgreen : PlainValue ", green".toList :=
    plainValue_of_all (by decide) (by decide) (by decide)
  have hpath : PlainValue "c:\\\\dir\\\\".toList :=
    plainValue_of_all (by decide) (by decide) (by decide)
  have hblue : PlainValue "blue".toList := plainValue_of_all (by decide) (by decide) (by decide)
  have hcolor : LineKey "color".toList := lineKey_of_all (by decide) (by decide) (by decide)
  have hkey : LineKey "path".toList := lineKey_of_all (by decide) (by decide) (by decide)
  have hend : LineEnding ['\n'] ∧ LineEnding ['\r', '\n'] ∧ LineEnding [] := by
    simp [LineEnding, isLineEnd]
  have hblank : Blank [] ∧ Blank "\t".toList ∧ Blank "  ".toList ∧ Blank "\t\n".toList :=
    ⟨List.forall_mem_nil _, List.all_eq_true.1 (by decide), List.all_eq_true.1 (by decide),
      List.all_eq_true.1 (by decide)⟩
  rw [hlines, hentries]
  refine .comment hblank.1 (.inl rfl) (.blank hblank.2.2.2 ?_)
  refine .property hblank.2.2.1 hcolor (.inl rfl)
    (.more hnothing hend.1 hblank.2.1 (.more hred hend.2.1 hblank.2.2.1 (.last hgreen hend.1))) ?_
  refine .comment hblank.1 (.inr rfl) (.property hblank.1 hkey (.inr rfl) (.last hpath hend.1) ?_)
  exact .property hblank.1 hcolor (.inl rfl)
    (.more hblue hend.1 hblank.1 (.last hnothing hend.2.2)) .done

theorem written_properties_are_read_folded :
    Written [("color", "red, green"), ("path", "c:\\\\dir\\\\"), ("color", "blue")]
      (foldedLines ++ [[]]) ∧
    (ofLines foldedLines).keys = ["color", "path"] ∧
      (ofLines foldedLines).get? "color" = some "blue" ∧
    (ofLines foldedLines).get? "path" = some "c:\\\\dir\\\\" := by
  obtain ⟨hkeys, hvalues⟩ := written_properties_are_read written_foldedLines (.inr rfl)
  refine ⟨written_foldedLines, hkeys.trans (by decide), ?_, ?_⟩
  · exact hvalues [("color", "red, green"), ("path", "c:\\\\dir\\\\")] "color"
      "blue" [] rfl (by decide)
  · exact hvalues [("color", "red, green")] "path" "c:\\\\dir\\\\"
      [("color", "blue")] rfl (by decide)

end Properties
end BuildAlign.BuildProperties
