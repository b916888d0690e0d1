import BuildAlign.Proofs.ContinuedLines
import BuildAlign.Proofs.RecordBoundaries

/-! # Operations in a file of properties

Operations have escapes of their own, and a file has others: a backslash before the end of a line,
and signs that end a key or begin a comment.  The text of operations never uses those of the file.
So a line that states operations is read as just these operations, whatever else the file holds. -/
namespace BuildAlign.BuildProperties
open BlankText DelimitedText

section Places

variable {start line before after : List Char} {raw : List Char} {lines : List (List Char)}

def linesOf (text : List Char) : List (List Char) := split '\n' (LineEnds.normalize text)

private theorem ofText_ofList (text : List Char) :
    ofText (String.ofList text) = ofLines (linesOf text) := by
  rw [ofText, String.toList_ofList, linesOf]

/-- What the next line has to continue when a line has been put together. -/
def leftOpen (line : List Char) : List Char := if continues line then line.dropLast else []

/-- What is to be continued behind a line, when `start` was before it. -/
def pendingBehind (start raw : List Char) : List Char :=
  if start = [] then if isComment (chomp raw) then [] else leftOpen (chomp raw)
  else leftOpen (start ++ trimLeft (chomp raw))

/-- What is to be continued behind some lines of a file. -/
def pendingAfter (lines : List (List Char)) : List Char := lines.foldl pendingBehind []

theorem readOn_eq (line : List Char) (lines : List (List Char)) :
    readOn line lines = (if continues line then [] else [line]) ++
      logicalLines (leftOpen line) lines := by
  unfold readOn leftOpen
  split <;> rfl

/-- Behind a line only what it leaves to be continued matters. -/
theorem logicalLines_cons (start raw : List Char) :
    ∃ done, ∀ later, logicalLines start (raw :: later) =
      done ++ logicalLines (pendingBehind start raw) later := by
  unfold pendingBehind
  by_cases hs : start = []
  · subst hs
    cases hc : isComment (chomp raw) with
    | true => exact ⟨[], logicalLines_comment hc⟩
    | false => exact ⟨_, fun later => (logicalLines_first hc later).trans (readOn_eq _ _)⟩
  · rw [if_neg hs]
    exact ⟨_, fun later => (logicalLines_later hs raw later).trans (readOn_eq _ _)⟩

private theorem logicalLines_append (start : List Char) (lines : List (List Char)) :
    ∃ done, ∀ later,
      logicalLines start (lines ++ later) =
        done ++ logicalLines (lines.foldl pendingBehind start) later := by
  induction lines generalizing start with
  | nil => exact ⟨[], fun later => rfl⟩
  | cons raw lines ih =>
    obtain ⟨first, hfirst⟩ := logicalLines_cons start raw
    obtain ⟨others, hothers⟩ := ih (pendingBehind start raw)
    refine ⟨first ++ others, fun later => ?_⟩
    rw [List.cons_append, hfirst, hothers, List.append_assoc, List.foldl_cons]

/-- A text that ends a line, or an empty one, has the lines of its own that it would have in front
of others. -/
theorem linesOf_append (hb : ∀ c ∈ before.getLast?, isLineEnd c = true)
    (hr : ∀ c ∈ raw.head?, c ≠ '\n') :
    linesOf (before ++ raw) = (linesOf before).dropLast ++ linesOf raw := by
  obtain rfl | ⟨front, c, rfl⟩ := before.eq_nil_or_concat'
  · rfl
  · have hc : (if c = '\r' then '\n' else c) = '\n' := by
      have hc := hb c List.getLast?_concat
      simp only [isLineEnd, Bool.or_eq_true, decide_eq_true_eq] at hc
      rcases hc with rfl | rfl <;> rfl
    have hl : (LineEnds.normalize (front ++ [c])).getLast? = some '\n' := by
      rw [LineEnds.getLast?_normalize, List.getLast?_concat, Option.map_some, hc]
    obtain ⟨front', hn⟩ := List.getLast?_eq_some_iff.1 hl
    have hlast : split '\n' (front' ++ ['\n']) = split '\n' front' ++ [[]] :=
      split_append_delimiter ..
    rw [linesOf, linesOf, linesOf, LineEnds.normalize_append hr, hn, List.append_assoc,
      hlast, List.dropLast_concat]
    exact split_append_delimiter ..

private theorem linesOf_unbroken (hl : ∀ c ∈ line, isLineEnd c = false)
    (ha : ∀ c ∈ after.head?, isLineEnd c = true) :
    ∃ later, linesOf (line ++ after) = line :: later ∧ linesOf after = [] :: later := by
  have hr : '\r' ∉ line := fun hm => (ne_of_not_isLineEnd (hl _ hm)).1 rfl
  have hn : '\n' ∉ line := fun hm => (ne_of_not_isLineEnd (hl _ hm)).2 rfl
  have ha : LineEnds.normalize after = [] ∨ ∃ rest, LineEnds.normalize after = '\n' :: rest := by
    cases after with
    | nil => exact .inl rfl
    | cons c cs =>
      have hc := ha c rfl
      simp only [isLineEnd, Bool.or_eq_true, decide_eq_true_eq] at hc
      rcases hc with rfl | rfl
      · exact .inr (LineEnds.normalize_of_return cs)
      · exact .inr ⟨_, LineEnds.normalize_cons (by decide) cs⟩
  rw [linesOf, linesOf, LineEnds.normalize_append_of_notMem hr]
  rcases ha with ha | ⟨rest, ha⟩
  · exact ⟨[], by rw [ha, List.append_nil, split_of_notMem hn], by rw [ha]; rfl⟩
  · exact ⟨split '\n' rest, by rw [ha, split_append hn], by rw [ha]; rfl⟩

/-- A line is read as its entry in every file that has it in a place of its own, if no line behind
it states the key again. -/
theorem get?_of_line {key value : String} (hl : Whole line) (he : ofLine? line = some (key, value))
    (hb : ∀ c ∈ before.getLast?, isLineEnd c = true) (ha : ∀ c ∈ after.head?, isLineEnd c = true)
    (hpending : pendingAfter (linesOf before).dropLast = [])
    (honce : (ofText (String.ofList after)).get? key = none) :
    (ofText (String.ofList (before ++ line ++ after))).get? key = some value := by
  have hhead : ∀ c ∈ (line ++ after).head?, c ≠ '\n' := by
    cases line with
    | nil => exact absurd hl.stated (by decide)
    | cons c cs =>
      rintro c ⟨⟩
      exact (ne_of_not_isLineEnd (hl.unbroken c List.mem_cons_self)).2
  obtain ⟨later, hline, hlater⟩ := linesOf_unbroken hl.unbroken ha
  obtain ⟨done, hdone⟩ := logicalLines_append [] (linesOf before).dropLast
  have hlines : logicalLines [] (linesOf (before ++ line ++ after)) =
      done ++ line :: logicalLines [] later := by
    rw [List.append_assoc, linesOf_append hb hhead, hline, hdone, ← pendingAfter,
      hpending, hl.logicalLines_eq]
  have hempty : logicalLines [] ([] :: later) = logicalLines [] later :=
    logicalLines_comment rfl later
  rw [ofText_ofList, hlater, ofLines, hempty] at honce
  rw [ofText_ofList, ofLines, hlines, List.filterMap_append, List.filterMap_cons_some he]
  exact OrderedMap.get?_ofList_append honce

end Places

section Operations
open EditOperation

variable {ops : List Operation}

/-- Operations on JSON documents that fit into one line of a file, which begins with the target of
the first. -/
structure Linear (ops : List Operation) : Prop where
  target : ∀ op ∈ ops, op.target ≠ ""
  path : ∀ op ∈ ops, op.path.toList.head? = some '$'
  unbroken : ∀ op ∈ ops, ∀ field ∈ fieldsOf op, ∀ c ∈ field.toList, isLineEnd c = false
  begins : ∀ op ∈ ops.head?, ∀ c ∈ op.target.toList.head?, isBlank c = false

theorem Linear.complete (h : Linear ops) : ∀ op ∈ ops, Complete op := by
  refine fun op hm => ⟨h.target op hm, fun he => ?_⟩
  have hp := h.path op hm
  rw [he] at hp
  cases hp

private theorem Linear.plainValue (h : Linear ops) : PlainValue (renderAll ops).toList := by
  cases ops with
  | nil => exact plainValue_of_all (by decide) (by decide) (by decide)
  | cons op ops =>
    have hsplit := split_renderAll op ops
    refine ⟨fun c hc => ?_, fun c hc => ?_, ?_⟩
    · rcases mem_renderAll hc with hs | ⟨op', hop, field, hf, hc⟩
      · simp only [isSpecial, Bool.or_eq_true, decide_eq_true_eq] at hs
        rcases hs with (rfl | rfl) | rfl <;> rfl
      · exact h.unbroken op' hop field hf c hc
    · obtain ⟨d, target, ht⟩ := List.exists_cons_of_ne_nil
        (mt String.toList_eq_nil_iff.1 (h.target op List.mem_cons_self))
      rcases (splits_of_split hsplit).head?_eq ht with he | he
      · cases he.symm.trans hc
        decide
      · cases he.symm.trans hc
        exact h.begins op rfl c (by rw [ht]; rfl)
    · have hclosed : ¬ Dangling (renderAll (op :: ops)).toList := by
        rw [← split_eq_none_iff, hsplit]
        exact Option.some_ne_none _
      exact Nat.mod_two_ne_one.1 hclosed

private theorem jsonSettings_of_parse {props : PropertyMap}
    (h : parse ((props.value? "jsonUpdate").getD "") = .ok ops)
    (hp : ∀ op ∈ ops, op.path.toList.head? = some '$') :
    JsonSettings.ofProperties props = .ok ⟨ops⟩ := by
  have hn : ops.find? (fun op => op.path.toList.head? ≠ some '$') = none :=
    List.find?_eq_none.2 fun op hm => by simp [hp op hm]
  simp only [JsonSettings.ofProperties, h, bind, Except.bind, hn]
  rfl

/-- Whatever characters the fields of operations have, a line that states the operations is read as
just these.  The line must not continue one before it, and no line behind it may state the key
again. -/
theorem line_of_operations_is_read {before after : List Char} (h : Linear ops)
    (hb : ∀ c ∈ before.getLast?, isLineEnd c = true) (ha : ∀ c ∈ after.head?, isLineEnd c = true)
    (hpending : pendingAfter (linesOf before).dropLast = [])
    (honce : (ofText (String.ofList after)).get? "jsonUpdate" = none) :
    JsonSettings.ofProperties ((ofText (String.ofList
      (before ++ ("jsonUpdate=" ++ renderAll ops).toList ++ after))).mapValues some) =
        .ok ⟨ops⟩ := by
  have hkey : SettingKey "jsonUpdate".toList := .fixed (by decide)
  have hplain := plainKey_of_settingKey hkey
  have hcolon : ':' ∉ "jsonUpdate".toList := by decide
  have hline : ("jsonUpdate=" ++ renderAll ops).toList =
      "jsonUpdate".toList ++ '=' :: (renderAll ops).toList := by
    rw [String.toList_append]
    rfl
  have hentry : ofLine? ("jsonUpdate=" ++ renderAll ops).toList =
      some ("jsonUpdate", renderAll ops) := by
    have he := keyed_line (by decide) (hplain.not_isKeyEnd hcolon fun c hc => hc) (.inl rfl)
      h.plainValue.begins
    rw [hline, he, String.ofList_toList, String.ofList_toList]
  have hwhole : Whole ("jsonUpdate=" ++ renderAll ops).toList :=
    hline ▸ whole_line hplain h.plainValue
  have hvalue := get?_of_line hwhole hentry hb ha hpending honce
  refine jsonSettings_of_parse ?_ h.path
  rw [PropertyMap.value?, OrderedMap.get?_mapValues, hvalue, Option.map_some,
    Option.join_some, Option.getD_some,
    parse_renderAll h.complete]

/-- Escapes, delimiters, blanks and signs of the file in all kinds of fields. -/
def mixedOperations : List Operation :=
  [⟨"#a:b,\\", "$.x", none⟩, ⟨"\t= c", "$\\", some ""⟩, ⟨"d", "$..e", some " !:\\\\\\"⟩]

private theorem linear_mixedOperations : Linear mixedOperations := by
  have hfields : mixedOperations.all fun op => (fieldsOf op).all fun field =>
      field.toList.all fun c => !isLineEnd c := by
    decide
  have hfirst : "#a:b,\\".toList.head? = some '#' := by decide
  refine ⟨by decide, by decide, by simpa using hfields, ?_⟩
  rintro op ⟨⟩ c hc
  cases hfirst.symm.trans hc
  decide

/-- The line before goes on in another one, but a comment does not. -/
def beforeOperations : List Char := "name: a \\\r\n  b\n# no more \\\r".toList

def afterOperations : List Char := "\r\njsonUpdates = none\n".toList

theorem line_of_operations_is_read_mixed :
    Linear mixedOperations ∧ (∀ c ∈ beforeOperations.getLast?, isLineEnd c = true) ∧
    (∀ c ∈ afterOperations.head?, isLineEnd c = true) ∧
      pendingAfter (linesOf beforeOperations).dropLast = [] ∧
    (ofText (String.ofList afterOperations)).get? "jsonUpdate" = none ∧
    JsonSettings.ofProperties ((ofText (String.ofList (beforeOperations ++
      ("jsonUpdate=" ++ renderAll mixedOperations).toList ++ afterOperations))).mapValues some) =
        .ok ⟨mixedOperations⟩ ∧
    JsonSettings.ofProperties ((ofText (String.ofList ([] ++
      ("jsonUpdate=" ++ renderAll mixedOperations).toList ++ []))).mapValues some) =
        .ok ⟨mixedOperations⟩ := by
  have hlast : beforeOperations.getLast? = some '\r' := by decide
  have hfirst : afterOperations.head? = some '\r' := by decide
  have hb : ∀ c ∈ beforeOperations.getLast?, isLineEnd c = true := fun c hc => by
    cases hlast.symm.trans hc; rfl
  have ha : ∀ c ∈ afterOperations.head?, isLineEnd c = true := fun c hc => by
    cases hfirst.symm.trans hc; rfl
  have hpending : pendingAfter (linesOf beforeOperations).dropLast = [] := by decide
  have honce : (ofText (String.ofList afterOperations)).get? "jsonUpdate" = none := by decide
  refine ⟨linear_mixedOperations, hb, ha, hpending, honce, ?_, ?_⟩
  · exact line_of_operations_is_read linear_mixedOperations hb ha hpending honce
  · exact line_of_operations_is_read linear_mixedOperations nofun nofun rfl (by decide)

end Operations
end BuildAlign.BuildProperties
