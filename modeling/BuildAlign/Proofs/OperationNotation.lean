import BuildAlign.EditOperation
import BuildAlign.Proofs.ListReading

/-! # Reading and writing operations

The fields of an operation are written with escapes, so that its record ends where the next one
begins and splits into just these fields.  Writing and reading operations undo each other. -/
namespace BuildAlign.EditOperation

/-- A record as it is written for its fields. -/
def written (first : List Char) (others : List (List Char)) : List Char :=
  [':'].intercalate ((first :: others).map escape)

def writtenRecord (first : List Char) (others : List (List Char)) : Record :=
  ⟨written first others, first, others⟩

/-- Operations whose record is read back: a field for the target and one for the path. -/
def Complete (op : Operation) : Prop := op.target ≠ "" ∧ op.path ≠ ""

private theorem split_cons_special {c : Char} (h : isSpecial c = true) (cs : List Char) :
    split ('\\' :: c :: cs) = (split cs).map fun (r, rs) => (r.literal ['\\', c] c, rs) := by
  simp only [isSpecial, Bool.or_eq_true, decide_eq_true_eq] at h
  rcases h with (rfl | rfl) | rfl <;> rfl

theorem split_cons_plain {c : Char} (h : isSpecial c = false) (cs : List Char) :
    split (c :: cs) = (split cs).map fun (r, rs) => (r.literal [c] c, rs) := by
  simp only [isSpecial, Bool.or_eq_false_iff, decide_eq_false_iff_not] at h
  obtain ⟨⟨hb, hc⟩, hr⟩ := h
  rw [split] <;> simp_all

/-- Escaped text is taken into the first field as it was before it was escaped. -/
theorem split_escape (cs rest : List Char) :
    split (escape cs ++ rest) =
      (split rest).map fun (r, rs) => (⟨escape cs ++ r.raw, cs ++ r.first, r.others⟩, rs) := by
  induction cs with
  | nil => simp [escape]
  | cons c cs ih =>
    have hcons : escape (c :: cs) = (if isSpecial c then ['\\', c] else [c]) ++ escape cs := rfl
    cases h : isSpecial c with
    | true =>
      simp only [hcons, h, if_true, List.cons_append, List.nil_append]
      rw [split_cons_special h, ih, Option.map_map]
      rfl
    | false =>
      simp only [hcons, h, Bool.false_eq_true, if_false, List.cons_append, List.nil_append]
      rw [split_cons_plain h, ih, Option.map_map]
      rfl

/-- A written record is read up to the comma or the end behind it. -/
theorem split_written {rest : List Char} {rs : List Record} (h : split rest = some (.empty, rs))
    (first : List Char) (others : List (List Char)) :
    split (written first others ++ rest) = some (writtenRecord first others, rs) := by
  induction others generalizing first with
  | nil => simp [writtenRecord, written, split_escape, h, Record.empty]
  | cons next others ih =>
    have hw : written first (next :: others) = escape first ++ ':' :: written next others := by
      simp [written, List.intercalate_cons_cons]
    have hc : split (':' :: (written next others ++ rest)) =
        some (⟨':' :: written next others, [], next :: others⟩, rs) := by
      rw [split, ih]; rfl
    rw [hw, List.append_assoc, List.cons_append, split_escape, hc]
    simp [writtenRecord, hw]

/-- Records that are joined by commas are split into these records. -/
theorem split_joined (record : List Char × List (List Char))
    (records : List (List Char × List (List Char))) :
    split ([','].intercalate ((record :: records).map fun r => written r.1 r.2)) =
      some (writtenRecord record.1 record.2, records.map fun r => writtenRecord r.1 r.2) := by
  induction records generalizing record with
  | nil =>
    have he : split [] = some (.empty, []) := rfl
    simpa using split_written he record.1 record.2
  | cons next records ih =>
    have hc : split (',' :: [','].intercalate ((next :: records).map fun r => written r.1 r.2)) =
        some (.empty, (next :: records).map fun r => writtenRecord r.1 r.2) := by
      rw [split, ih]; rfl
    have h := split_written hc record.1 record.2
    simpa [List.intercalate_cons_cons] using h

/-- The fields behind the target. -/
def restOf (op : Operation) : List (List Char) :=
  op.path.toList :: op.value.toList.map String.toList

private theorem toList_render (op : Operation) :
    (render op).toList = written op.target.toList (restOf op) := by
  have he : ∀ s : String, (escaped s).toList = escape s.toList := fun s => by simp [escaped]
  cases h : op.value <;>
    simp [render, written, restOf, fieldsOf, he, h]

private theorem toList_renderAll (ops : List Operation) :
    (renderAll ops).toList =
      [','].intercalate (ops.map fun op => written op.target.toList (restOf op)) := by
  have hm : ops.map (String.toList ∘ render) = ops.map fun op =>
      written op.target.toList (restOf op) :=
    List.map_congr_left fun op _ => toList_render op
  simp [renderAll, String.toList_intercalate, hm]

private theorem mem_intercalate {c d : Char} {texts : List (List Char)}
    (h : d ∈ [c].intercalate texts) :
    d = c ∨ ∃ text ∈ texts, d ∈ text := by
  induction texts with
  | nil => simp at h
  | cons text texts ih =>
    cases texts with
    | nil => exact .inr ⟨text, List.mem_cons_self, by simpa using h⟩
    | cons next texts =>
      rw [List.intercalate_cons_cons, List.mem_append, List.mem_append, List.mem_singleton] at h
      rcases h with (h | h) | h
      · exact .inr ⟨text, List.mem_cons_self, h⟩
      · exact .inl h
      · exact (ih h).imp_right fun ⟨text, ht, hd⟩ => ⟨text, List.mem_cons_of_mem _ ht, hd⟩

/-- The characters of written operations are those of their fields and the ones that escape and
delimit them. -/
theorem mem_renderAll {ops : List Operation} {c : Char} (h : c ∈ (renderAll ops).toList) :
    isSpecial c = true ∨ ∃ op ∈ ops, ∃ field ∈ fieldsOf op, c ∈ field.toList := by
  have hescape : ∀ {field : List Char}, c ∈ escape field → isSpecial c = true ∨ c ∈ field := by
    intro field hm
    obtain ⟨d, hd, hm⟩ := List.mem_flatMap.1 hm
    split at hm
    · next hs =>
      rcases List.mem_cons.1 hm with rfl | hm
      · exact .inl rfl
      · exact .inl (List.mem_singleton.1 hm ▸ hs)
    · exact .inr (List.mem_singleton.1 hm ▸ hd)
  rw [toList_renderAll] at h
  rcases mem_intercalate h with rfl | ⟨text, ht, h⟩
  · exact .inl rfl
  obtain ⟨op, hop, rfl⟩ := List.mem_map.1 ht
  rcases mem_intercalate h with rfl | ⟨text, ht, h⟩
  · exact .inl rfl
  obtain ⟨cs, hm, rfl⟩ := List.mem_map.1 ht
  have hfields : (op.target.toList :: restOf op) = (fieldsOf op).map String.toList := rfl
  obtain ⟨field, hf, rfl⟩ := List.mem_map.1 (hfields ▸ hm)
  exact (hescape h).imp_right fun hc => ⟨op, hop, field, hf, hc⟩

private theorem ofRecord_writtenRecord {op : Operation} (h : Complete op) :
    ofRecord (writtenRecord op.target.toList (restOf op)) = .ok op := by
  obtain ⟨target, path, value⟩ := op
  obtain ⟨ht, hp⟩ := h
  have ht' : target.toList ≠ [] := by simpa [String.toList_eq_nil_iff] using ht
  have hp' : path.toList ≠ [] := by simpa [String.toList_eq_nil_iff] using hp
  cases value <;>
    simp [ofRecord, writtenRecord, restOf, Record.fields, ofFields, ofFields.make, ht', hp']

private theorem mapM_ofRecord {ops : List Operation} (h : ∀ op ∈ ops, Complete op) :
    (ops.map fun op => writtenRecord op.target.toList (restOf op)).mapM ofRecord = .ok ops :=
  ListReading.mapM_eq_ok_iff.2 <| List.forall₂_map_left_iff.2 <| List.forall₂_same.2 fun op hm =>
    ofRecord_writtenRecord (h op hm)

private theorem parse_of_split {text : String} {r : Record} {rs : List Record} (hn : text ≠ "")
    (h : split text.toList = some (r, rs)) : parse text = (r :: rs).mapM ofRecord := by
  simp only [parse, hn, if_false, records, h]
  rfl

theorem split_renderAll (op : Operation) (ops : List Operation) :
    split (renderAll (op :: ops)).toList = some (writtenRecord op.target.toList (restOf op),
      ops.map fun op => writtenRecord op.target.toList (restOf op)) := by
  have hs :=
    split_joined (op.target.toList, restOf op) (ops.map fun op => (op.target.toList, restOf op))
  rw [toList_renderAll]
  simpa only [List.map_cons, List.map_map, Function.comp_def] using hs

private theorem renderAll_ne_empty {op : Operation} {ops : List Operation} (h : Complete op) :
    renderAll (op :: ops) ≠ "" := by
  intro he
  have hs := split_renderAll op ops
  rw [he, String.toList_empty, split, Option.some.injEq, Prod.mk.injEq] at hs
  have hf : op.target.toList = [] := (congrArg Record.first hs.1).symm
  exact h.1 (String.toList_eq_nil_iff.1 hf)

theorem parse_renderAll {ops : List Operation} (h : ∀ op ∈ ops, Complete op) :
    parse (renderAll ops) = .ok ops := by
  cases ops with
  | nil => rfl
  | cons op ops =>
    rw [parse_of_split (renderAll_ne_empty (h op List.mem_cons_self)) (split_renderAll op ops)]
    exact mapM_ofRecord h

private theorem complete_of_ofRecord {r : Record} {op : Operation} (h : ofRecord r = .ok op) :
    Complete op := by
  have hm : ∀ {target path value}, ofFields.make target path value = .ok op → Complete op := by
    intro target path value hm
    simp only [ofFields.make] at hm
    split at hm
    · cases hm
    · split at hm
      · cases hm
      · cases hm
        constructor <;> simpa [String.ext_iff]
  simp only [ofRecord] at h
  split at h
  · next op' hf =>
    cases h
    simp only [ofFields] at hf
    split at hf
    · cases hf
    · cases hf
    · exact hm hf
    · exact hm hf
    · cases hf
  · cases h

/-- Only operations with a target and a path are ever read. -/
theorem complete_of_parse {text : String} {ops : List Operation} (h : parse text = .ok ops) :
    ∀ op ∈ ops, Complete op := by
  by_cases hn : text = ""
  · subst hn; cases h; simp
  · cases hs : split text.toList with
    | none => simp only [parse, hn, if_false, records, hs] at h; cases h
    | some p =>
      rw [parse_of_split hn hs] at h
      intro op hm
      obtain ⟨r, -, hr⟩ := ListReading.exists_of_mapM h hm
      exact complete_of_ofRecord hr

/-- Reading what was written gives the very operations back, and whatever can be read has a target
and a path and is read back from its written form. -/
theorem notation_reads_back :
    (∀ ops : List Operation, (∀ op ∈ ops, op.target ≠ "" ∧ op.path ≠ "") →
      parse (renderAll ops) = .ok ops) ∧
    ∀ (text : String) (ops : List Operation), parse text = .ok ops →
      (∀ op ∈ ops, op.target ≠ "" ∧ op.path ≠ "") ∧ parse (renderAll ops) = .ok ops := by
  constructor
  · exact fun ops h => parse_renderAll h
  · intro text ops h
    have hc := complete_of_parse h
    exact ⟨hc, parse_renderAll hc⟩

/-- Delimiters, escapes and a value that is empty, beside one that is absent. -/
theorem notation_reads_back_delimiters :
    (∀ op ∈ [⟨"a:b,\\", "$.x", none⟩, (⟨",", "\\:", some ""⟩ : Operation)],
      op.target ≠ "" ∧ op.path ≠ "") ∧
    parse (renderAll [⟨"a:b,\\", "$.x", none⟩, ⟨",", "\\:", some ""⟩]) =
      .ok [⟨"a:b,\\", "$.x", none⟩, ⟨",", "\\:", some ""⟩] ∧
    parse "t:\\p:,u:q" = .ok [⟨"t", "p", some ""⟩, ⟨"u", "q", none⟩] ∧
    parse (renderAll [⟨"t", "p", some ""⟩, ⟨"u", "q", none⟩]) =
      .ok [⟨"t", "p", some ""⟩, ⟨"u", "q", none⟩] :=
  have complete : ∀ op ∈ [⟨"a:b,\\", "$.x", none⟩, (⟨",", "\\:", some ""⟩ : Operation)],
      op.target ≠ "" ∧ op.path ≠ "" := by decide
  have read : parse "t:\\p:,u:q" = .ok [⟨"t", "p", some ""⟩, ⟨"u", "q", none⟩] := by rfl
  ⟨complete, notation_reads_back.1 _ complete, read, (notation_reads_back.2 _ _ read).2⟩

end BuildAlign.EditOperation
