import BuildAlign.BuildProperties
import BuildAlign.Proofs.OperationNotation
import Mathlib.Data.List.Range

/-! # Where records end

A comma ends a record unless the backslashes right before it are odd in number, and a text is cut
off when the backslashes at its end are.  Splitting loses nothing: the texts of the records and the
commas between them are the whole text, and every record is split in the same way on its own. -/
namespace BuildAlign.EditOperation
open BuildProperties (trailingBackslashes)

/-- The rules by which a text is split: it is read from the left, an escaped character at once with
its backslash. -/
inductive Splits : List Char → Record → List Record → Prop
  | nil : Splits [] .empty []
  | escape {cs : List Char} {r : Record} {rs : List Record} (c : Char) (h : Splits cs r rs) :
    Splits ('\\' :: c :: cs) (r.literal ['\\', c] c) rs
  | comma {cs : List Char} {r : Record} {rs : List Record} (h : Splits cs r rs) :
    Splits (',' :: cs) .empty (r :: rs)
  | colon {cs : List Char} {r : Record} {rs : List Record} (h : Splits cs r rs) :
    Splits (':' :: cs) r.delimited rs
  | plain {c : Char} {cs : List Char} {r : Record} {rs : List Record} (hc : isSpecial c = false)
    (h : Splits cs r rs) : Splits (c :: cs) (r.literal [c] c) rs

variable {s t cs : List Char} {c : Char} {r : Record} {rs : List Record}

section Places

/-- The last backslash of the text escapes nothing. -/
def Dangling (cs : List Char) : Prop := trailingBackslashes cs % 2 = 1

instance : DecidablePred Dangling := fun _ => inferInstanceAs (Decidable (_ = _))

/-- At the place is a comma that no backslash makes literal. -/
def EndsRecord (cs : List Char) (i : Nat) : Prop := cs[i]? = some ',' ∧ ¬ Dangling (cs.take i)

instance (cs : List Char) : DecidablePred (EndsRecord cs) :=
  fun _ => inferInstanceAs (Decidable (_ ∧ _))

def recordEnds (cs : List Char) : List Nat := (List.range cs.length).filter (EndsRecord cs ·)

/-- What stands behind the last comma that ends a record, or all of the text. -/
def lastTail (cs : List Char) : List Char :=
  match (recordEnds cs).getLast? with
  | some i => cs.drop (i + 1)
  | none => cs

/-- Backslashes that escape among themselves make no difference to what follows. -/
theorem dangling_append (h : ¬ Dangling s) (t : List Char) : Dangling (s ++ t) ↔ Dangling t :=
  decide_eq_decide.1 (BuildProperties.continues_append (decide_eq_false h) t)

private theorem not_dangling_escape (c : Char) : ¬ Dangling ['\\', c] := by
  by_cases h : c = '\\' <;> simp [Dangling, trailingBackslashes, h]

private theorem not_dangling_single (h : c ≠ '\\') : ¬ Dangling [c] := by
  simp [Dangling, trailingBackslashes, h]

private theorem endsRecord_append_left {i : Nat} (h : i < s.length) (t : List Char) :
    EndsRecord (s ++ t) i ↔ EndsRecord s i := by
  rw [EndsRecord, EndsRecord, List.getElem?_append_left h,
    List.take_append_of_le_length (Nat.le_of_lt h)]

private theorem endsRecord_append_right (h : ¬ Dangling s) (i : Nat) :
    EndsRecord (s ++ t) (s.length + i) ↔ EndsRecord t i := by
  rw [EndsRecord, EndsRecord, List.take_length_add_append, dangling_append h,
    List.getElem?_append_right (Nat.le_add_right ..), Nat.add_sub_cancel_left]

private theorem recordEnds_append (h : ¬ Dangling s) (t : List Char) :
    recordEnds (s ++ t) = recordEnds s ++ (recordEnds t).map (s.length + ·) := by
  simp only [recordEnds, List.length_append, List.range_add, List.filter_append, List.filter_map]
  congr 1
  · refine List.filter_congr fun i hi => ?_
    rw [decide_eq_decide]
    exact endsRecord_append_left (List.mem_range.1 hi) t
  · congr 1
    refine List.filter_congr fun i _ => ?_
    rw [Function.comp_apply, decide_eq_decide]
    exact endsRecord_append_right h i

private theorem recordEnds_escape (c : Char) (cs : List Char) :
    recordEnds ('\\' :: c :: cs) = (recordEnds cs).map (2 + ·) := by
  have hn : recordEnds ['\\', c] = [] := by
    simp [recordEnds, List.range_succ_eq_map, EndsRecord, Dangling, trailingBackslashes]
  have h := recordEnds_append (not_dangling_escape c) cs
  rwa [hn] at h

private theorem recordEnds_comma (cs : List Char) :
    recordEnds (',' :: cs) = 0 :: (recordEnds cs).map (1 + ·) :=
  recordEnds_append (not_dangling_single (by decide)) cs

private theorem recordEnds_single (h : c ≠ '\\') (hc : c ≠ ',') (cs : List Char) :
    recordEnds (c :: cs) = (recordEnds cs).map (1 + ·) := by
  have hn : recordEnds [c] = [] := by
    simp [recordEnds, List.range_succ_eq_map, EndsRecord, hc]
  have h := recordEnds_append (not_dangling_single h) cs
  rwa [hn] at h

end Places

section Splitting

private theorem ne_of_not_special (h : isSpecial c = false) : c ≠ '\\' ∧ c ≠ ':' ∧ c ≠ ',' := by
  simp only [isSpecial, Bool.or_eq_false_iff, decide_eq_false_iff_not] at h
  exact ⟨h.1.1, h.1.2, h.2⟩

/-- What holds of the empty text and goes up with everything that can be read next holds of every
text. -/
theorem scan_induction {P : List Char → Prop} (nil : P []) (cut : P ['\\'])
    (escape : ∀ c cs, P cs → P ('\\' :: c :: cs)) (comma : ∀ cs, P cs → P (',' :: cs))
    (colon : ∀ cs, P cs → P (':' :: cs))
    (plain : ∀ c cs, isSpecial c = false → P cs → P (c :: cs)) (cs : List Char) : P cs := by
  fun_induction split cs with
  | case1 => exact nil
  | case2 c cs ih => exact escape c cs ih
  | case3 => exact cut
  | case4 cs ih => exact comma cs ih
  | case5 cs ih => exact colon cs ih
  | case6 c cs hb hb' hc hf ih =>
    have hn : c ≠ '\\' := by
      rintro rfl
      cases cs with
      | nil => exact hb' rfl rfl
      | cons c cs => exact hb c cs rfl rfl
    have hc : c ≠ ',' := hc
    have hf : c ≠ ':' := hf
    exact plain c cs (by simp [isSpecial, hn, hc, hf]) ih

/-- A text can be split unless it is cut off. -/
theorem split_eq_none_iff : split cs = none ↔ Dangling cs := by
  induction cs using scan_induction with
  | nil => decide
  | cut => decide
  | escape c cs ih =>
    rw [split, Option.map_eq_none_iff, ih]
    exact (dangling_append (not_dangling_escape c) cs).symm
  | comma cs ih =>
    rw [split, Option.map_eq_none_iff, ih]
    exact (dangling_append (not_dangling_single (by decide)) cs).symm
  | colon cs ih =>
    rw [split, Option.map_eq_none_iff, ih]
    exact (dangling_append (not_dangling_single (by decide)) cs).symm
  | plain c cs h ih =>
    rw [split_cons_plain h, Option.map_eq_none_iff, ih]
    exact (dangling_append (not_dangling_single (ne_of_not_special h).1) cs).symm

private theorem Splits.split_eq (h : Splits cs r rs) : split cs = some (r, rs) := by
  induction h with
  | nil => rfl
  | escape c _ ih => rw [split, ih, Option.map_some]
  | comma _ ih => rw [split, ih, Option.map_some]
  | colon _ ih => rw [split, ih, Option.map_some]
  | plain hc _ ih => rw [split_cons_plain hc, ih, Option.map_some]

theorem splits_of_split (h : split cs = some (r, rs)) : Splits cs r rs := by
  induction cs using scan_induction generalizing r rs with
  | nil => cases h; exact .nil
  | cut => cases h
  | escape c cs ih =>
    obtain ⟨⟨r, rs⟩, hs, he⟩ := Option.map_eq_some_iff.1 h
    cases he
    exact .escape c (ih hs)
  | comma cs ih =>
    obtain ⟨⟨r, rs⟩, hs, he⟩ := Option.map_eq_some_iff.1 h
    cases he
    exact .comma (ih hs)
  | colon cs ih =>
    obtain ⟨⟨r, rs⟩, hs, he⟩ := Option.map_eq_some_iff.1 h
    cases he
    exact .colon (ih hs)
  | plain c cs hc ih =>
    rw [split_cons_plain hc] at h
    obtain ⟨⟨r, rs⟩, hs, he⟩ := Option.map_eq_some_iff.1 h
    cases he
    exact .plain hc (ih hs)

private theorem intercalate_append_head (delimiter front first : List Char)
    (others : List (List Char)) :
    delimiter.intercalate ((front ++ first) :: others) =
      front ++ delimiter.intercalate (first :: others) := by
  cases others <;> simp [List.intercalate_cons_cons]

/-- The texts of the records, with a comma between any two, are the text. -/
theorem Splits.join_eq (h : Splits cs r rs) :
    [','].intercalate ((r :: rs).map Record.raw) = cs := by
  induction h with
  | nil => rfl
  | escape c _ ih =>
    exact (intercalate_append_head [','] ['\\', c] _ _).trans (congrArg (['\\', c] ++ ·) ih)
  | @comma cs r rs _ ih =>
    have hj : [','].intercalate ([] :: (r :: rs).map Record.raw) =
        ',' :: [','].intercalate ((r :: rs).map Record.raw) := List.intercalate_cons_cons
    exact hj.trans (congrArg (',' :: ·) ih)
  | colon _ ih => exact (intercalate_append_head [','] [':'] _ _).trans (congrArg ([':'] ++ ·) ih)
  | @plain c _ _ _ _ _ ih =>
    exact (intercalate_append_head [','] [c] _ _).trans (congrArg ([c] ++ ·) ih)

/-- Every record is split in the same way on its own. -/
theorem Splits.alone (h : Splits cs r rs) : ∀ record ∈ r :: rs, Splits record.raw record [] := by
  induction h with
  | nil => exact List.forall_mem_singleton.2 .nil
  | escape c _ ih =>
    obtain ⟨hfirst, hothers⟩ := List.forall_mem_cons.1 ih
    exact List.forall_mem_cons.2 ⟨hfirst.escape c, hothers⟩
  | comma _ ih => exact List.forall_mem_cons.2 ⟨.nil, ih⟩
  | colon _ ih =>
    obtain ⟨hfirst, hothers⟩ := List.forall_mem_cons.1 ih
    exact List.forall_mem_cons.2 ⟨hfirst.colon, hothers⟩
  | plain hc _ ih =>
    obtain ⟨hfirst, hothers⟩ := List.forall_mem_cons.1 ih
    exact List.forall_mem_cons.2 ⟨hfirst.plain hc, hothers⟩

/-- Text whose first field is not empty begins with it, but for a backslash. -/
theorem Splits.head?_eq {first : List Char} (h : Splits cs r rs) (hf : r.first = c :: first) :
    cs.head? = some '\\' ∨ cs.head? = some c := by
  cases h with
  | nil => cases hf
  | escape => exact .inl rfl
  | comma => cases hf
  | colon => cases hf
  | plain => exact .inr (congrArg some (List.cons.inj hf).1)

/-- There is one record more than there are commas that end one. -/
theorem Splits.length_eq (h : Splits cs r rs) : rs.length = (recordEnds cs).length := by
  induction h with
  | nil => rfl
  | escape c _ ih => rw [recordEnds_escape, List.length_map, ih]
  | comma _ ih => rw [recordEnds_comma, List.length_cons, List.length_cons, List.length_map, ih]
  | colon _ ih => rw [recordEnds_single (by decide) (by decide), List.length_map, ← ih]
  | plain hc _ ih =>
    obtain ⟨hb, -, hc⟩ := ne_of_not_special hc
    rw [recordEnds_single hb hc, List.length_map, ← ih]

/-- Texts with an unescaped comma between them are split each on its own. -/
theorem Splits.append {r' : Record} {rs' : List Record} (h : Splits s r rs) (h' : Splits t r' rs') :
    Splits (s ++ ',' :: t) r (rs ++ r' :: rs') := by
  induction h with
  | nil => exact h'.comma
  | escape c _ ih => exact ih.escape c
  | comma _ ih => exact ih.comma
  | colon _ ih => exact ih.colon
  | plain hc _ ih => exact ih.plain hc

/-- What stands behind the last of some places, when the text begins at all of them. -/
theorem behind_shifted (s t : List Char) (places : List Nat) :
    ((places.map (s.length + ·)).getLast?.map fun i => (s ++ t).drop (i + 1)) =
      places.getLast?.map fun i => t.drop (i + 1) := by
  rw [List.getLast?_map, Option.map_map]
  refine congrArg (Option.map · _) (funext fun i => ?_)
  rw [Function.comp_apply, Nat.add_assoc, List.drop_length_add_append]

/-- The last record begins behind the last comma that ends one. -/
theorem behindLastComma?_eq (cs : List Char) :
    behindLastComma? cs = (recordEnds cs).getLast?.map fun i => cs.drop (i + 1) := by
  induction cs using scan_induction with
  | nil => rfl
  | cut => rfl
  | escape c cs ih =>
    rw [recordEnds_escape]
    exact ih.trans (behind_shifted ['\\', c] cs _).symm
  | comma cs ih =>
    have hb : behindLastComma? (',' :: cs) = some ((behindLastComma? cs).getD cs) := rfl
    have hs := behind_shifted [','] cs (recordEnds cs)
    rw [hb, ih, ← hs, recordEnds_comma, List.getLast?_cons, Option.map_some]
    cases ((recordEnds cs).map (1 + ·)).getLast? <;> rfl
  | colon cs ih =>
    rw [recordEnds_single (by decide) (by decide)]
    exact ih.trans (behind_shifted [':'] cs _).symm
  | plain c cs h ih =>
    obtain ⟨hb, -, hc⟩ := ne_of_not_special h
    have hn : behindLastComma? (c :: cs) = behindLastComma? cs := by
      rw [behindLastComma?] <;> simp_all
    rw [recordEnds_single hb hc, hn]
    exact ih.trans (behind_shifted [c] cs _).symm

private theorem lastTail_append (h : ¬ Dangling s) (t : List Char) :
    lastTail (s ++ ',' :: t) = lastTail t := by
  have hl : (recordEnds (s ++ ',' :: t)).getLast? =
      some (s.length + (((recordEnds t).map (1 + ·)).getLast?.getD 0)) := by
    rw [recordEnds_append h, recordEnds_comma, List.getLast?_append,
      List.getLast?_map, List.getLast?_cons]
    rfl
  have hd : ∀ k, (s ++ ',' :: t).drop (s.length + k + 1) = t.drop k := by
    intro k
    rw [Nat.add_assoc, List.drop_length_add_append]
    rfl
  simp only [lastTail, hl, hd, List.getLast?_map]
  cases (recordEnds t).getLast? with
  | none => rfl
  | some i => exact congrArg (t.drop ·) (Nat.add_comm 1 i)

private theorem lastRecord_eq (cs : List Char) : lastRecord cs = lastTail cs := by
  rw [lastRecord, behindLastComma?_eq, lastTail]
  cases (recordEnds cs).getLast? <;> rfl

end Splitting

section Blame

/-- A record that is no operation: it has fewer than two fields or more than three, or there is
nothing in that of the target or in that of the path. -/
def Record.Malformed (r : Record) : Prop :=
  r.fields.length < 2 ∨ 3 < r.fields.length ∨ r.fields[0]? = some [] ∨ r.fields[1]? = some []

private theorem records_eq_error_iff {text : String} {e : OperationError} :
    records text = .error e ↔
      Dangling text.toList ∧ e = ⟨.danglingEscape, String.ofList (lastTail text.toList)⟩ := by
  rw [← split_eq_none_iff, ← lastRecord_eq, records]
  cases split text.toList with
  | none => simp [eq_comm]
  | some p => simp

private theorem records_eq_ok_iff {text : String} {found : List Record} :
    records text = .ok found ↔ ∃ r rs, Splits text.toList r rs ∧ found = r :: rs := by
  rw [records]
  constructor
  · intro h
    cases hs : split text.toList with
    | none => rw [hs] at h; cases h
    | some p =>
      rw [hs] at h
      cases h
      exact ⟨p.1, p.2, splits_of_split hs, rfl⟩
  · rintro ⟨r, rs, hs, rfl⟩
    rw [hs.split_eq]

private theorem make_cases (target path : List Char) (value : Option String) :
    ((target = [] ∨ path = []) ∧ ∃ defect, ofFields.make target path value = .error defect) ∨
      target ≠ [] ∧ path ≠ [] ∧
        ofFields.make target path value =
          .ok ⟨String.ofList target, String.ofList path, value⟩ := by
  unfold ofFields.make
  by_cases ht : target = []
  · exact .inl ⟨.inl ht, _, if_pos ht⟩
  · rw [if_neg ht]
    by_cases hp : path = []
    · exact .inl ⟨.inr hp, _, if_pos hp⟩
    · exact .inr ⟨ht, hp, if_neg hp⟩

/-- A record is malformed, and blamed with its text, or it is the operation that has its fields. -/
theorem ofRecord_cases (r : Record) :
    (r.Malformed ∧ ∃ defect, ofRecord r = .error ⟨defect, String.ofList r.raw⟩) ∨
      ¬ r.Malformed ∧ ∃ op, ofRecord r = .ok op ∧ fieldsOf op = r.fields.map String.ofList := by
  obtain ⟨raw, target, others⟩ := r
  match others with
  | [] => exact .inl ⟨.inl (by simp [Record.fields]), _, rfl⟩
  | [path] =>
    rcases make_cases target path none with ⟨he, defect, hm⟩ | ⟨ht, hp, hm⟩
    · refine .inl ⟨.inr (.inr (by simpa [Record.fields] using he)), defect, ?_⟩
      simp only [ofRecord, Record.fields, ofFields, hm]
    · refine .inr ⟨by simp [Record.Malformed, Record.fields, ht, hp],
        ⟨String.ofList target, String.ofList path, none⟩, ?_, rfl⟩
      simp only [ofRecord, Record.fields, ofFields, hm]
  | [path, value] =>
    rcases make_cases target path (some (String.ofList value)) with ⟨he, defect, hm⟩ | ⟨ht, hp, hm⟩
    · refine .inl ⟨.inr (.inr (by simpa [Record.fields] using he)), defect, ?_⟩
      simp only [ofRecord, Record.fields, ofFields, hm]
    · refine .inr ⟨by simp [Record.Malformed, Record.fields, ht, hp],
        ⟨String.ofList target, String.ofList path, some (String.ofList value)⟩, ?_,
        rfl⟩
      simp only [ofRecord, Record.fields, ofFields, hm]
  | _ :: _ :: _ :: _ => exact .inl ⟨.inr (.inl (by simp [Record.fields])), _, rfl⟩

private theorem blamed_of_error {r : Record} {e : OperationError} (h : ofRecord r = .error e) :
    r.Malformed ∧ e.record = String.ofList r.raw := by
  rcases ofRecord_cases r with ⟨hm, defect, he⟩ | ⟨-, op, ho, -⟩
  · cases he.symm.trans h
    exact ⟨hm, rfl⟩
  · cases ho.symm.trans h

private theorem not_malformed_iff {r : Record} : ¬ r.Malformed ↔ ∃ op, ofRecord r = .ok op := by
  rcases ofRecord_cases r with ⟨hm, defect, he⟩ | ⟨hn, op, ho, -⟩
  · simp [hm, he]
  · simp [hn, ho]

/-- The fields of an operation, from which it can be told, are those of its record. -/
theorem exists_operations {found : List Record} (h : ∀ r ∈ found, ¬ r.Malformed) :
    ∃ ops, found.mapM ofRecord = .ok ops ∧
      ops.map fieldsOf = found.map fun r => r.fields.map String.ofList := by
  induction found with
  | nil => exact ⟨[], rfl, rfl⟩
  | cons r found ih =>
    obtain ⟨hr, hfound⟩ := List.forall_mem_cons.1 h
    obtain ⟨ops, hm, hf⟩ := ih hfound
    rcases ofRecord_cases r with ⟨hm', -⟩ | ⟨-, op, ho, hop⟩
    · exact absurd hm' hr
    · refine ⟨op :: ops, ?_, by rw [List.map_cons, List.map_cons, hop, hf]⟩
      rw [List.mapM_cons, ho, hm]
      rfl

/-- The first malformed record is blamed. -/
theorem mapM_ofRecord_error_iff {found : List Record} {record : String} :
    (∃ defect, found.mapM ofRecord = .error ⟨defect, record⟩) ↔
      ∃ before r after, found = before ++ r :: after ∧
        (∀ r' ∈ before, ¬ r'.Malformed) ∧ r.Malformed ∧
        record = String.ofList r.raw := by
  constructor
  · rintro ⟨defect, h⟩
    obtain ⟨before, r, after, hl, hb, he⟩ := ListReading.mapM_eq_error_iff.1 h
    obtain ⟨hm, hr⟩ := blamed_of_error he
    exact ⟨before, r, after, hl, fun r' hr' => not_malformed_iff.2 (hb r' hr'), hm, hr⟩
  · rintro ⟨before, r, after, hl, hb, hm, rfl⟩
    rcases ofRecord_cases r with ⟨-, defect, he⟩ | ⟨hn, -⟩
    · exact ⟨defect, ListReading.mapM_eq_error_iff.2
        ⟨before, r, after, hl, fun r' hr' => not_malformed_iff.1 (hb r' hr'), he⟩⟩
    · exact absurd hm hn

private theorem parse_eq_of_records {text : String} (hn : text ≠ "") {found : List Record}
    (h : records text = .ok found) : parse text = found.mapM ofRecord := by
  rw [parse, if_neg hn, h]
  rfl

private theorem parse_of_cut {text : String} (hn : text ≠ "") {e : OperationError}
    (h : records text = .error e) :
    parse text = .error e := by
  rw [parse, if_neg hn, h]
  rfl

/-- The texts of operations are cut at commas that end a record, and the right record is blamed. -/
theorem records_are_cut_and_blamed :
    (∀ text : String,
      ((∃ e, records text = .error e) ↔ Dangling text.toList) ∧
      ∀ found, records text = .ok found →
        [','].intercalate (found.map Record.raw) = text.toList ∧
        (∀ r ∈ found, records (String.ofList r.raw) = .ok [r]) ∧
        found.length = (recordEnds text.toList).length + 1) ∧
    (∀ text : String, text ≠ "" →
      (∀ record, (∃ defect, parse text = .error ⟨defect, record⟩) ↔
        ((∃ e, records text = .error e) ∧ record = String.ofList (lastTail text.toList)) ∨
          ∃ before r after, records text = .ok (before ++ r :: after) ∧
            (∀ r' ∈ before, ¬ r'.Malformed) ∧ r.Malformed ∧ record = String.ofList r.raw) ∧
      ∀ found, records text = .ok found → (∀ r ∈ found, ¬ r.Malformed) →
        ∃ ops, parse text = .ok ops ∧ ops.map fieldsOf = found.map fun r =>
          r.fields.map String.ofList) ∧
    ∀ s t : String, ¬ Dangling s.toList →
      (∀ e, records t = .error e → records (s ++ "," ++ t) = .error e) ∧
      ∃ found, records s = .ok found ∧
        ∀ found', records t = .ok found' → records (s ++ "," ++ t) = .ok (found ++ found') := by
  refine ⟨fun text => ⟨?_, ?_⟩, fun text hn => ⟨fun record => ?_, ?_⟩, fun s t hs => ⟨?_, ?_⟩⟩
  · simp only [records_eq_error_iff, exists_and_left, exists_eq, and_true]
  · intro found h
    obtain ⟨r, rs, hs, rfl⟩ := records_eq_ok_iff.1 h
    refine ⟨hs.join_eq, fun record hr => records_eq_ok_iff.2 ⟨record, [], ?_, rfl⟩, ?_⟩
    · rw [String.toList_ofList]
      exact hs.alone record hr
    · rw [List.length_cons, hs.length_eq]
  · cases h : records text with
    | error e =>
      obtain ⟨-, rfl⟩ := records_eq_error_iff.1 h
      simp [parse_of_cut hn h, eq_comm]
    | ok found =>
      rw [parse_eq_of_records hn h, mapM_ofRecord_error_iff]
      simp
  · intro found h hm
    rw [parse_eq_of_records hn h]
    exact exists_operations hm
  · intro e h
    obtain ⟨ht, rfl⟩ := records_eq_error_iff.1 h
    have hl : (s ++ "," ++ t).toList = s.toList ++ ',' :: t.toList := by simp
    rw [records_eq_error_iff, hl, lastTail_append hs]
    exact ⟨(dangling_append hs _).2
      ((dangling_append (not_dangling_single (by decide)) t.toList).2 ht), rfl⟩
  · cases h : records s with
    | error e => exact absurd (records_eq_error_iff.1 h).1 hs
    | ok found =>
      obtain ⟨r, rs, hr, rfl⟩ := records_eq_ok_iff.1 h
      refine ⟨_, rfl, fun found' h' => ?_⟩
      obtain ⟨r', rs', hr', rfl⟩ := records_eq_ok_iff.1 h'
      have hl : (s ++ "," ++ t).toList = s.toList ++ ',' :: t.toList := by simp
      rw [records_eq_ok_iff, hl]
      exact ⟨r, rs ++ r' :: rs', hr.append hr', rfl⟩

/-- A comma that is escaped and one that is not, a text that is cut off behind a malformed record,
and one whose last value is empty. -/
theorem records_are_cut_and_blamed_escapes :
    records "a:b\\,,c" =
      .ok [⟨['a', ':', 'b', '\\', ','], ['a'], [['b', ',']]⟩, ⟨['c'], ['c'], []⟩] ∧
    recordEnds ['a', ':', 'b', '\\', ',', ',', 'c'] = [5] ∧
    (∃ defect, parse "a:b\\,,c" = .error ⟨defect, "c"⟩) ∧
    (∃ defect, parse "x,a:b\\" = .error ⟨defect, "a:b\\"⟩) ∧
    (∃ ops, parse "a:b,c:d:" = .ok ops ∧ ops.map fieldsOf = [["a", "b"], ["c", "d", ""]]) ∧
    records ("a:b" ++ "," ++ "c\\") = .error ⟨.danglingEscape, "c\\"⟩ := by
  have hfirst : records "a:b\\,,c" =
      .ok [⟨['a', ':', 'b', '\\', ','], ['a'], [['b', ',']]⟩, ⟨['c'], ['c'], []⟩] := rfl
  have hcut : records "x,a:b\\" = .error ⟨.danglingEscape, "a:b\\"⟩ := rfl
  have hboth : records "a:b,c:d:" = .ok [⟨['a', ':', 'b'], ['a'], [['b']]⟩,
      ⟨['c', ':', 'd', ':'], ['c'], [['d'], []]⟩] := rfl
  obtain ⟨-, blamed, joined⟩ := records_are_cut_and_blamed
  refine ⟨hfirst, by decide, ?_, ?_, ?_, ?_⟩
  · refine ((blamed _ (by decide)).1 _).2 (.inr ⟨[_], _, [], hfirst, ?_, .inl (by decide), rfl⟩)
    refine List.forall_mem_singleton.2 ?_
    simp [Record.Malformed, Record.fields]
  · exact ((blamed _ (by decide)).1 _).2 (.inl ⟨⟨_, hcut⟩, rfl⟩)
  · refine (blamed _ (by decide)).2 _ hboth ?_
    simp [Record.Malformed, Record.fields]
  · exact (joined "a:b" "c\\" (by decide)).1 _ rfl

end Blame
end BuildAlign.EditOperation
