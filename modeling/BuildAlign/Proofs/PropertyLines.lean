import BuildAlign.AlignmentSettings
import BuildAlign.Proofs.PomPathSpelling

/-! # A property as a line of a file and as a definition

A line of a file and a single definition are cut apart by rules of their own.  The definition is cut
at its first equals sign, the line already at a colon.  So they agree on a key without a colon, and
a line cannot state an exclusion, whose key has one. -/
namespace BuildAlign.BuildProperties
open BlankText DelimitedText
open XmlCharacters (isNameChar)

section Lines

variable {line rest ending : List Char} {c : Char}

/-- What may stand behind the last line of a file. -/
def lastEnds : List (List Char) := [[], ['\n'], ['\r', '\n'], ['\r']]

/-- A line that is no comment and does not go on in the next one. -/
structure Whole (line : List Char) : Prop where
  unbroken : ∀ c ∈ line, isLineEnd c = false
  stated : isComment line = false
  closed : continues line = false

theorem ne_of_not_isLineEnd (h : isLineEnd c = false) : c ≠ '\r' ∧ c ≠ '\n' := by
  simpa [isLineEnd] using h

theorem chomp_of_unbroken (h : ∀ c ∈ line, isLineEnd c = false) : chomp line = line := by
  have hd : line.reverse.dropWhile isLineEnd = line.reverse := by
    cases hr : line.reverse with
    | nil => rfl
    | cons c cs =>
      have hc : c ∈ line := List.mem_reverse.1 (hr ▸ List.mem_cons_self)
      rw [List.dropWhile_cons_of_neg (by simp [h c hc])]
  rw [chomp, hd, List.reverse_reverse]

theorem Whole.logicalLines_eq (h : Whole line) (later : List (List Char)) :
    logicalLines [] (line :: later) = line :: logicalLines [] later := by
  simp [logicalLines, chomp_of_unbroken h.unbroken, h.stated, h.closed]

/-- A file of one line has that line, however it ends. -/
theorem logicalLines_of_whole (h : Whole line) (he : ending ∈ lastEnds) :
    logicalLines [] (split '\n' (LineEnds.normalize (line ++ ending))) = [line] := by
  have hr : '\r' ∉ line := fun hm => (ne_of_not_isLineEnd (h.unbroken _ hm)).1 rfl
  have hn : '\n' ∉ line := fun hm => (ne_of_not_isLineEnd (h.unbroken _ hm)).2 rfl
  have hlast : logicalLines [] [[]] = [] := rfl
  have hends : LineEnds.normalize ending = [] ∨ LineEnds.normalize ending = ['\n'] := by
    simp only [lastEnds, List.mem_cons, List.not_mem_nil, or_false] at he
    rcases he with rfl | rfl | rfl | rfl
    · exact .inl rfl
    all_goals exact .inr rfl
  rw [LineEnds.normalize_append_of_notMem hr]
  rcases hends with he | he
  · rw [he, List.append_nil, split_of_notMem hn, h.logicalLines_eq]
    rfl
  · rw [he, split_append hn, h.logicalLines_eq]
    exact congrArg (line :: ·) hlast

private theorem entries_of_whole (h : Whole line) (he : ending ∈ lastEnds) {entry : String × String}
    (hl : ofLine? line = some entry) :
    (ofText (String.ofList (line ++ ending))).entries = [entry] := by
  rw [ofText, ofLines, String.toList_ofList, logicalLines_of_whole h he]
  simp only [List.filterMap_cons, hl, List.filterMap_nil]
  rfl

/-- A line is cut at the first character that ends a key. -/
theorem keyValue_append {key : List Char} (hk : ∀ c ∈ key, isKeyEnd c = false)
    (hc : c = '=' ∨ c = ':')
    (rest : List Char) : keyValue (key ++ c :: rest) = (key, trimLeft rest) := by
  have hend : isKeyEnd c = true := by rcases hc with rfl | rfl <;> rfl
  have hp : ∀ d ∈ key, (!isKeyEnd d) = true := fun d hd => by simp [hk d hd]
  have hblank : ∀ d ∈ key, isBlank d = false := fun d hd => by
    have hd := hk d hd
    simp only [isKeyEnd, Bool.or_eq_false_iff] at hd
    exact hd.2
  have ht : (key ++ c :: rest).takeWhile (!isKeyEnd ·) = key := by
    rw [List.takeWhile_append_of_pos hp,
      List.takeWhile_cons_of_neg (by simp [hend]), List.append_nil]
  have hd : (key ++ c :: rest).dropWhile (!isKeyEnd ·) = c :: rest := by
    rw [List.dropWhile_append_of_pos hp, List.dropWhile_cons_of_neg (by simp [hend])]
  have hsign : (decide (c = '=') || decide (c = ':')) = true := by simpa using hc
  simp only [keyValue, ht, hd, trim_of_not_blank hblank, hsign, if_true]

theorem keyed_line {key : List Char} (hn : key ≠ []) (hk : ∀ d ∈ key, isKeyEnd d = false)
    (hc : c = '=' ∨ c = ':') (hr : ∀ d ∈ rest.head?, isBlank d = false) :
    ofLine? (key ++ c :: rest) = some (String.ofList key, String.ofList rest) := by
  have hline : trimLeft (key ++ c :: rest) = key ++ c :: rest := by
    obtain ⟨d, ds, rfl⟩ := List.exists_cons_of_ne_nil hn
    have hd := hk d List.mem_cons_self
    simp only [isKeyEnd, Bool.or_eq_false_iff] at hd
    exact trimLeft_of_head fun e he => by cases he; exact hd.2
  rw [ofLine?, hline, keyValue_append hk hc, trimLeft_of_head hr]
  exact if_neg hn

end Lines

section Settings

variable {key value start rest ending : List Char}

/-- The keys that settings are read from and that are the same in every build. -/
def fixedKeys : List String :=
  ["jsonUpdate", "dependencyManagement", "versionPropertyFormat", "overrideTransitive",
   "overrideDependencies", "strictAlignment", "strictViolationFails"]

/-- A group, an artifact or a module as it may stand in a key. -/
def IsPart (part : List Char) : Prop := part ≠ [] ∧ ∀ c ∈ part, c ≠ '=' ∧ isBlank c = false

/-- The keys that settings are read from. -/
inductive SettingKey : List Char → Prop
  | fixed {name : String} (h : name ∈ fixedKeys) : SettingKey name.toList
  | exclusion {group artifact : List Char} (hg : IsPart group) (ha : IsPart artifact) :
    SettingKey (AlignmentSettings.exclusionKey.toList ++ group ++ ':' :: artifact)
  | moduleExclusion {group artifact module : List Char} (hg : IsPart group) (ha : IsPart artifact)
    (hm : IsPart module) :
    SettingKey
      (AlignmentSettings.exclusionKey.toList ++ group ++ ':' :: (artifact ++ '@' :: module))

/-- A value that fits into one line and is not trimmed there. -/
structure PlainValue (value : List Char) : Prop where
  unbroken : ∀ c ∈ value, isLineEnd c = false
  begins : ∀ c ∈ value.head?, isBlank c = false
  ends : trailingBackslashes value % 2 = 0

/-- A key that makes no comment of its line, with nothing in it that ends a key but colons. -/
structure PlainKey (key : List Char) : Prop where
  first : ∃ c cs, key = c :: cs ∧ c ≠ '#' ∧ c ≠ '!' ∧ c ≠ ':'
  plain : ∀ c ∈ key, c ≠ '=' ∧ isBlank c = false

/-- The characters of a list can be tested one by one. -/
theorem plain_of_all {cs : List Char} (h : cs.all fun c => c != '=' && !isBlank c) :
    ∀ c ∈ cs, c ≠ '=' ∧ isBlank c = false := by
  simpa using h

private theorem ne_of_isNameChar {c c' : Char} (h : isNameChar .unicode c = true)
    (h' : isNameChar .unicode c' = false) :
    c ≠ c' := by
  rintro rfl
  exact absurd h (by simp [h'])

/-- A key that is spelled out in the characters of names. -/
theorem plainKey_of_names {c : Char} {cs : List Char} (h : (c :: cs).all (isNameChar .unicode)) :
    PlainKey (String.ofList (c :: cs)).toList ∧ ':' ∉ (String.ofList (c :: cs)).toList := by
  have hname : ∀ c' ∈ c :: cs, isNameChar .unicode c' = true := List.all_eq_true.1 h
  have hcolon : ∀ c' ∈ c :: cs, c' ≠ ':' := fun c' hc => ne_of_isNameChar (hname c' hc) (by decide)
  have hfirst := hname c List.mem_cons_self
  rw [String.toList_ofList]
  refine ⟨⟨⟨c, cs, rfl, ?_, ?_, hcolon c List.mem_cons_self⟩, fun c' hc => ⟨?_, ?_⟩⟩,
    fun hc => hcolon _ hc rfl⟩
  · exact ne_of_isNameChar hfirst (by decide)
  · exact ne_of_isNameChar hfirst (by decide)
  · exact ne_of_isNameChar (hname c' hc) (by decide)
  · exact PomPath.isBlank_of_isNameChar (hname c' hc)

private theorem plain_of_fixedKey {name : String} (h : name ∈ fixedKeys) :
    PlainKey name.toList ∧ ':' ∉ name.toList := by
  simp only [fixedKeys, List.mem_cons, List.not_mem_nil, or_false] at h
  rcases h with rfl | rfl | rfl | rfl | rfl | rfl | rfl
  all_goals exact plainKey_of_names (by decide)

theorem plainValue_of_all (unbroken : value.all fun c => !isLineEnd c)
    (begins : value.head?.all fun c => !isBlank c)
    (ends : trailingBackslashes value % 2 = 0) : PlainValue value := by
  refine ⟨by simpa using unbroken, fun c hc => ?_, ends⟩
  rw [Option.mem_def.1 hc] at begins
  simpa using begins

private theorem isPart_exclusionKey : IsPart AlignmentSettings.exclusionKey.toList :=
  ⟨by decide, plain_of_all (by decide)⟩

theorem plainKey_of_settingKey (h : SettingKey key) : PlainKey key := by
  have hplain : ∀ {group behind : List Char}, IsPart group → IsPart behind →
      PlainKey (AlignmentSettings.exclusionKey.toList ++ group ++ ':' :: behind) := by
    intro group behind hg hb
    refine ⟨⟨'d', _, rfl, by decide, by decide, by decide⟩, fun c hc => ?_⟩
    rw [List.append_assoc, List.mem_append, List.mem_append, List.mem_cons] at hc
    rcases hc with hc | hc | rfl | hc
    · exact isPart_exclusionKey.2 c hc
    · exact hg.2 c hc
    · exact ⟨by decide, by decide⟩
    · exact hb.2 c hc
  cases h with
  | fixed h => exact (plain_of_fixedKey h).1
  | exclusion hg ha => exact hplain hg ha
  | moduleExclusion hg ha hm =>
    refine hplain hg ⟨List.append_ne_nil_of_left_ne_nil ha.1 _, fun c hc => ?_⟩
    rcases List.mem_append.1 hc with hc | hc
    · exact ha.2 c hc
    · rcases List.mem_cons.1 hc with rfl | hc
      · exact ⟨by decide, by decide⟩
      · exact hm.2 c hc

/-- Only the keys of exclusions have a colon. -/
theorem colon_iff_of_settingKey (h : SettingKey key) :
    ':' ∈ key ↔ key ∉ fixedKeys.map String.toList := by
  have hnone : key ∈ fixedKeys.map String.toList → ':' ∉ key := by
    intro hm
    obtain ⟨name, hn, rfl⟩ := List.mem_map.1 hm
    exact (plain_of_fixedKey hn).2
  have hcolon : ∀ start rest : List Char, ':' ∈ start ++ ':' :: rest :=
    fun start rest => List.mem_append_right start List.mem_cons_self
  cases h with
  | fixed h => exact iff_of_false (plain_of_fixedKey h).2 (not_not_intro (List.mem_map_of_mem h))
  | exclusion => exact iff_of_true (hcolon _ _) fun hm => hnone hm (hcolon _ _)
  | moduleExclusion => exact iff_of_true (hcolon _ _) fun hm => hnone hm (hcolon _ _)

theorem PlainKey.not_isKeyEnd (h : PlainKey key) (hc : ':' ∉ start) (hs : ∀ c ∈ start, c ∈ key) :
    ∀ c ∈ start, isKeyEnd c = false := by
  intro c hm
  obtain ⟨he, hb⟩ := h.plain c (hs c hm)
  have hn : c ≠ ':' := fun e => hc (e ▸ hm)
  simp [isKeyEnd, he, hn, hb]

theorem whole_line (hk : PlainKey key) (hv : PlainValue value) : Whole (key ++ '=' :: value) := by
  refine ⟨fun c hc => ?_, ?_, ?_⟩
  · rcases List.mem_append.1 hc with hc | hc
    · have hb := (hk.plain c hc).2
      cases he : isLineEnd c with
      | false => rfl
      | true =>
        simp only [isLineEnd, Bool.or_eq_true, decide_eq_true_eq] at he
        rcases he with rfl | rfl
        all_goals exact absurd hb (by decide)
    · rcases List.mem_cons.1 hc with rfl | hc
      · rfl
      · exact hv.unbroken c hc
  · obtain ⟨c, cs, rfl, hsharp, hmark, -⟩ := hk.first
    have hb := (hk.plain c List.mem_cons_self).2
    have ht : trimLeft (c :: cs ++ '=' :: value) = c :: (cs ++ '=' :: value) :=
      trimLeft_of_head fun d hd => by cases hd; exact hb
    rw [isComment, ht]
    simp [hsharp, hmark]
  · have hc : continues (key ++ ['=']) = false := by simp [continues, trailingBackslashes]
    rw [List.append_cons, continues_append hc, continues, hv.ends]
    rfl

private theorem parseDefinition_append (hk : PlainKey key) (value : List Char) :
    parseDefinition (String.ofList (key ++ '=' :: value)) =
      some (String.ofList key, String.ofList value) := by
  obtain ⟨c, cs, hc, -⟩ := hk.first
  have hn : key ≠ [] := hc ▸ List.cons_ne_nil c cs
  have hcut : cut? '=' (key ++ '=' :: value) = some (key, value) :=
    cut?_append (fun hm => (hk.plain _ hm).1 rfl) value
  simp [parseDefinition, hcut, trim_of_not_blank fun c hc => (hk.plain c hc).2, hn]

/-- A line with a colon in its key is cut there. -/
theorem entries_of_colon (hk : PlainKey (start ++ ':' :: rest)) (hs : ':' ∉ start)
    (hv : PlainValue value)
    (he : ending ∈ lastEnds) :
    (ofText (String.ofList (start ++ ':' :: rest ++ '=' :: value ++ ending))).entries =
      [(String.ofList start, String.ofList (rest ++ '=' :: value))] := by
  have hn : start ≠ [] := by
    rintro rfl
    obtain ⟨c, cs, hc, -, -, hne⟩ := hk.first
    cases hc
    exact hne rfl
  have hends := hk.not_isKeyEnd hs fun c hc => List.mem_append_left _ hc
  have hbegins : ∀ c ∈ (rest ++ '=' :: value).head?, isBlank c = false := by
    intro c hc
    cases rest with
    | nil =>
      cases hc
      decide
    | cons d ds =>
      cases hc
      exact (hk.plain c (by simp)).2
  refine entries_of_whole (whole_line hk hv) he ?_
  rw [List.append_assoc, List.cons_append]
  exact keyed_line hn hends (.inr rfl) hbegins

/-- A line without a colon in its key is cut at the equals sign. -/
theorem entries_of_no_colon (hk : PlainKey key) (hc : ':' ∉ key) (hv : PlainValue value)
    (he : ending ∈ lastEnds) :
    (ofText (String.ofList (key ++ '=' :: value ++ ending))).entries =
      [(String.ofList key, String.ofList value)] := by
  obtain ⟨c, cs, hcons, -⟩ := hk.first
  have hn : key ≠ [] := hcons ▸ List.cons_ne_nil c cs
  have hends := hk.not_isKeyEnd hc fun c hc => hc
  exact entries_of_whole (whole_line hk hv) he (keyed_line hn hends (.inl rfl) hv.begins)

/-- Of all keys that settings are read from, a line of a file agrees with a single definition just
on the fixed ones.  An exclusion is cut at the first colon of its key, and what stands behind
becomes part of the value. -/
theorem line_agrees_with_definition_iff (hk : SettingKey key) (hv : PlainValue value)
    (he : ending ∈ lastEnds) :
    ∃ entry, parseDefinition (String.ofList (key ++ '=' :: value)) = some entry ∧
      entry = (String.ofList key, String.ofList value) ∧
      ((ofText (String.ofList (key ++ '=' :: value ++ ending))).entries = [entry] ↔
        key ∈ fixedKeys.map String.toList) ∧
      ∀ start rest, key = start ++ ':' :: rest → ':' ∉ start →
        (ofText (String.ofList (key ++ '=' :: value ++ ending))).entries =
          [(String.ofList start, String.ofList (rest ++ '=' :: value))] := by
  have hplain := plainKey_of_settingKey hk
  have hcut : ∀ start rest, key = start ++ ':' :: rest → ':' ∉ start →
      (ofText (String.ofList (key ++ '=' :: value ++ ending))).entries =
        [(String.ofList start, String.ofList (rest ++ '=' :: value))] := by
    rintro start rest rfl hs
    exact entries_of_colon hplain hs hv he
  refine ⟨_, parseDefinition_append hplain value, rfl, ⟨fun h => ?_, fun h => ?_⟩, hcut⟩
  · by_contra hn
    obtain ⟨start, rest, hsplit, hs⟩ :=
      List.eq_append_cons_of_mem ((colon_iff_of_settingKey hk).2 hn)
    have hsame := h.symm.trans (hcut start rest hsplit hs)
    simp only [List.cons.injEq, Prod.mk.injEq, and_true] at hsame
    have hlist : key = start := String.ofList_injective hsame.1
    exact hs (hlist ▸ hsplit ▸ List.mem_append_right start List.mem_cons_self)
  · exact entries_of_no_colon hplain (fun hc => (colon_iff_of_settingKey hk).1 hc h) hv he

private theorem isPart_examples : IsPart ['g'] ∧ IsPart ['a'] ∧ IsPart ['g', ':', 'm'] :=
  ⟨⟨by decide, plain_of_all (by decide)⟩, ⟨by decide, plain_of_all (by decide)⟩,
    ⟨by decide, plain_of_all (by decide)⟩⟩

def moduleKey : List Char :=
  AlignmentSettings.exclusionKey.toList ++ ['g'] ++ ':' :: (['a'] ++ '@' :: ['g', ':', 'm'])

private theorem settingKey_moduleKey : SettingKey moduleKey :=
  .moduleExclusion isPart_examples.1 isPart_examples.2.1 isPart_examples.2.2

/-- A list of operations with escapes, the last of which is an escaped backslash. -/
def escapedOperations : List Char := "f.json:$.a:x\\:y\\\\".toList

private theorem plainValue_escapedOperations : PlainValue escapedOperations :=
  plainValue_of_all (by decide) (by decide) (by decide)

private theorem plainValue_version : PlainValue ['1', '.', '0'] :=
  plainValue_of_all (by decide) (by decide) (by decide)

theorem line_agrees_with_definition_iff_escapes :
    SettingKey "jsonUpdate".toList ∧ PlainValue escapedOperations ∧
    SettingKey moduleKey ∧ PlainValue ['1', '.', '0'] ∧
    (ofText (String.ofList
      ("jsonUpdate".toList ++ '=' :: escapedOperations ++ ['\r', '\n']))).entries =
      [("jsonUpdate", String.ofList escapedOperations)] ∧
    parseDefinition (String.ofList (moduleKey ++ '=' :: ['1', '.', '0'])) =
      some ("dependencyExclusion.g:a@g:m", "1.0") ∧
    (ofText (String.ofList (moduleKey ++ '=' :: ['1', '.', '0'] ++ []))).entries =
      [("dependencyExclusion.g", "a@g:m=1.0")] := by
  have hfixed : SettingKey "jsonUpdate".toList := .fixed (by decide)
  have hends : ['\r', '\n'] ∈ lastEnds ∧ [] ∈ lastEnds := by decide
  obtain ⟨entry, -, rfl, hiff, -⟩ :=
    line_agrees_with_definition_iff hfixed plainValue_escapedOperations hends.1
  obtain ⟨entry', hd, rfl, -, hcut⟩ :=
    line_agrees_with_definition_iff settingKey_moduleKey plainValue_version hends.2
  have hkey : (String.ofList moduleKey, String.ofList ['1', '.', '0']) =
      ("dependencyExclusion.g:a@g:m", "1.0") := by
    decide
  have hsplit : moduleKey = "dependencyExclusion.g".toList ++ ':' :: "a@g:m".toList := by decide
  refine ⟨hfixed, plainValue_escapedOperations, settingKey_moduleKey,
    plainValue_version, ?_, hkey ▸ hd, ?_⟩
  · exact String.ofList_toList ▸ hiff.2 (by decide)
  · rw [hcut _ _ hsplit (by decide)]
    decide

theorem not_every_setting_is_read_from_a_line :
    ¬ ∀ key value ending : List Char, SettingKey key → PlainValue value → ending ∈ lastEnds →
      ∃ entry, parseDefinition (String.ofList (key ++ '=' :: value)) = some entry ∧
        (ofText (String.ofList (key ++ '=' :: value ++ ending))).entries = [entry] := by
  intro h
  have hkey : SettingKey (AlignmentSettings.exclusionKey.toList ++ ['g'] ++ ':' :: ['a']) :=
    .exclusion isPart_examples.1 isPart_examples.2.1
  obtain ⟨entry, hd, he⟩ := h _ _ ['\n'] hkey plainValue_version (by decide)
  have hdefined : parseDefinition
    (String.ofList (AlignmentSettings.exclusionKey.toList ++ ['g'] ++ ':' :: ['a'] ++
      '=' :: ['1', '.', '0'])) = some ("dependencyExclusion.g:a", "1.0") := by decide
  have hline :
    (ofText (String.ofList (AlignmentSettings.exclusionKey.toList ++ ['g'] ++ ':' :: ['a'] ++
      '=' :: ['1', '.', '0'] ++ ['\n']))).entries =
        [("dependencyExclusion.g", "a=1.0")] := by decide
  cases hdefined.symm.trans hd
  exact absurd (hline.symm.trans he) (by decide)

end Settings
end BuildAlign.BuildProperties
