import BuildAlign.JsonReader
import BuildAlign.XmlReader

/-! # JSON and XML documents

What is a JSON document does not begin with an angle bracket, and what is an XML document does,
whatever encoding it suggests.  So no text is both. -/
namespace BuildAlign.DocumentKinds
open XmlTokens XmlReader

section Bytes

variable {text : String} {c d : Char} {cs : List Char}

private theorem toList_loop (bytes : ByteArray) (i : Nat) (found : List UInt8) :
    ByteArray.toList.loop bytes i found = found.reverse ++ bytes.data.toList.drop i := by
  fun_induction ByteArray.toList.loop bytes i found with
  | case1 i found h ih =>
    have hi : i < bytes.data.toList.length := by simpa using h
    rw [ih, List.drop_eq_getElem_cons hi]
    simp [ByteArray.get!, h]
  | case2 i found h =>
    have hi : bytes.data.toList.length ≤ i := by simpa using h
    simp [List.drop_eq_nil_of_le hi]

private theorem toList_eq (bytes : ByteArray) :
    bytes.toList = bytes.data.toList := toList_loop bytes 0 []

private theorem getElem?_eq (bytes : ByteArray) (i : Nat) : bytes[i]? = bytes.toList[i]? := by
  rw [toList_eq]
  simp only [getElem?_def, Array.length_toList, Array.getElem_toList]
  rfl

/-- A character of ASCII is one byte. -/
theorem bytes_cons (h : text.toList = c :: cs) (hc : c.toNat < 0x80) :
    text.toUTF8.toList = c.toUInt8 :: (String.ofList cs).toUTF8.toList := by
  have hs : c.utf8Size = 1 := by
    rw [Char.utf8Size_eq_one_iff, UInt32.le_iff_toNat_le]
    exact Nat.le_of_lt_succ hc
  have ht : text = String.ofList (c :: cs) := by rw [← h, String.ofList_toList]
  rw [ht, toList_eq, toList_eq]
  simp only [String.toUTF8, String.toByteArray_ofList]
  rw [List.utf8Encode_cons, List.utf8Encode_singleton, String.utf8EncodeChar_eq_singleton hs]
  simp

private theorem toNat_toUInt8 (hc : c.toNat < 0x80) : c.toUInt8.toNat = c.toNat := by
  have h : c.toUInt8.toNat = c.toNat % 256 := UInt32.toNat_toUInt8 c.val
  omega

end Bytes

section Beginnings

variable {text : String} {c : Char} {cs rest : List Char}

/-- What a token of JSON may begin with, as far as it matters here. -/
def Begins (c : Char) : Prop := 0 < c.toNat ∧ c.toNat < 0x80 ∧ c ≠ '<'

private theorem begins_of_isSpace (h : JsonReader.isSpace c = true) : Begins c := by
  simp only [JsonReader.isSpace, Bool.or_eq_true, decide_eq_true_eq] at h
  rcases h with ((rfl | rfl) | rfl) | rfl <;> exact ⟨by decide, by decide, by decide⟩

private theorem begins_of_isDigit (h : JsonReader.isDigit c = true) : Begins c := by
  simp only [JsonReader.isDigit, Bool.and_eq_true, decide_eq_true_eq] at h
  obtain ⟨hl, hr⟩ := h
  have hl : 48 ≤ c.toNat := hl
  have hr : c.toNat ≤ 57 := hr
  refine ⟨by omega, by omega, ?_⟩
  rintro rfl
  exact absurd hr (by decide)

private theorem begins_of_number? {found : JsonValue × List Char} {negative : Bool}
    (h : JsonReader.number? negative (c :: cs) = some found) : Begins c := by
  by_cases hd : JsonReader.isDigit c = true
  · exact begins_of_isDigit hd
  · have hz : c ≠ '0' := by
      rintro rfl
      exact hd rfl
    simp [JsonReader.number?, hz, hd] at h

private theorem begins_of_word? {found : JsonValue × List Char}
    (h : JsonReader.word? (c :: cs) = some found) :
    Begins c := by
  obtain ⟨⟨w, value⟩, hf, -⟩ := Option.map_eq_some_iff.1 h
  have hm := List.mem_of_find?_eq_some hf
  have hp := List.find?_some hf
  simp only [JsonReader.words, List.mem_cons, Prod.mk.injEq, List.not_mem_nil, or_false] at hm
  rcases hm with ⟨rfl, -⟩ | ⟨rfl, -⟩ | ⟨rfl, -⟩ | ⟨rfl, -⟩ | ⟨rfl, -⟩ | ⟨rfl, -⟩
  all_goals
    obtain ⟨_, he⟩ := List.isPrefixOf_iff_prefix.1 hp
    cases he
    exact ⟨by decide, by decide, by decide⟩

private theorem begins_of_token? {found : JsonReader.Token × List Char}
    (h : JsonReader.token? (c :: cs) = some found) :
    Begins c := by
  unfold JsonReader.token? at h
  split at h
  case h_8 =>
    split at h
    · next hw => exact begins_of_word? hw
    · obtain ⟨p, hp, -⟩ := Option.map_eq_some_iff.1 h
      split at hp
      · next he => cases he; exact ⟨by decide, by decide, by decide⟩
      · exact begins_of_number? hp
  all_goals
    next he =>
    cases he
    exact ⟨by decide, by decide, by decide⟩

/-- Behind white space the text begins like a token of JSON. -/
def StartsToken (text : String) : Prop := ∃ c rest, skipSpace text.toList = c :: rest ∧ Begins c

theorem startsToken_of_read? {doc : JsonValue} (h : JsonReader.read? text = some doc) :
    StartsToken text := by
  unfold StartsToken
  obtain ⟨ts, ht, ha⟩ := Option.bind_eq_some_iff.1 h
  have hne : ts ≠ [] := by
    rintro rfl
    cases ha
  rw [JsonReader.tokens_eq_some_iff] at ht
  generalize text.toList = cs at ht
  fun_induction JsonReader.tokensBefore cs generalizing ts with
  | case1 =>
    cases ht
    exact absurd rfl hne
  | case2 c rest hs ih =>
    have hk : skipSpace (c :: rest) = skipSpace rest := List.dropWhile_cons_of_pos hs
    rw [hk]
    exact ih ts ha hne ht
  | case3 => cases ht
  | case4 c rest hs t behind htoken =>
    exact ⟨c, rest, List.dropWhile_cons_of_neg hs, begins_of_token? htoken⟩
  | case5 => cases ht

end Beginnings

section Documents

variable {text : String} {c : Char} {cs : List Char}

/-- Behind white space there is no markup. -/
def Unmarked (cs : List Char) : Prop := (skipSpace cs).head? ≠ some '<'

private theorem head?_skipSpace_normalize (cs : List Char) :
    (skipSpace (LineEnds.normalize cs)).head? = (skipSpace cs).head? := by
  fun_induction LineEnds.normalize cs with
  | case1 cs ih => exact ih
  | case2 cs _ ih => exact ih
  | case3 c cs _ _ ih =>
    by_cases hs : XmlCharacters.isSpace c = true
    · rw [skipSpace, List.dropWhile_cons_of_pos hs, skipSpace, List.dropWhile_cons_of_pos hs]
      exact ih
    · rw [skipSpace, List.dropWhile_cons_of_neg hs, skipSpace, List.dropWhile_cons_of_neg hs]
      rfl
  | case4 => rfl

theorem Unmarked.head_ne (h : Unmarked cs) : cs.head? ≠ some '<' := by
  intro hc
  obtain ⟨rest, rfl⟩ := List.head?_eq_some_iff.1 hc
  exact h rfl

private theorem declaration_of_unmarked (h : Unmarked cs) :
    XmlDeclaration.declaration cs = some (⟨none, false⟩, cs) := by
  have hb : behind? "<?xml".toList cs = none := by
    rw [behind?, if_neg]
    intro hp
    obtain ⟨rest, rfl⟩ := List.isPrefixOf_iff_prefix.1 hp
    exact h.head_ne rfl
  rw [XmlDeclaration.declaration, hb]

private theorem prologue_of_unmarked (h : Unmarked cs) (a : Alphabet) (standalone : Bool)
    (seen : Option XmlDoctype.Declarations) :
    prologue a standalone seen cs = none := by
  rw [prologue]
  split
  · next hs => exact absurd (congrArg List.head? hs) h
  · next hs => exact absurd (congrArg List.head? hs) h
  · next hs => exact absurd (congrArg List.head? hs) h
  · rfl

private theorem Begins.toUInt8_ne (h : Begins c) : c.toUInt8 ≠ 0 := by
  intro h0
  have hn := toNat_toUInt8 h.2.1
  rw [h0] at hn
  exact Nat.ne_of_lt h.1 hn

private theorem begins_of_skipSpace {t : Char} {rest : List Char}
    (h : skipSpace (c :: cs) = t :: rest) (hb : Begins t) :
    Begins c := by
  by_cases hs : XmlCharacters.isSpace c = true
  · exact begins_of_isSpace hs
  · rw [skipSpace, List.dropWhile_cons_of_neg hs] at h
    cases h
    exact hb

private theorem first_byte_ne (h : text.toList = c :: cs) (hc : Begins c) :
    text.toUTF8[0]? ≠ some 0 := by
  rw [getElem?_eq, bytes_cons h hc.2.1]
  simpa using hc.toUInt8_ne

private theorem second_byte_ne {d : Char} (h : text.toList = c :: d :: cs)
    (hc : Begins c) (hd : Begins d) :
    text.toUTF8[1]? ≠ some 0 := by
  rw [getElem?_eq, bytes_cons h hc.2.1, bytes_cons String.toList_ofList hd.2.1]
  simpa using hd.toUInt8_ne

/-- Where the second byte is 0, every character has two bytes, and the first one is read as it
is. -/
theorem reread?_of_second_byte (h : text.toList = c :: cs) (hc : Begins c)
    (h1 : text.toUTF8[1]? = some 0) :
    ∃ more, (XmlEncoding.suggested text).reread? text = some (c :: more) := by
  have hsuggested : XmlEncoding.suggested text = .utf16 true := by
    rw [XmlEncoding.suggested, if_neg (first_byte_ne h hc), if_pos h1]
  have hbytes := bytes_cons h hc.2.1
  rw [getElem?_eq, hbytes] at h1
  obtain ⟨more, hmore⟩ : ∃ more, (String.ofList cs).toUTF8.toList = 0 :: more :=
    List.head?_eq_some_iff.1 (by simpa [← List.head?_eq_getElem?] using h1)
  have hunit : (0 : UInt8).toNat * 256 + c.toUInt8.toNat = c.toNat := by
    rw [toNat_toUInt8 hc.2.1]
    simp
  have hlow : (c.toNat < 0xD800 || 0xE000 ≤ c.toNat) = true := by
    have hlt := hc.2.1
    simp only [Bool.or_eq_true, decide_eq_true_eq]
    omega
  refine ⟨XmlEncoding.unitsText (XmlEncoding.unitsOf true more), ?_⟩
  rw [hsuggested, XmlEncoding.reread?, hbytes, hmore, XmlEncoding.unitsOf]
  simp only [if_true, hunit]
  rw [XmlEncoding.unitsText.eq_def]
  simp only [hlow, if_true, Char.ofNat_toNat]

/-- Such a text has no markup in the encoding that it suggests. -/
theorem unmarked_of_startsToken (h : StartsToken text) :
    ∃ cs, (XmlEncoding.suggested text).reread? text = some cs ∧ Unmarked cs := by
  obtain ⟨t, rest, ht, hb⟩ := h
  cases htext : text.toList with
  | nil =>
    rw [htext] at ht
    cases ht
  | cons c cs =>
    rw [htext] at ht
    have hc : Begins c := begins_of_skipSpace ht hb
    by_cases h1 : text.toUTF8[1]? = some 0
    · -- The second character is no part of a token, nor is it white space; so the first one
      -- begins the token.
      have hs : ¬ XmlCharacters.isSpace c = true := by
        intro hs
        rw [skipSpace, List.dropWhile_cons_of_pos hs] at ht
        cases cs with
        | nil => cases ht
        | cons d cs => exact second_byte_ne htext hc (begins_of_skipSpace ht hb) h1
      obtain ⟨more, hr⟩ := reread?_of_second_byte htext hc h1
      refine ⟨c :: more, hr, ?_⟩
      rw [Unmarked, skipSpace, List.dropWhile_cons_of_neg hs]
      exact fun he => hc.2.2 (Option.some.inj he)
    · have hsuggested : XmlEncoding.suggested text = .utf8 := by
        rw [XmlEncoding.suggested, if_neg (first_byte_ne htext hc), if_neg h1]
      refine ⟨c :: cs, by rw [hsuggested, XmlEncoding.reread?, htext], ?_⟩
      rw [Unmarked, ht]
      exact fun he => hb.2.2 (Option.some.inj he)

theorem malformed_of_startsToken (h : StartsToken text) :
    XmlReader.read text = .error .malformed := by
  obtain ⟨cs, hr, hu⟩ := unmarked_of_startsToken h
  obtain ⟨t, rest, ht, hb⟩ := h
  have hm : withoutMark text = text := by
    rw [withoutMark]
    split
    · next cs hc =>
      rw [hc] at ht
      exact absurd (begins_of_skipSpace ht hb).2.1 (by decide)
    · rfl
  have he : encodingOf text = .ok (XmlEncoding.suggested text) := by
    rw [encodingOf, hr, Option.bind_some, declaration_of_unmarked hu]
  have hnormal : Unmarked (LineEnds.normalize cs) := by
    rw [Unmarked, head?_skipSpace_normalize]
    exact hu
  have hn : root? (XmlEncoding.suggested text) text = none := by
    simp [root?, hr, declaration_of_unmarked hu, prologue_of_unmarked hnormal]
  simp only [XmlReader.read, hm, he, Bind.bind, Except.bind, hn]
  rfl

/-- No JSON document is an XML document. -/
theorem not_xml_of_json {doc : JsonValue} (h : JsonReader.read? text = some doc) (root : XmlNode) :
    XmlReader.read text ≠ .ok root := by
  rw [malformed_of_startsToken (startsToken_of_read? h)]
  nofun

end Documents
end BuildAlign.DocumentKinds
