import BuildAlign.JsonPrinter
import BuildAlign.JsonReader
import BuildAlign.Proofs.DecimalSpelling
import BuildAlign.Proofs.JsonDocuments
import Mathlib.Data.List.TakeWhile

/-! # How written JSON is cut into tokens

Every part of a written document is read as the token it was written for: a string to its closing
quote, a number to its last digit.  What stands behind a value begins with a comma or a line feed,
which ends every token. -/
namespace BuildAlign.JsonReader
open DecimalDigits (Short digits_induction toDigits_longer)
open JsonPrinter (escapeChar)
open JsonValue (Brief Everywhere Whole Writable)

section Strings

/-- The text begins with an escape of four digits. -/
def EscapeFirst (cs : List Char) : Prop :=
  ∃ a b c d rest, cs = '\\' :: 'u' :: a :: b :: c :: d :: rest

private theorem string_unit_eq (a b c d : Char) {rest : List Char} (h : ¬ EscapeFirst rest) :
    string ('\\' :: 'u' :: a :: b :: c :: d :: rest) =
      (do
        let unit ← unit? a b c d
        let (s, behind) ← string rest
        return (unitChar unit :: s, behind)) := by
  rw [string.eq_4]
  intro a' b' c' d' cs he
  exact h ⟨a', b', c', d', cs, he⟩

private theorem unit?_of_string {a b c d : Char} {cs : List Char} {r : LooseText × List Char}
    (h : string ('\\' :: 'u' :: a :: b :: c :: d :: cs) = some r) :
    ∃ unit, unit? a b c d = some unit := by
  cases hu : unit? a b c d with
  | some unit => exact ⟨unit, rfl⟩
  | none =>
    by_cases he : EscapeFirst cs
    · obtain ⟨a', b', c', d', rest, rfl⟩ := he
      rw [string.eq_3, hu] at h
      cases h
    · rw [string_unit_eq a b c d he, hu] at h
      cases h

/-- An escape that is not the first half of a pair stands for itself, whatever follows. -/
theorem string_unit {a b c d : Char} {unit : Nat} (hu : unit? a b c d = some unit)
    (hh : isHighSurrogate unit = false) {rest behind : List Char} {s : LooseText}
    (hr : string rest = some (s, behind)) :
    string ('\\' :: 'u' :: a :: b :: c :: d :: rest) = some (unitChar unit :: s, behind) := by
  by_cases he : EscapeFirst rest
  · obtain ⟨a', b', c', d', rest, rfl⟩ := he
    obtain ⟨low, hl⟩ := unit?_of_string hr
    rw [string.eq_3, hu, hl, hr]
    simp [hh]
  · rw [string_unit_eq a b c d he, hu, hr]
    rfl

private theorem string_simple {c e : Char} (hc : c ≠ 'u')
    (he : simpleEscape? c = some e) (cs : List Char) :
    string ('\\' :: c :: cs) = (string cs).map fun (s, behind) => (.char e :: s, behind) := by
  rw [string]
  · rw [he]
    cases string cs <;> rfl
  · intros; exact hc ‹_›
  · intros; exact hc ‹_›

private theorem string_plain {c : Char} (hq : c ≠ '"') (hb : c ≠ '\\')
    (hc : ¬ c.toNat < 0x20) (cs : List Char) :
    string (c :: cs) = (string cs).map fun (s, behind) => (.char c :: s, behind) := by
  rw [string]
  · rw [if_neg hc]
  · exact fun he => absurd he hq
  · intros; exact absurd ‹_› hb
  · intros; exact absurd ‹_› hb
  · intros; exact absurd ‹_› hb

private theorem unit?_hexadecimal {n : Nat} (hn : n < 0x20) :
    ∃ a b c d, QuotedText.hexadecimal 4 n = [a, b, c, d] ∧
    unit? a b c d = some n ∧ isHighSurrogate n = false := by
  refine ⟨_, _, _, _, rfl, ?_, ?_⟩
  · revert n
    decide
  · simp only [isHighSurrogate, Bool.and_eq_false_iff, decide_eq_false_iff_not]
    omega

/-- A control character is read from its code. -/
theorem string_control {c : Char} (hlow : c.toNat < 0x20) {rest behind : List Char} {s : LooseText}
    (h : string rest = some (s, behind)) :
    string (['\\', 'u'] ++ QuotedText.hexadecimal 4 c.toNat ++ rest) =
      some (.char c :: s, behind) := by
  obtain ⟨a, b, c', d, hx, hu, hh⟩ := unit?_hexadecimal hlow
  have hl : isLowSurrogate c.toNat = false := by
    simp only [isLowSurrogate, Bool.and_eq_false_iff, decide_eq_false_iff_not]
    omega
  have hn : unitChar c.toNat = .char c := by simp [unitChar, hh, hl, Char.ofNat_toNat]
  rw [hx, ← hn]
  exact string_unit hu hh h

private theorem string_escapeChar (c : Char) {rest behind : List Char} {s : LooseText}
    (h : string rest = some (s, behind)) :
    string (escapeChar c ++ rest) = some (.char c :: s, behind) := by
  have simple : ∀ e, e ≠ 'u' → simpleEscape? e = some c →
      string (['\\', e] ++ rest) = some (.char c :: s, behind) := by
    intro e hu he
    have hs := string_simple hu he rest
    rw [h] at hs
    exact hs
  unfold escapeChar
  split
  · next hc =>
    simp only [Bool.or_eq_true, decide_eq_true_eq] at hc
    rcases hc with rfl | rfl
    · exact simple '"' (by decide) rfl
    · exact simple '\\' (by decide) rfl
  split
  · next hc => exact simple 'n' (by decide) (hc ▸ rfl)
  split
  · next hc => exact simple 'r' (by decide) (hc ▸ rfl)
  split
  · next hc => exact simple 't' (by decide) (hc ▸ rfl)
  split
  · next hc => exact simple 'b' (by decide) (hc ▸ rfl)
  split
  · next hc => exact simple 'f' (by decide) (hc ▸ rfl)
  next hc _ _ _ _ _ =>
  simp only [Bool.or_eq_true, decide_eq_true_eq, not_or] at hc
  split
  · next hlow => exact string_control hlow h
  · next hhigh =>
    have hs := string_plain hc.1 hc.2 hhigh rest
    rw [h] at hs
    exact hs

/-- A string is read up to the quote that closes it. -/
theorem string_escape (cs rest : List Char) :
    string (cs.flatMap escapeChar ++ '"' :: rest) = some (.ofList cs, rest) := by
  induction cs with
  | nil => rw [List.flatMap_nil, List.nil_append, string.eq_2]; rfl
  | cons c cs ih =>
    rw [List.flatMap_cons, List.append_assoc]
    exact string_escapeChar c ih

end Strings

section Numbers

private theorem digitsValue_append_digit (ds : List Char) {d : Nat} (h : d < 10) :
    digitsValue (ds ++ [d.digitChar]) = digitsValue ds * 10 + d := by
  have hd : ∀ d < 10, (Nat.digitChar d).toNat - '0'.toNat = d := by decide
  rw [digitsValue, List.foldl_append, List.foldl_cons, List.foldl_nil, hd d h]
  rfl

private theorem digitsValue_toDigits (n : Nat) : digitsValue (Nat.toDigits 10 n) = n := by
  induction n using digits_induction with
  | digit n h =>
    rw [Nat.toDigits_of_lt_base h]
    have hd := digitsValue_append_digit [] h
    simpa [digitsValue] using hd
  | longer n d hn hd ih => rw [toDigits_longer hn hd, digitsValue_append_digit _ hd, ih]

private theorem head?_digits_append (n : Nat) (rest : List Char) :
    (Nat.toDigits 10 n ++ rest).head? = (Nat.toDigits 10 n).head? := by
  cases hd : Nat.toDigits 10 n with
  | nil => exact absurd hd Nat.toDigits_ne_nil
  | cons c ds => rfl

/-- Only zero is written with a leading zero. -/
theorem eq_zero_of_head {n : Nat} (h : (Nat.toDigits 10 n).head? = some '0') : n = 0 := by
  induction n using digits_induction with
  | digit n hn =>
    have hd : ∀ n < 10, (Nat.toDigits 10 n).head? = some '0' → n = 0 := by decide
    exact hd n hn h
  | longer n d hn hd ih =>
    rw [toDigits_longer hn hd, head?_digits_append] at h
    exact absurd (ih h) (by omega)

theorem isDigit_of_mem_toDigits {n : Nat} {c : Char} (h : c ∈ Nat.toDigits 10 n) :
    isDigit c = true := by
  have hd := Nat.isDigit_of_mem_toDigits (b := 10) (by decide) (by decide) h
  simp only [Char.isDigit, Bool.and_eq_true, decide_eq_true_eq] at hd
  simp only [isDigit, Bool.and_eq_true, decide_eq_true_eq]
  exact hd

/-- What stands behind a value. -/
def Closed (rest : List Char) : Prop := ∀ c ∈ rest.head?, c = ',' ∨ c = '\n'

theorem Closed.head_ne {c c' : Char} {rest : List Char} (h : Closed (c :: rest))
    (hc : c' ≠ ',' ∧ c' ≠ '\n') :
    c ≠ c' := by
  rintro rfl
  rcases h c rfl with rfl | rfl
  · exact hc.1 rfl
  · exact hc.2 rfl

private theorem fraction_of_closed {rest : List Char} (h : Closed rest) :
    fraction rest = ([], rest) := by
  cases rest with
  | nil => rfl
  | cons c rest =>
    have hc : c ≠ '.' := h.head_ne (by decide)
    rw [fraction]
    intro c' cs he
    exact absurd (List.cons.inj he).1 hc

private theorem exponent?_of_closed {rest : List Char} (h : Closed rest) :
    exponent? rest = none := by
  cases rest with
  | nil => rfl
  | cons c rest =>
    have hc : c ≠ 'e' := h.head_ne (by decide)
    have hc' : c ≠ 'E' := h.head_ne (by decide)
    simp [exponent?, hc, hc']

private theorem isDigit_of_closed {c : Char} {rest : List Char} (h : Closed (c :: rest)) :
    isDigit c = false := by
  rcases h c rfl with rfl | rfl <;> decide

/-- The digits of a number end where something else begins. -/
theorem span_digits (n : Nat) {rest : List Char} (h : Closed rest) :
    (Nat.toDigits 10 n ++ rest).takeWhile isDigit = Nat.toDigits 10 n ∧
      (Nat.toDigits 10 n ++ rest).dropWhile isDigit = rest := by
  have hdigits : ∀ c ∈ Nat.toDigits 10 n, isDigit c = true := fun c hc => isDigit_of_mem_toDigits hc
  have hrest : rest.takeWhile isDigit = [] ∧ rest.dropWhile isDigit = rest := by
    cases rest with
    | nil => exact ⟨rfl, rfl⟩
    | cons c rest => simp [isDigit_of_closed h]
  constructor
  · rw [List.takeWhile_append_of_pos hdigits, hrest.1, List.append_nil]
  · rw [List.dropWhile_append_of_pos hdigits, hrest.2]

private theorem number?_digits (negative : Bool) {n : Nat} (hshort : Short n)
    {rest : List Char} (h : Closed rest) :
    number? negative (Nat.toDigits 10 n ++ rest) =
      some (.integer (if negative then -(n : Int) else n), rest) := by
  obtain ⟨htake, hdrop⟩ := span_digits n h
  unfold number?
  split
  next whole cs hw =>
  have he : whole = Nat.toDigits 10 n ∧ cs = rest := by
    split at hw
    · next cs' hd =>
      have hz : n = 0 := by
        apply eq_zero_of_head
        rw [← head?_digits_append, hd]
        rfl
      subst hz
      cases hd
      cases hw
      exact ⟨rfl, rfl⟩
    · rw [htake, hdrop] at hw
      cases hw
      exact ⟨rfl, rfl⟩
  rw [he.1, he.2]
  simp [Nat.toDigits_ne_nil, fraction_of_closed h, exponent?_of_closed h, digitsValue_toDigits,
    Nat.not_lt.2 hshort]

end Numbers

section Tokens

private theorem not_special_of_digit {c : Char} (h : isDigit c = true) {c' : Char}
    (h' : isDigit c' = false) :
    c ≠ c' := by
  rintro rfl
  rw [h] at h'
  cases h'

private theorem word?_of_digit {c : Char} (h : isDigit c = true) (cs : List Char) :
    word? (c :: cs) = none := by
  have hn : ∀ c', isDigit c' = false → (c' == c) = false :=
    fun c' h' => beq_false_of_ne (not_special_of_digit h h').symm
  simp [word?, words, List.isPrefixOf, hn 'n' rfl, hn 't' rfl, hn 'f' rfl, hn 'N' rfl,
    hn 'I' rfl, hn '-' rfl]

private theorem word?_of_minus {c : Char} (h : isDigit c = true) (cs : List Char) :
    word? ('-' :: c :: cs) = none := by
  have hn : ('I' == c) = false := beq_false_of_ne (not_special_of_digit h rfl).symm
  simp [word?, words, List.isPrefixOf, hn]

private theorem token?_of_digit {c : Char} (h : isDigit c = true) (cs : List Char) :
    token? (c :: cs) = (number? false (c :: cs)).map fun (value, rest) =>
      (.scalar value, rest) := by
  have hn : ∀ c', isDigit c' = false → ∀ cs', c :: cs = c' :: cs' → False :=
    fun c' h' cs' he => not_special_of_digit h h' (List.cons.inj he).1
  rw [token?, word?_of_digit h]
  · exact hn '[' rfl
  · exact hn ']' rfl
  · exact hn '\x7b' rfl
  · exact hn '\x7d' rfl
  · exact hn ',' rfl
  · exact hn ':' rfl
  · exact hn '"' rfl
  · exact hn '-' rfl

private theorem token?_of_minus {c : Char} (h : isDigit c = true) (cs : List Char) :
    token? ('-' :: c :: cs) = (number? true (c :: cs)).map fun (value, rest) =>
      (.scalar value, rest) := by
  simp [token?, word?_of_minus h]

private theorem toDigits_eq_cons (n : Nat) :
    ∃ c ds, Nat.toDigits 10 n = c :: ds ∧ isDigit c = true := by
  cases hd : Nat.toDigits 10 n with
  | nil => exact absurd hd Nat.toDigits_ne_nil
  | cons c ds => exact ⟨c, ds, rfl, isDigit_of_mem_toDigits (hd ▸ List.mem_cons_self)⟩

/-- A whole number is read back with its sign. -/
theorem token?_integer {n : Int} (hshort : Short n.natAbs) {rest : List Char} (h : Closed rest) :
    token? (JsonPrinter.integer n ++ rest) = some (.scalar (.integer n), rest) := by
  obtain ⟨c, ds, hd, hc⟩ := toDigits_eq_cons n.natAbs
  have hnum := fun negative => number?_digits negative hshort h
  by_cases hn : n < 0
  · have ht : JsonPrinter.integer n ++ rest = '-' :: (Nat.toDigits 10 n.natAbs ++ rest) := by
      simp [JsonPrinter.integer, hn, Nat.toList_repr]
    have he : -(n.natAbs : Int) = n := by omega
    rw [ht, hd, List.cons_append, token?_of_minus hc, ← List.cons_append, ← hd, hnum true]
    simp only [if_true, he, Option.map_some]
  · have ht : JsonPrinter.integer n ++ rest = Nat.toDigits 10 n.natAbs ++ rest := by
      simp [JsonPrinter.integer, hn, Nat.toList_repr]
    have he : (n.natAbs : Int) = n := by omega
    rw [ht, hd, List.cons_append, token?_of_digit hc, ← List.cons_append, ← hd, hnum false]
    simp only [Bool.false_eq_true, if_false, he, Option.map_some]

theorem tokens_space {c : Char} (h : isSpace c = true) (cs : List Char) :
    tokens (c :: cs) = tokens cs := by
  rw [tokens, tokensBefore, if_pos h, tokens]

private theorem tokens_newline (level : Nat) (rest : List Char) :
    tokens (JsonPrinter.newline level ++ rest) = tokens rest := by
  have hb : ∀ n, tokens (List.replicate n ' ' ++ rest) = tokens rest := by
    intro n
    induction n with
    | zero => rfl
    | succ n ih => rw [List.replicate_succ, List.cons_append, tokens_space rfl, ih]
  rw [JsonPrinter.newline, List.cons_append, tokens_space rfl, hb]

/-- A word that is a token makes one token, behind which the others follow. -/
theorem tokens_word {c : Char} {word behind : List Char} {t : Token} {after : List Token}
    (hs : isSpace c = false) (ht : token? (c :: word ++ behind) = some (t, behind))
    (h : tokens behind = some after) : tokens (c :: word ++ behind) = some (t :: after) := by
  have hl : behind.length ≤ (word ++ behind).length := by
    rw [List.length_append]
    omega
  rw [List.cons_append] at ht ⊢
  rw [tokens_eq_some_iff] at h ⊢
  rw [tokensBefore, if_neg (by simp [hs]), ht]
  simp only [hl, if_true, h]

end Tokens

section Documents

mutual
/-- The tokens that a value is written with. -/
def tokensOf : JsonValue → List Token
  | .array [] => [.openArray, .closeArray]
  | .array (item :: rest) => .openArray :: tokensOf item ++ itemTokens rest ++ [.closeArray]
  | .object [] => [.openObject, .closeObject]
  | .object ((name, v) :: rest) =>
    .openObject :: .text name :: .colon :: tokensOf v ++ memberTokens rest ++ [.closeObject]
  | .text s => [.text s]
  | scalar => [.scalar scalar]

def itemTokens : List JsonValue → List Token
  | [] => []
  | item :: rest => .comma :: tokensOf item ++ itemTokens rest

def memberTokens : List (LooseText × JsonValue) → List Token
  | [] => []
  | (name, v) :: rest => .comma :: .text name :: .colon :: tokensOf v ++ memberTokens rest
end

/-- The text is read as these tokens in front of every text that `behind` allows. -/
def Spells (behind : List Char → Prop) (text : LooseText) (ts : List Token) : Prop :=
  ∃ cs, text = .ofList cs ∧
    ∀ rest after, behind rest → tokens rest = some after → tokens (cs ++ rest) = some (ts ++ after)

/-- In front of everything. -/
def Anything (_ : List Char) : Prop := True

/-- The text begins with what ends a value. -/
def Closes (text : LooseText) : Prop := ∃ c rest, text = .char c :: rest ∧ (c = ',' ∨ c = '\n')

variable {text text' : LooseText} {ts ts' : List Token}

theorem ofList_append (cs cs' : List Char) :
    LooseText.ofList (cs ++ cs') = LooseText.ofList cs ++ .ofList cs' :=
  List.map_append

theorem Spells.closed (h : Spells Anything text ts) : Spells Closed text ts := by
  obtain ⟨cs, rfl, hs⟩ := h
  exact ⟨cs, rfl, fun rest after _ => hs rest after trivial⟩

theorem Spells.append {behind : List Char → Prop} (h : Spells Anything text ts)
    (h' : Spells behind text' ts') :
    Spells behind (text ++ text') (ts ++ ts') := by
  obtain ⟨cs, rfl, hs⟩ := h
  obtain ⟨cs', rfl, hs'⟩ := h'
  refine ⟨cs ++ cs', (ofList_append cs cs').symm, fun rest after hb ha => ?_⟩
  rw [List.append_assoc, List.append_assoc]
  exact hs _ _ trivial (hs' rest after hb ha)

private theorem Spells.append_closing {behind : List Char → Prop} (h : Spells Closed text ts)
    (h' : Spells behind text' ts') (hc : Closes text') :
    Spells behind (text ++ text') (ts ++ ts') := by
  obtain ⟨cs, rfl, hs⟩ := h
  obtain ⟨cs', rfl, hs'⟩ := h'
  obtain ⟨c, tail, he, hc⟩ := hc
  refine ⟨cs ++ cs', (ofList_append cs cs').symm, fun rest after hb ha => ?_⟩
  have hclosed : Closed (cs' ++ rest) := by
    cases cs' with
    | nil => cases he
    | cons first cs' =>
      cases he
      intro c' hm
      cases hm
      exact hc
  rw [List.append_assoc, List.append_assoc]
  exact hs _ _ hclosed (hs' rest after hb ha)

private theorem spells_newline (level : Nat) :
    Spells Anything (.ofList (JsonPrinter.newline level)) [] :=
  ⟨_, rfl, fun rest _ _ ha => (tokens_newline level rest).trans ha⟩

private theorem spells_word {c : Char} {word : List Char} {t : Token} (hs : isSpace c = false)
    (ht : ∀ behind, token? (c :: word ++ behind) = some (t, behind)) :
    Spells Anything (.ofList (c :: word)) [t] :=
  ⟨_, rfl, fun rest _ _ ha => tokens_word hs (ht rest) ha⟩

private theorem string_ofList (cs : List Char) :
    JsonPrinter.string (LooseText.ofList cs) =
      LooseText.ofList ('"' :: (cs.flatMap escapeChar ++ ['"'])) := by
  simp [JsonPrinter.string, LooseText.ofList, List.flatMap_map,
    List.map_flatMap, JsonPrinter.escape]

private theorem spells_string {s : LooseText} (h : Whole s) :
    Spells Anything (JsonPrinter.string s) [.text s] := by
  obtain ⟨cs, rfl⟩ := JsonValue.eq_ofList_of_whole h
  rw [string_ofList]
  refine spells_word rfl fun behind => ?_
  have hs := string_escape cs behind
  simp [token?, hs]

private theorem integer_eq_cons (n : Int) :
    ∃ c word, JsonPrinter.integer n = c :: word ∧ isSpace c = false := by
  by_cases hn : n < 0
  · exact ⟨'-', Nat.toDigits 10 n.natAbs, by simp [JsonPrinter.integer, hn, Nat.toList_repr], rfl⟩
  · obtain ⟨c, ds, hd, hc⟩ := toDigits_eq_cons n.natAbs
    refine ⟨c, ds, by simp [JsonPrinter.integer, hn, Nat.toList_repr, hd], ?_⟩
    have hne : ∀ c', isDigit c' = false → c ≠ c' := fun c' h' => not_special_of_digit hc h'
    simp [isSpace, hne ' ' rfl, hne '\t' rfl, hne '\n' rfl, hne '\r' rfl]

private theorem spells_integer {n : Int} (hshort : Short n.natAbs) :
    Spells Closed (.ofList (JsonPrinter.integer n)) [.scalar (.integer n)] := by
  refine ⟨_, rfl, fun rest after hb ha => ?_⟩
  obtain ⟨c, word, he, hs⟩ := integer_eq_cons n
  have ht := token?_integer hshort hb
  rw [he] at ht ⊢
  exact tokens_word hs ht ha

private theorem spells_null : Spells Anything (.ofList "null".toList) [.scalar .null] := by
  have hl : "null".toList = ['n', 'u', 'l', 'l'] := rfl
  rw [hl]
  exact spells_word rfl fun behind => by simp [token?, word?, words, List.isPrefixOf]

private theorem spells_bool (b : Bool) :
    Spells Anything (.ofList (if b then "true" else "false").toList) [.scalar (.bool b)] := by
  cases b with
  | true =>
    have hl : "true".toList = ['t', 'r', 'u', 'e'] := rfl
    simp only [if_true, hl]
    exact spells_word rfl fun behind => by simp [token?, word?, words, List.isPrefixOf]
  | false =>
    have hl : "false".toList = ['f', 'a', 'l', 's', 'e'] := rfl
    simp only [Bool.false_eq_true, if_false, hl]
    exact spells_word rfl fun behind => by simp [token?, word?, words, List.isPrefixOf]

/-- What a value needs to be read where it stands, at every level. -/
def SpellsValue (v : JsonValue) : Prop :=
  ∀ level, Spells Closed (JsonPrinter.value level v) (tokensOf v)

private theorem spells_comma :
    Spells Anything (.ofList [',']) [.comma] := spells_word rfl fun _ => by
  simp [token?]

/-- Items and what closes them. -/
theorem spells_items {items : List JsonValue} (h : ∀ item ∈ items, SpellsValue item) (level : Nat)
    (ht : Spells Anything text ts) (hc : Closes text) :
    Spells Anything (JsonPrinter.items level items ++ text) (itemTokens items ++ ts) ∧
      Closes (JsonPrinter.items level items ++ text) := by
  induction items with
  | nil => exact ⟨ht, hc⟩
  | cons item items ih =>
    obtain ⟨hs, hcl⟩ := ih fun item hm => h item (List.mem_cons_of_mem _ hm)
    have hall := spells_comma.append ((spells_newline level).append
      ((h item List.mem_cons_self level).append_closing hs hcl))
    constructor
    · simpa [JsonPrinter.items, itemTokens, LooseText.ofList] using hall
    · exact ⟨',', _, rfl, .inl rfl⟩

/-- A name with its colon, in front of its value. -/
theorem spells_name {name : LooseText} (h : Whole name) (level : Nat) {v : JsonValue}
    (hv : SpellsValue v) :
    Spells Closed (JsonPrinter.string name ++ .ofList [':', ' '] ++ JsonPrinter.value level v)
      (.text name :: .colon :: tokensOf v) := by
  have hcolon : Spells Anything (.ofList [':']) [.colon] := spells_word rfl fun _ => by
    simp [token?]
  have hspace : Spells Anything (.ofList [' ']) [] :=
    ⟨_, rfl, fun _ _ _ ha => (tokens_space rfl _).trans ha⟩
  have hall := (spells_string h).append (hcolon.append (hspace.append (hv level)))
  simpa [LooseText.ofList] using hall

private theorem spells_members {members : List (LooseText × JsonValue)}
    (hn : ∀ member ∈ members, Whole member.1)
    (hv : ∀ member ∈ members, SpellsValue member.2) (level : Nat) (ht : Spells Anything text ts)
    (hc : Closes text) :
    Spells Anything (JsonPrinter.members level members ++ text) (memberTokens members ++ ts) ∧
      Closes (JsonPrinter.members level members ++ text) := by
  induction members with
  | nil => exact ⟨ht, hc⟩
  | cons member members ih =>
    obtain ⟨name, v⟩ := member
    obtain ⟨hs, hcl⟩ := ih (fun m hm => hn m (List.mem_cons_of_mem _ hm))
      fun m hm => hv m (List.mem_cons_of_mem _ hm)
    have hmember :=
      spells_name (hn (name, v) List.mem_cons_self) level (hv (name, v) List.mem_cons_self)
    have hall := spells_comma.append ((spells_newline level).append (hmember.append_closing hs hcl))
    constructor
    · simpa [JsonPrinter.members, memberTokens, LooseText.ofList] using hall
    · exact ⟨',', _, rfl, .inl rfl⟩

/-- The line that closes a container. -/
theorem spells_close (level : Nat) {c : Char} {t : Token} (hs : isSpace c = false)
    (ht : ∀ behind, token? (c :: behind) = some (t, behind)) :
    Spells Anything (.ofList (JsonPrinter.newline level ++ [c])) [t] ∧
      Closes (.ofList (JsonPrinter.newline level ++ [c])) := by
  constructor
  · rw [ofList_append]
    exact (spells_newline level).append (spells_word hs ht)
  · exact ⟨'\n', _, rfl, .inr rfl⟩

private theorem spells_array {items : List JsonValue} (h : ∀ item ∈ items, SpellsValue item) :
    SpellsValue (.array items) := by
  intro level
  have hopen : Spells Anything (.ofList ['[']) [.openArray] := spells_word rfl fun _ => by
    simp [token?]
  have hclose := spells_close level (c := ']') (t := .closeArray) rfl fun _ => by simp [token?]
  cases items with
  | nil =>
    have hend : Spells Anything (.ofList [']']) [.closeArray] := spells_word rfl fun _ => by
      simp [token?]
    exact (hopen.append hend).closed
  | cons item items =>
    obtain ⟨hs, hc⟩ := spells_items (fun item hm => h item (List.mem_cons_of_mem _ hm)) (level + 1)
      hclose.1 hclose.2
    have hall := hopen.append ((spells_newline (level + 1)).append
      ((h item List.mem_cons_self (level + 1)).append_closing hs hc))
    simpa [JsonPrinter.value, tokensOf, LooseText.ofList] using hall.closed

private theorem spells_object {members : List (LooseText × JsonValue)}
    (hn : ∀ member ∈ members, Whole member.1)
    (hv : ∀ member ∈ members, SpellsValue member.2) : SpellsValue (.object members) := by
  intro level
  have hopen : Spells Anything (.ofList ['\x7b']) [.openObject] := spells_word rfl fun _ => by
    simp [token?]
  have hclose := spells_close level (c := '\x7d') (t := .closeObject) rfl fun _ => by simp [token?]
  cases members with
  | nil =>
    have hend : Spells Anything (.ofList ['\x7d']) [.closeObject] :=
      spells_word rfl fun _ => by simp [token?]
    exact (hopen.append hend).closed
  | cons member members =>
    obtain ⟨name, v⟩ := member
    obtain ⟨hs, hc⟩ := spells_members (fun m hm => hn m (List.mem_cons_of_mem _ hm))
      (fun m hm => hv m (List.mem_cons_of_mem _ hm)) (level + 1) hclose.1 hclose.2
    have hmember :=
      spells_name (hn (name, v) List.mem_cons_self) (level + 1) (hv (name, v) List.mem_cons_self)
    have hall := hopen.append ((spells_newline (level + 1)).append (hmember.append_closing hs hc))
    simpa [JsonPrinter.value, tokensOf, LooseText.ofList] using hall.closed

/-- Every writable value is read as its tokens, if its integers are not too long. -/
theorem spells_value {v : JsonValue} (h : Everywhere Writable v) (hb : Everywhere Brief v) :
    SpellsValue v := by
  induction h with
  | @node v here below ih =>
    obtain ⟨hbrief, hbelow⟩ := hb
    replace ih := fun child hm => ih child hm (hbelow child hm)
    cases v with
    | null => exact fun level => spells_null.closed
    | bool b => exact fun level => (spells_bool b).closed
    | integer n => exact fun level => spells_integer hbrief
    | double x => exact here.elim
    | text s => exact fun level => (spells_string here).closed
    | array items => exact spells_array (JsonValue.forall_items.1 ih)
    | object members =>
      exact spells_object (fun member hm => here member.1 (List.mem_map_of_mem hm))
        (JsonValue.forall_members.1 ih)

end Documents

end BuildAlign.JsonReader
