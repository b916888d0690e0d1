import BuildAlign.JsonPath
import BuildAlign.Proofs.DecimalSpelling
import BuildAlign.Proofs.ListReading
import Mathlib.Data.List.Forall2
import Mathlib.Data.List.TakeWhile

/-! # The grammar of paths

What is read as a segment is given by rules, one for each form.  No form reads beyond the place
where the next segment may begin, so paths that are written one behind the other are read as the
segments of both, and a path is cut into pieces that are read alone; and however a segment is
spelled, it is read as that segment. -/
namespace BuildAlign.JsonPath

section Rules

/-- The path may end here, or another segment begins. -/
def Opens (cs : List Char) : Prop := ∀ c ∈ cs.head?, isNameEnd c = true

/-- What stands behind an opening bracket, the selector it is read as, and what follows the closing
one. -/
inductive Bracketed : List Char → Selector → List Char → Prop
  | key {quote : Char} {text key rest : List Char} (hq : quote = '\'' ∨ quote = '"')
    (h : quoted quote 0 text = .ok (key, ']' :: rest)) :
    Bracketed (quote :: text) (.key (String.ofList key)) rest
  | wildcard (rest : List Char) : Bracketed ('*' :: ']' :: rest) .wildcard rest
  | index {digits : List Char} {i : Nat} (hn : digits ≠ [])
    (hd : ∀ c ∈ digits, DecimalDigits.isDigitLike c = true)
      (hi : DecimalDigits.number? digits = some i)
    (rest : List Char) : Bracketed (digits ++ ']' :: rest) (.index i) rest

/-- What stands behind the dots of a segment. -/
inductive Dotted : Bool → List Char → Selector → List Char → Prop
  | wildcard (recursive : Bool) (rest : List Char) : Dotted recursive ('*' :: rest) .wildcard rest
  | bracket {cs rest : List Char} {selector : Selector} (h : Bracketed cs selector rest) :
    Dotted true ('[' :: cs) selector rest
  | name (recursive : Bool) {name rest : List Char} (hn : name ≠ []) (hs : name.head? ≠ some '*')
    (h : ∀ c ∈ name, isNameEnd c = false) (hr : Opens rest) :
    Dotted recursive (name ++ rest) (.key (String.ofList name)) rest

/-- A segment and what follows it. -/
inductive Begins : List Char → Segment → List Char → Prop
  | bracket {cs rest : List Char} {selector : Selector} (h : Bracketed cs selector rest) :
    Begins ('[' :: cs) ⟨selector, false⟩ rest
  | dot {cs rest : List Char} {selector : Selector} (h : Dotted false cs selector rest) :
    Begins ('.' :: cs) ⟨selector, false⟩ rest
  | dots {cs rest : List Char} {selector : Selector} (h : Dotted true cs selector rest) :
    Begins ('.' :: '.' :: cs) ⟨selector, true⟩ rest

end Rules

variable {cs rest more : List Char} {selector : Selector} {found : List Segment}

section Reading

private theorem ne_backslash {c : Char} (h : ∀ c' cs', c = '\\' → cs = c' :: cs' → False)
    (h' : c = '\\' → cs = [] → False) : c ≠ '\\' := by
  intro hc
  cases cs with
  | nil => exact h' hc rfl
  | cons c' cs' => exact h c' cs' hc rfl

private theorem quoted_cons {c : Char} (h : c ≠ '\\') (quote : Char)
    (opened : Nat) (cs : List Char) :
    quoted quote opened (c :: cs) =
      if c = quote then .ok ([], cs)
      else (quoted quote opened cs).map fun (key, rest) => (c :: key, rest) := by
  rw [quoted] <;> simp_all

/-- A quoted key ends with its quote, whatever stands behind it and wherever it was opened. -/
theorem quoted_consumed {quote : Char} {opened : Nat} {key : List Char}
    (h : quoted quote opened cs = .ok (key, rest)) :
    ∃ text, cs = text ++ rest ∧
      ∀ opened' behind, quoted quote opened' (text ++ behind) = .ok (key, behind) := by
  fun_induction quoted quote opened cs generalizing key rest with
  | case1 => cases h
  | case2 c cs ih =>
    obtain ⟨⟨key, rest⟩, hq, he⟩ := map_eq_ok.1 h
    cases he
    obtain ⟨text, rfl, ht⟩ := ih hq
    refine ⟨'\\' :: c :: text, rfl, fun opened' behind => ?_⟩
    rw [List.cons_append, List.cons_append, quoted, ht]
    rfl
  | case3 => cases h
  | case4 cs hb hb' =>
    cases h
    refine ⟨[quote], rfl, fun opened' behind => ?_⟩
    rw [List.singleton_append, quoted_cons (ne_backslash hb hb'), if_pos rfl]
  | case5 c cs hb hb' hq ih =>
    obtain ⟨⟨key, rest⟩, hk, he⟩ := map_eq_ok.1 h
    cases he
    obtain ⟨text, rfl, ht⟩ := ih hk
    refine ⟨c :: text, rfl, fun opened' behind => ?_⟩
    rw [List.cons_append, quoted_cons (ne_backslash hb hb'), if_neg hq, ht]
    rfl

/-- Only a fault depends on where a quoted key was opened. -/
theorem quoted_opened {quote : Char} {opened : Nat} {key : List Char}
    (h : quoted quote opened cs = .ok (key, rest)) (opened' : Nat) :
    quoted quote opened' cs = .ok (key, rest) := by
  obtain ⟨text, rfl, ht⟩ := quoted_consumed h
  exact ht opened' rest

theorem close_eq_ok {fault : PathFault} : close fault cs = .ok rest ↔ cs = ']' :: rest := by
  unfold close
  split
  · simp
  · next hn =>
    refine iff_of_false nofun ?_
    rintro rfl
    exact hn _ rfl

private theorem takeWhile_run {p : Char → Bool} (hc : ∀ c ∈ cs, p c = true)
    (hr : ∀ c ∈ rest.head?, p c = false) :
    (cs ++ rest).takeWhile p = cs ∧ (cs ++ rest).dropWhile p = rest := by
  rw [List.takeWhile_append_of_pos hc, List.dropWhile_append_of_pos hc]
  cases rest with
  | nil => simp
  | cons c rest => simp [hr c rfl]

/-- In brackets that hold digits only, the digits are read as a number. -/
theorem bracket_digits {digits : List Char} (hn : digits ≠ [])
    (hd : ∀ c ∈ digits, DecimalDigits.isDigitLike c = true) (rest : List Char) :
    bracket (digits ++ ']' :: rest) =
      match DecimalDigits.number? digits with
      | some i => .ok (.index i, rest)
      | none => .error (.noNumber (String.ofList digits)) := by
  obtain ⟨d, ds, rfl⟩ := List.exists_cons_of_ne_nil hn
  have hother : ∀ c, DecimalDigits.isDigitLike c = false → d ≠ c := by
    rintro c hc rfl
    rw [hd d List.mem_cons_self] at hc
    cases hc
  have hq : ¬ (d = '\'' || d = '"') = true := by
    simp [hother '\'' (by decide), hother '"' (by decide)]
  have hr : ∀ c ∈ (']' :: rest).head?, DecimalDigits.isDigitLike c = false := by
    rintro c ⟨⟩
    decide
  obtain ⟨ht, hdrop⟩ := takeWhile_run hd hr
  rw [List.cons_append] at ht hdrop ⊢
  simp only [bracket, hq, hother '*' (by decide), ht, hdrop]
  rfl

private theorem bracket_eq_ok_iff :
    bracket cs = .ok (selector, rest) ↔ Bracketed cs selector rest := by
  constructor
  · intro h
    cases cs with
    | nil => cases h
    | cons c cs =>
      simp only [bracket] at h
      split at h
      · next hq =>
        obtain ⟨⟨key, behind⟩, hk, h⟩ := bind_eq_ok.1 h
        obtain ⟨behind', hc, h⟩ := bind_eq_ok.1 h
        cases h
        cases close_eq_ok.1 hc
        exact .key (by simpa using hq) (quoted_opened hk 0)
      · split at h
        · next hw =>
          obtain ⟨behind, hc, h⟩ := bind_eq_ok.1 h
          cases h
          cases close_eq_ok.1 hc
          cases hw
          exact .wildcard rest
        · split at h
          · cases h
          · next hn =>
            obtain ⟨behind, hc, h⟩ := bind_eq_ok.1 h
            have hspan :=
              List.takeWhile_append_dropWhile (p := DecimalDigits.isDigitLike) (l := c :: cs)
            rw [close_eq_ok.1 hc] at hspan
            split at h
            · next i hi =>
              cases h
              rw [← hspan]
              exact .index hn (fun c hc => List.mem_takeWhile_imp hc) hi rest
            · cases h
  · intro h
    cases h with
    | @key quote text key rest hq h =>
      have hq : (quote = '\'' || quote = '"') = true := by simpa using hq
      have hk := quoted_opened h (text.length + 1 + 1)
      simp only [bracket, hq, if_true, List.length_cons, hk]
      rfl
    | wildcard rest => rfl
    | index hn hd hi rest => rw [bracket_digits hn hd, hi]

private theorem opens_dropWhile (cs : List Char) : Opens (cs.dropWhile (!isNameEnd ·)) := by
  intro c hc
  have h := List.head?_dropWhile_not (!isNameEnd ·) cs
  rw [hc] at h
  simpa using h

private theorem dotted_eq_ok_iff {recursive : Bool} :
    dotted recursive cs = .ok (selector, rest) ↔ Dotted recursive cs selector rest := by
  constructor
  · intro h
    cases cs with
    | nil => cases h
    | cons c cs =>
      simp only [dotted] at h
      split at h
      · next hw =>
        cases h
        cases hw
        exact .wildcard recursive _
      · next hw =>
        split at h
        · next hb =>
          simp only [Bool.and_eq_true, decide_eq_true_eq] at hb
          obtain ⟨rfl, rfl⟩ := hb
          exact .bracket (bracket_eq_ok_iff.1 h)
        · split at h
          · cases h
          · next hn =>
            cases h
            have hs : ((c :: cs).takeWhile (!isNameEnd ·)).head? ≠ some '*' := by
              intro hs
              have hp := List.takeWhile_prefix (!isNameEnd ·) (l := c :: cs)
              obtain ⟨behind, hp⟩ := hp
              cases ht : (c :: cs).takeWhile (!isNameEnd ·) with
              | nil => exact hn ht
              | cons d ds =>
                rw [ht] at hs hp
                cases hs
                cases hp
                exact hw rfl
            have hd :=
              Dotted.name recursive hn hs (fun d hd => by simpa using List.mem_takeWhile_imp hd)
              (opens_dropWhile (c :: cs))
            rwa [List.takeWhile_append_dropWhile] at hd
  · intro h
    cases h with
    | wildcard recursive rest => rfl
    | bracket h => exact bracket_eq_ok_iff.2 h
    | @name recursive name rest hn hs h hr =>
      obtain ⟨c, cs, rfl⟩ := List.exists_cons_of_ne_nil hn
      have hw : c ≠ '*' := fun hc => hs (congrArg some hc)
      have hb : c ≠ '[' := by
        rintro rfl
        cases h '[' List.mem_cons_self
      obtain ⟨ht, hd⟩ : ((c :: cs) ++ rest).takeWhile (!isNameEnd ·) = c :: cs ∧
          ((c :: cs) ++ rest).dropWhile (!isNameEnd ·) = rest :=
        takeWhile_run (fun d hd => by simp [h d hd]) fun d hd => by simp [hr d hd]
      rw [List.cons_append] at ht hd ⊢
      simp only [dotted, hw, hb, ht, hd, if_false, decide_false, Bool.false_and,
        Bool.false_eq_true, hn]

theorem Dotted.head_ne {recursive : Bool} (h : Dotted recursive cs selector rest) :
    cs.head? ≠ some '.' := by
  cases h with
  | wildcard => simp
  | bracket => simp
  | name recursive hn _ h =>
    obtain ⟨c, cs, rfl⟩ := List.exists_cons_of_ne_nil hn
    rintro ⟨⟩
    cases h '.' List.mem_cons_self

theorem segment_eq_ok_iff {c : Char} {s : Segment} :
    segment c cs = .ok (s, rest) ↔ Begins (c :: cs) s rest := by
  constructor
  · intro h
    unfold segment at h
    split at h
    · next hb =>
      obtain ⟨⟨selector, rest⟩, h, he⟩ := map_eq_ok.1 h
      cases he
      cases hb
      exact .bracket (bracket_eq_ok_iff.1 h)
    · split at h
      · next hd =>
        cases hd
        split at h
        · obtain ⟨⟨selector, rest⟩, h, he⟩ := map_eq_ok.1 h
          cases he
          exact .dots (dotted_eq_ok_iff.1 h)
        · obtain ⟨⟨selector, rest⟩, h, he⟩ := map_eq_ok.1 h
          cases he
          exact .dot (dotted_eq_ok_iff.1 h)
      · cases h
  · intro h
    cases h with
    | bracket h =>
      unfold segment
      rw [if_pos rfl, bracket_eq_ok_iff.2 h]
      rfl
    | @dot cs _ _ h =>
      have hne := h.head_ne
      unfold segment
      rw [if_neg (by decide), if_pos rfl]
      split
      · exact absurd rfl hne
      · rw [dotted_eq_ok_iff.2 h]
        rfl
    | dots h =>
      unfold segment
      rw [if_neg (by decide), if_pos rfl]
      simp only [dotted_eq_ok_iff.2 h]
      rfl

end Reading

section Consumption

theorem Bracketed.consumed (h : Bracketed cs selector rest) :
    ∃ piece, cs = piece ++ rest ∧ ∀ behind, Bracketed (piece ++ behind) selector behind := by
  cases h with
  | @key quote text key rest hq h =>
    obtain ⟨inside, rfl, hi⟩ := quoted_consumed h
    refine ⟨quote :: (inside ++ [']']), by simp, fun behind => ?_⟩
    rw [List.cons_append, List.append_assoc]
    exact .key hq (hi 0 _)
  | wildcard rest => exact ⟨['*', ']'], rfl, .wildcard⟩
  | @index digits i hn hd hi rest =>
    refine ⟨digits ++ [']'], by simp, fun behind => ?_⟩
    rw [List.append_assoc]
    exact .index hn hd hi behind

theorem Dotted.consumed {recursive : Bool} (h : Dotted recursive cs selector rest) :
    ∃ piece, cs = piece ++ rest ∧ ∀ behind, Opens behind →
      Dotted recursive (piece ++ behind) selector behind := by
  cases h with
  | wildcard recursive rest => exact ⟨['*'], rfl, fun behind _ => .wildcard recursive behind⟩
  | bracket h =>
    obtain ⟨piece, rfl, hp⟩ := h.consumed
    exact ⟨'[' :: piece, rfl, fun behind _ => .bracket (hp behind)⟩
  | @name recursive name rest hn hs h hr =>
    exact ⟨name, rfl, fun _ ho => .name recursive hn hs h ho⟩

/-- What is consumed for a segment is read in the same way whatever stands behind it, as long as
that begins like a segment. -/
theorem Begins.consumed {s : Segment} (h : Begins cs s rest) :
    ∃ piece, cs = piece ++ rest ∧ ∀ behind, Opens behind → Begins (piece ++ behind) s behind := by
  cases h with
  | bracket h =>
    obtain ⟨piece, rfl, hp⟩ := h.consumed
    exact ⟨'[' :: piece, rfl, fun behind _ => .bracket (hp behind)⟩
  | dot h =>
    obtain ⟨piece, rfl, hp⟩ := h.consumed
    exact ⟨'.' :: piece, rfl, fun behind ho => .dot (hp behind ho)⟩
  | dots h =>
    obtain ⟨piece, rfl, hp⟩ := h.consumed
    exact ⟨'.' :: '.' :: piece, rfl, fun behind ho => .dots (hp behind ho)⟩

end Consumption

section Pieces

theorem Begins.opens {s : Segment} (h : Begins cs s rest) : Opens cs := by
  cases h <;> rintro c ⟨⟩ <;> rfl

theorem Begins.segments_eq {s : Segment} (h : Begins cs s rest) :
    segments cs = (segments rest).map (s :: ·) := by
  cases cs with
  | nil => cases h
  | cons c cs =>
    have hs := segment_eq_ok_iff.2 h
    rw [segments]
    split
    · next he => cases hs.symm.trans he
    · next he => cases hs.symm.trans he; rfl

/-- A path is empty or begins with a segment. -/
theorem segments_cases (h : segments cs = .ok found) :
    cs = [] ∧ found = [] ∨ ∃ s rest others, Begins cs s rest ∧ segments rest = .ok others ∧
      found = s :: others := by
  cases cs with
  | nil =>
    rw [segments] at h
    cases h
    exact .inl ⟨rfl, rfl⟩
  | cons c cs =>
    rw [segments] at h
    split at h
    · cases h
    · next s rest he =>
      obtain ⟨others, ho, hf⟩ := map_eq_ok.1 h
      exact .inr ⟨s, rest, others, segment_eq_ok_iff.1 he, ho, hf.symm⟩

theorem opens_of_segments (h : segments cs = .ok found) : Opens cs := by
  rcases segments_cases h with ⟨rfl, -⟩ | ⟨s, rest, others, hb, -⟩
  · rintro c ⟨⟩
  · exact hb.opens

theorem Opens.append (h : Opens cs) (h' : Opens more) : Opens (cs ++ more) := by
  cases cs with
  | nil => exact h'
  | cons c cs => exact h

/-- What stands behind a path is read on its own, if it begins where a segment may begin. -/
theorem segments_behind (h : segments cs = .ok found) (ho : Opens more) :
    segments (cs ++ more) = (segments more).map (found ++ ·) := by
  induction found generalizing cs with
  | nil =>
    rcases segments_cases h with ⟨rfl, -⟩ | ⟨_, _, _, -, -, ⟨⟩⟩
    rw [List.nil_append]
    cases segments more <;> rfl
  | cons s others ih =>
    rcases segments_cases h with ⟨-, ⟨⟩⟩ | ⟨_, rest, _, hb, hr, ⟨⟩⟩
    obtain ⟨piece, rfl, hp⟩ := hb.consumed
    rw [List.append_assoc, (hp _ ((opens_of_segments hr).append ho)).segments_eq, ih hr]
    cases segments more <;> rfl

/-- Paths that are written one behind the other are read as the segments of both. -/
theorem segments_append {found' : List Segment} (h : segments cs = .ok found)
    (h' : segments more = .ok found') : segments (cs ++ more) = .ok (found ++ found') := by
  rw [segments_behind h (opens_of_segments h'), h']
  rfl

/-- A piece of a path that is read alone as the segment. -/
def Piece (piece : String) (s : Segment) : Prop := piece ≠ "" ∧ compile ("$" ++ piece) = .ok [s]

private theorem compile_eq_ok_iff {path : String} :
    compile path = .ok found ↔ ∃ cs, path.toList = '$' :: cs ∧ segments cs = .ok found := by
  unfold compile
  split
  · next cs hp =>
    rw [ListReading.mapError_eq_ok, hp]
    simp
  · next hn =>
    refine iff_of_false nofun ?_
    rintro ⟨cs, hp, -⟩
    exact hn cs hp

theorem compile_root (path : String) :
    compile ("$" ++ path) = .ok found ↔ segments path.toList = .ok found := by
  rw [compile_eq_ok_iff, String.toList_append]
  simp

theorem Begins.ne_nil {s : Segment} (h : Begins cs s rest) : cs ≠ [] := by
  cases h <;> exact List.cons_ne_nil _ _

theorem Begins.piece {s : Segment} (h : Begins cs s []) : Piece (String.ofList cs) s := by
  refine ⟨by simpa using h.ne_nil, ?_⟩
  rw [compile_root, String.toList_ofList, h.segments_eq, segments]
  rfl

/-- A path is cut where its segments begin.  The induction is on the segments: behind the first
piece stands a path with one segment less. -/
theorem exists_pieces (h : segments cs = .ok found) :
    ∃ pieces : List String, cs = pieces.flatMap String.toList ∧
      List.Forall₂ Piece pieces found := by
  induction found generalizing cs with
  | nil =>
    rcases segments_cases h with ⟨rfl, -⟩ | ⟨_, _, _, -, -, ⟨⟩⟩
    exact ⟨[], rfl, .nil⟩
  | cons s others ih =>
    rcases segments_cases h with ⟨-, ⟨⟩⟩ | ⟨_, rest, _, hb, hr, ⟨⟩⟩
    obtain ⟨piece, rfl, hp⟩ := hb.consumed
    obtain ⟨pieces, rfl, hps⟩ := ih hr
    have halone := hp [] nofun
    rw [List.append_nil] at halone
    exact ⟨String.ofList piece :: pieces, by simp, .cons halone.piece hps⟩

/-- Paths written one behind the other are compiled to the segments of both, and every path that is
compiled is cut into pieces, each of which is compiled alone to its own segment. -/
theorem compilation_is_compositional :
    (∀ path more found found', compile ("$" ++ path) = .ok found →
      compile ("$" ++ more) = .ok found' →
      compile ("$" ++ path ++ more) = .ok (found ++ found')) ∧
    ∀ path found, compile path = .ok found →
      ∃ pieces, path = "$" ++ String.join pieces ∧ List.Forall₂ Piece pieces found := by
  constructor
  · intro path more found found' h h'
    rw [compile_root] at h h'
    rw [String.append_assoc, compile_root, String.toList_append]
    exact segments_append h h'
  · intro path found h
    obtain ⟨cs, hp, hs⟩ := compile_eq_ok_iff.1 h
    obtain ⟨pieces, rfl, hps⟩ := exists_pieces hs
    refine ⟨pieces, ?_, hps⟩
    rw [← String.toList_inj, hp, String.toList_append, String.toList_join]
    rfl

/-- The first path ends in a name that goes on to the next dot, and the second has a quote, a
bracket and dots within a key. -/
theorem compilation_is_compositional_names :
    compile "$..[3].a]" = .ok [⟨.index 3, true⟩, ⟨.key "a]", false⟩] ∧
    compile "$..*['.\\'[.']" = .ok [⟨.wildcard, true⟩, ⟨.key ".'[.", false⟩] ∧
    compile "$..[3].a]..*['.\\'[.']" =
      .ok [⟨.index 3, true⟩, ⟨.key "a]", false⟩, ⟨.wildcard, true⟩, ⟨.key ".'[.", false⟩] ∧
    ∃ pieces, "$..[3].a]" = "$" ++ String.join pieces ∧
      List.Forall₂ Piece pieces [⟨.index 3, true⟩, ⟨.key "a]", false⟩] :=
  have first : compile "$..[3].a]" = .ok [⟨.index 3, true⟩, ⟨.key "a]", false⟩] := by decide +kernel
  have second : compile "$..*['.\\'[.']" = .ok [⟨.wildcard, true⟩, ⟨.key ".'[.", false⟩] := by
    decide +kernel
  ⟨first, second, compilation_is_compositional.1 "..[3].a]" "..*['.\\'[.']" _ _ first second,
    compilation_is_compositional.2 _ _ first⟩

end Pieces

section Spelling

/-- The dots in front of a name or a star. -/
def dots (recursive : Bool) : List Char := if recursive then ['.', '.'] else ['.']

/-- What stands in front of a bracket. -/
def opening (recursive : Bool) : List Char := if recursive then ['.', '.'] else []

/-- A key with a backslash before each backslash and each quote of the kind that it is put in. -/
def escaped (quote : Char) (key : List Char) : List Char :=
  key.flatMap fun c => if c = '\\' ∨ c = quote then ['\\', c] else [c]

/-- What may stand in brackets for a selector. -/
inductive Inside : Selector → List Char → Prop
  | key {quote : Char} (hq : quote = '\'' ∨ quote = '"') (name : String) :
    Inside (.key name) (quote :: (escaped quote name.toList ++ [quote]))
  | wildcard : Inside .wildcard ['*']
  | index (zeros i : Nat) : Inside (.index i) (DecimalDigits.padded zeros i)

/-- The ways to write a segment. -/
inductive Spells : Segment → List Char → Prop
  | name (recursive : Bool) {name : String} (hn : name ≠ "") (hs : name.toList.head? ≠ some '*')
    (h : ∀ c ∈ name.toList, c ≠ '.' ∧ c ≠ '[') :
      Spells ⟨.key name, recursive⟩ (dots recursive ++ name.toList)
  | star (recursive : Bool) : Spells ⟨.wildcard, recursive⟩ (dots recursive ++ ['*'])
  | bracketed (recursive : Bool) {selector : Selector} {body : List Char}
    (h : Inside selector body) :
    Spells ⟨selector, recursive⟩ (opening recursive ++ '[' :: (body ++ [']']))

/-- A segment spelled with an index has no more digits than a number may have. -/
def Fits (s : Segment) (piece : List Char) : Prop :=
  ∀ i, s.selector = .index i → piece.countP DecimalDigits.isDecimal ≤ DecimalDigits.longest

/-- An escaped key ends at the quote behind it. -/
theorem quoted_escaped {quote : Char} (hq : quote ≠ '\\') (opened : Nat) (key rest : List Char) :
    quoted quote opened (escaped quote key ++ quote :: rest) = .ok (key, rest) := by
  induction key with
  | nil => rw [escaped, List.flatMap_nil, List.nil_append, quoted_cons hq, if_pos rfl]
  | cons c key ih =>
    rw [escaped, List.flatMap_cons, ← escaped]
    split
    · rw [List.append_assoc, List.cons_append, List.singleton_append, quoted, ih]
      rfl
    · next hc =>
      rw [not_or] at hc
      rw [List.append_assoc, List.singleton_append, quoted_cons hc.1, if_neg hc.2, ih]
      rfl

private theorem countP_opening (recursive : Bool) (zeros i : Nat) :
    (opening recursive ++ '[' :: (DecimalDigits.padded zeros i ++ [']'])).countP
      DecimalDigits.isDecimal =
      (DecimalDigits.padded zeros i).length := by
  have hall : (DecimalDigits.padded zeros i).countP DecimalDigits.isDecimal =
      (DecimalDigits.padded zeros i).length :=
    List.countP_eq_length.2 fun c hc => DecimalDigits.isDecimal_of_mem_padded hc
  have hb : DecimalDigits.isDecimal '[' = false ∧ DecimalDigits.isDecimal ']' = false ∧
      DecimalDigits.isDecimal '.' = false := by decide
  cases recursive <;> simp [opening, hall, hb]

private theorem isDigitLike_of_mem_padded {zeros i : Nat} {c : Char}
    (hc : c ∈ DecimalDigits.padded zeros i) :
    DecimalDigits.isDigitLike c = true := by
  rw [DecimalDigits.isDigitLike, DecimalDigits.isDecimal_of_mem_padded hc, Bool.true_or]

theorem Inside.bracketed {body : List Char} (h : Inside selector body)
    (hshort : ∀ i, selector = .index i → body.length ≤ DecimalDigits.longest) :
    Bracketed (body ++ [']']) selector [] := by
  cases h with
  | @key quote hq name =>
    have hb : quote ≠ '\\' := by
      rcases hq with rfl | rfl <;> decide
    have hk := Bracketed.key hq (quoted_escaped hb 0 name.toList [']'])
    rw [String.ofList_toList] at hk
    simpa using hk
  | wildcard => exact .wildcard []
  | index zeros i =>
    have hnumber := DecimalDigits.number?_of_length (hshort i rfl)
    rw [DecimalDigits.value?_padded] at hnumber
    exact .index (DecimalDigits.padded_ne_nil zeros i)
      (fun c hc => isDigitLike_of_mem_padded hc) hnumber []

private theorem Spells.inside_length {recursive : Bool} {body : List Char}
    (h : Inside selector body)
    (hfits : Fits ⟨selector, recursive⟩ (opening recursive ++ '[' :: (body ++ [']']))) :
    ∀ i, selector = .index i → body.length ≤ DecimalDigits.longest := by
  rintro i rfl
  cases h with
  | index zeros i =>
    have hcount := hfits i rfl
    rwa [countP_opening] at hcount

/-- A segment is begun and ended by each of its spellings, unless its index is too long. -/
theorem Spells.begins {s : Segment} {piece : List Char} (h : Spells s piece)
    (hfits : Fits s piece) :
    Begins piece s [] := by
  cases h with
  | @name recursive name hn hs h =>
    have hd : Dotted recursive name.toList (.key name) [] := by
      have hne : name.toList ≠ [] := by simpa using hn
      have hd := Dotted.name recursive hne hs (fun c hc => by simp [isNameEnd, h c hc])
        (show Opens [] from nofun)
      rwa [String.ofList_toList, List.append_nil] at hd
    cases recursive with
    | false => exact .dot hd
    | true => exact .dots hd
  | star recursive =>
    cases recursive with
    | false => exact .dot (.wildcard false [])
    | true => exact .dots (.wildcard true [])
  | bracketed recursive h =>
    have hb := h.bracketed (Spells.inside_length h hfits)
    cases recursive with
    | false => exact .bracket hb
    | true => exact .dots (.bracket hb)

theorem Spells.segments_eq {s : Segment} {piece : List Char} (h : Spells s piece)
    (hfits : Fits s piece) :
    segments piece = .ok [s] := by
  rw [(h.begins hfits).segments_eq, segments]
  rfl

private theorem exists_inside : ∀ selector, ∃ body, Inside selector body
  | .key name => ⟨_, .key (.inr rfl) name⟩
  | .wildcard => ⟨_, .wildcard⟩
  | .index i => ⟨_, .index 0 i⟩

private theorem segments_spelled {path : List Segment} {pieces : List (List Char)}
    (h : List.Forall₂ Spells path pieces) (hfits : List.Forall₂ Fits path pieces) :
    segments pieces.flatten = .ok path := by
  induction h with
  | nil =>
    rw [List.flatten_nil, segments]
  | cons h _ ih =>
    obtain ⟨hfits, hall⟩ := List.forall₂_cons.1 hfits
    rw [List.flatten_cons]
    exact segments_append (h.segments_eq hfits) (ih hall)

/-- Brackets around too many digits end the reading. -/
theorem bracket_longer {digits : List Char} (hd : ∀ c ∈ digits, DecimalDigits.isDigitLike c = true)
    (hlong : DecimalDigits.longest < digits.length) (rest : List Char) :
    bracket (digits ++ ']' :: rest) = .error (.noNumber (String.ofList digits)) := by
  have hn : digits ≠ [] := List.ne_nil_of_length_pos (Nat.zero_lt_of_lt hlong)
  rw [bracket_digits hn hd, DecimalDigits.number?_of_longer hlong]

theorem Spells.opens {s : Segment} {piece : List Char} (h : Spells s piece) (behind : List Char) :
    Opens (piece ++ behind) := by
  cases h with
  | @name recursive name => cases recursive <;> rintro c ⟨⟩ <;> rfl
  | star recursive => cases recursive <;> rintro c ⟨⟩ <;> rfl
  | bracketed recursive => cases recursive <;> rintro c ⟨⟩ <;> rfl

private theorem opens_spelled {path : List Segment} {pieces : List (List Char)}
    (h : List.Forall₂ Spells path pieces) : Opens pieces.flatten := by
  cases h with
  | nil => rintro c ⟨⟩
  | cons h _ =>
    rw [List.flatten_cons]
    exact h.opens _

/-- A segment that begins with a bracket is read from what stands in it. -/
theorem bracket_of_begins {recursive : Bool} {body : List Char} {s : Segment}
    (h : Begins (opening recursive ++ '[' :: body) s rest) :
    bracket body = .ok (s.selector, rest) := by
  cases recursive with
  | false =>
    cases h with
    | bracket h => exact bracket_eq_ok_iff.2 h
  | true =>
    cases h with
    | dot h => exact absurd rfl h.head_ne
    | dots h => exact dotted_eq_ok_iff.2 h

private theorem Spells.fits {s : Segment} {piece behind : List Char} (h : Spells s piece)
    (hread : segments (piece ++ behind) = .ok found) : Fits s piece := by
  intro i hi
  cases h with
  | name => cases hi
  | star => cases hi
  | @bracketed recursive selector body h =>
    cases hi
    cases h with
    | index zeros i =>
      have hsplit : opening recursive ++ '[' :: (DecimalDigits.padded zeros i ++ [']']) ++ behind =
          opening recursive ++ '[' :: (DecimalDigits.padded zeros i ++ ']' :: behind) := by simp
      rw [hsplit] at hread
      rcases segments_cases hread with ⟨hnil, -⟩ | ⟨_, _, _, hbegins, -⟩
      · cases recursive <;> cases hnil
      · rw [countP_opening]
        by_contra hlong
        have herror :=
          bracket_longer (fun c hc => isDigitLike_of_mem_padded hc) (Nat.lt_of_not_le hlong) behind
        cases herror.symm.trans (bracket_of_begins hbegins)

private theorem fits_of_segments {path : List Segment} {pieces : List (List Char)}
    (h : List.Forall₂ Spells path pieces) (hread : segments pieces.flatten = .ok path) :
    List.Forall₂ Fits path pieces := by
  induction h with
  | nil => exact .nil
  | cons h hrest ih =>
    rw [List.flatten_cons] at hread
    have hfits := h.fits hread
    rw [segments_behind (h.segments_eq hfits) (opens_spelled hrest)] at hread
    obtain ⟨others, hothers, he⟩ := map_eq_ok.1 hread
    cases he
    exact .cons hfits (ih hothers)

/-- Every segment can be spelled, and a path is read back from its segments, however each is
spelled, if and only if no index is too long. -/
theorem spellings_are_read_back :
    (∀ s, ∃ piece, Spells s piece) ∧
    ∀ path pieces, List.Forall₂ Spells path pieces →
      (compile (String.ofList ('$' :: pieces.flatten)) = .ok path ↔
        List.Forall₂ Fits path pieces) := by
  constructor
  · intro s
    obtain ⟨body, h⟩ := exists_inside s.selector
    exact ⟨_, .bracketed s.recursive h⟩
  · intro path pieces h
    have hroot : String.ofList ('$' :: pieces.flatten) = "$" ++ String.ofList pieces.flatten := by
      rw [← String.toList_inj]
      simp
    rw [hroot, compile_root, String.toList_ofList]
    exact ⟨fits_of_segments h, segments_spelled h⟩

private theorem not_read_back_of_longer {zeros n : Nat}
    (h : DecimalDigits.longest < (DecimalDigits.padded zeros n).length) :
    compile (String.ofList ('$' :: '[' :: (DecimalDigits.padded zeros n ++ [']']))) ≠
      .ok [⟨.index n, false⟩] := by
  intro hread
  obtain ⟨cs, hcs, hread⟩ := compile_eq_ok_iff.1 hread
  rw [String.toList_ofList] at hcs
  cases hcs
  have hfits := (Spells.bracketed false (.index zeros n)).fits
    ((congrArg segments (List.append_nil _)).trans hread) n rfl
  rw [countP_opening] at hfits
  exact Nat.not_le.2 h hfits

/-- A number may have too many digits, and too many zeros may stand in front of it. -/
theorem long_spelling_is_not_read_back :
    Spells ⟨.index (10 ^ DecimalDigits.longest), false⟩
      ('[' :: (DecimalDigits.padded 0 (10 ^ DecimalDigits.longest) ++ [']'])) ∧
    compile (String.ofList
      ('$' :: '[' :: (DecimalDigits.padded 0 (10 ^ DecimalDigits.longest) ++ [']']))) ≠
      .ok [⟨.index (10 ^ DecimalDigits.longest), false⟩] ∧
    Spells ⟨.index 1, false⟩ ('[' :: (DecimalDigits.padded 4300 1 ++ [']'])) ∧
    compile (String.ofList ('$' :: '[' :: (DecimalDigits.padded 4300 1 ++ [']']))) ≠
      .ok [⟨.index 1, false⟩] :=
  ⟨.bracketed false (.index 0 _),
    not_read_back_of_longer (DecimalDigits.longest_lt_length_padded (Nat.le_refl _)),
    .bracketed false (.index 4300 1),
      not_read_back_of_longer (DecimalDigits.length_padded 4300 1 ▸ by decide)⟩

/-- Quotes and a backslash in one key, a key that is empty, zeros in front of a number, and stars
with and without brackets. -/
theorem spellings_are_read_back_quotes :
    List.Forall₂ Spells
      [⟨.key "a]", false⟩, ⟨.key "'\"\\", false⟩, ⟨.key "", true⟩,
        ⟨.index 7, true⟩, ⟨.wildcard, true⟩,
        ⟨.wildcard, false⟩]
      [".a]".toList, "['\\'\"\\\\']".toList, "..[\"\"]".toList, "..[007]".toList,
        "..*".toList, "[*]".toList] ∧
    compile "$.a]['\\'\"\\\\']..[\"\"]..[007]..*[*]" =
      .ok [⟨.key "a]", false⟩, ⟨.key "'\"\\", false⟩, ⟨.key "", true⟩,
        ⟨.index 7, true⟩, ⟨.wildcard, true⟩,
        ⟨.wildcard, false⟩] :=
  have spelled :=
    .cons (.name false (by decide) (by decide) (by simp)) <|
      .cons (.bracketed false (.key (.inl rfl) _)) <|
      .cons (.bracketed true (.key (.inr rfl) _)) <| .cons (.bracketed true (.index 2 7)) <|
      .cons (.star true) <| .cons (.bracketed false .wildcard) .nil
  have fits :=
    .cons nofun <| .cons nofun <| .cons nofun <| .cons (fun _ _ => by decide) <|
      .cons nofun <| .cons nofun .nil
  ⟨spelled, (spellings_are_read_back.2 _ _ spelled).2 fits⟩

end Spelling
end BuildAlign.JsonPath
