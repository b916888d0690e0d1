import BuildAlign.CharacterClasses
import BuildAlign.MessageTexts

/-! # Paths into JSON documents

A path begins with `$` and goes on in segments: `.name` and `["name"]` for members, `[n]` for items,
`.*` and `[*]` for all of them.  With two dots in front, as in `..name` or `..[n]`, a segment
selects below every node of the subtree. -/
namespace BuildAlign

inductive Selector
  | key (name : String)
  | index (i : Nat)
  | wildcard
deriving DecidableEq, Repr

structure Segment where
  selector : Selector
  recursive : Bool
deriving DecidableEq, Repr

/-- Why a text is no path.  A place in the path is given by the number of characters from there to
the end. -/
inductive PathFault
  | noRoot
  | noName (left : Nat)
  | openBracket (left : Nat)
  | pendingEscape
  | openQuote (left : Nat)
  | openKey (left : Nat)
  | openWildcard (left : Nat)
  | noIndex (left : Nat)
  | openIndex (left : Nat)
  | danglingDot
  | unexpected (c : Char) (left : Nat)
  /-- The digits of the index are too many, or among them are signs that have no place value. -/
  | noNumber (digits : String)
deriving DecidableEq, Repr

structure JsonPathError where
  path : String
  fault : PathFault
deriving DecidableEq, Repr

def PathFault.text (length : Nat) : PathFault → String
  | noRoot => "JSON path must start with '$':"
  | noName left => s!"Expected member name at position {length - left} in"
  | openBracket left => s!"Unclosed '[' at position {length - left} in"
  | pendingEscape => "Trailing backslash in quoted key in"
  | openQuote left => s!"Unclosed quoted key at position {length - left} in"
  | openKey left => s!"Expected ']' after quoted key at position {length - left} in"
  | openWildcard left => s!"Expected ']' after '*' at position {length - left} in"
  | noIndex left => s!"Expected non-negative integer index after '[' at position {length - left} in"
  | openIndex left => s!"Expected ']' after index at position {length - left} in"
  | danglingDot => "Path ends after '.' in"
  | unexpected c left => s!"Unexpected '{c}' at position {length - left} in"
  | noNumber digits => QuotedText.digitsFault digits

def JsonPathError.message (e : JsonPathError) : String :=
  match e.fault with
  | .noNumber _ => e.fault.text e.path.length
  | fault => s!"{fault.text e.path.length} '{e.path}'"

namespace JsonPath

/-- The characters of a quoted key up to its closing quote, and what stands behind it.  A backslash
makes the next character literal. -/
def quoted (quote : Char) (opened : Nat) : List Char → Except PathFault (List Char × List Char)
  | [] => .error (.openQuote opened)
  | '\\' :: c :: cs => (quoted quote opened cs).map fun (key, rest) => (c :: key, rest)
  | ['\\'] => .error .pendingEscape
  | c :: cs =>
    if c = quote then .ok ([], cs)
    else (quoted quote opened cs).map fun (key, rest) => (c :: key, rest)

/-- What follows when a bracket closes as it should. -/
def close (fault : PathFault) : List Char → Except PathFault (List Char)
  | ']' :: cs => .ok cs
  | _ => .error fault

/-- The selector behind an opening bracket. -/
def bracket (cs : List Char) : Except PathFault (Selector × List Char) :=
  let opened := cs.length + 1
  match cs with
  | [] => .error (.openBracket opened)
  | c :: rest =>
    if c = '\'' || c = '"' then do
      let (key, rest) ← quoted c opened rest
      let rest ← close (.openKey rest.length) rest
      return (.key (String.ofList key), rest)
    else if c = '*' then do
      let rest ← close (.openWildcard cs.length) rest
      return (.wildcard, rest)
    else
      let digits := cs.takeWhile DecimalDigits.isDigitLike
      let rest := cs.dropWhile DecimalDigits.isDigitLike
      if digits = [] then .error (.noIndex opened)
      else do
        let rest ← close (.openIndex rest.length) rest
        match DecimalDigits.number? digits with
        | some i => .ok (.index i, rest)
        | none => .error (.noNumber (String.ofList digits))

def isNameEnd (c : Char) : Bool := c = '.' || c = '['

/-- The selector behind the dots of a segment. -/
def dotted (recursive : Bool) (cs : List Char) : Except PathFault (Selector × List Char) :=
  match cs with
  | [] => .error .danglingDot
  | c :: rest =>
    if c = '*' then .ok (.wildcard, rest)
    else if c = '[' && recursive then bracket rest
    else
      let name := cs.takeWhile (!isNameEnd ·)
      if name = [] then .error (.noName cs.length)
      else .ok (.key (String.ofList name), cs.dropWhile (!isNameEnd ·))

/-- The segment that begins with `c`, and what stands behind it. -/
def segment (c : Char) (cs : List Char) : Except PathFault (Segment × List Char) :=
  if c = '[' then (bracket cs).map fun (selector, rest) => (⟨selector, false⟩, rest)
  else if c = '.' then
    match cs with
    | '.' :: cs => (dotted true cs).map fun (selector, rest) => (⟨selector, true⟩, rest)
    | cs => (dotted false cs).map fun (selector, rest) => (⟨selector, false⟩, rest)
  else .error (.unexpected c (cs.length + 1))

theorem map_eq_ok {ε α β : Type} {x : Except ε α} {f : α → β} {b : β} :
    x.map f = .ok b ↔ ∃ a, x = .ok a ∧ f a = b := by
  cases x <;> simp [Except.map]

theorem bind_eq_ok {ε α β : Type} {x : Except ε α} {f : α → Except ε β} {b : β} :
    x >>= f = .ok b ↔ ∃ a, x = .ok a ∧ f a = .ok b := by
  cases x <;> simp [bind, Except.bind]

private theorem length_of_quoted {quote : Char} {opened : Nat} {cs key rest : List Char}
    (h : quoted quote opened cs = .ok (key, rest)) : rest.length < cs.length := by
  fun_induction quoted quote opened cs generalizing key rest with
  | case1 => simp at h
  | case2 c cs ih =>
    obtain ⟨⟨k, r⟩, hk, he⟩ := map_eq_ok.1 h
    simp only [Prod.mk.injEq] at he
    have := ih hk
    simp only [List.length_cons, ← he.2]; omega
  | case3 => simp at h
  | case4 cs =>
    simp only [Except.ok.injEq, Prod.mk.injEq] at h
    simp [← h.2]
  | case5 c cs _ _ _ ih =>
    obtain ⟨⟨k, r⟩, hk, he⟩ := map_eq_ok.1 h
    simp only [Prod.mk.injEq] at he
    have := ih hk
    simp only [List.length_cons, ← he.2]; omega

private theorem length_of_close {fault : PathFault} {cs rest : List Char}
    (h : close fault cs = .ok rest) : rest.length < cs.length := by
  unfold close at h
  split at h
  · simp only [Except.ok.injEq] at h; simp [h]
  · simp at h

private theorem length_dropWhile_le (p : Char → Bool) (cs : List Char) :
    (cs.dropWhile p).length ≤ cs.length := (List.dropWhile_sublist p).length_le

private theorem length_of_bracket {cs rest : List Char} {s : Selector}
    (h : bracket cs = .ok (s, rest)) : rest.length < cs.length := by
  unfold bracket at h
  cases cs with
  | nil => simp at h
  | cons c cs =>
    simp only at h
    split at h
    · obtain ⟨⟨key, behind⟩, hq, h⟩ := bind_eq_ok.1 h
      obtain ⟨behind', hc, h⟩ := bind_eq_ok.1 h
      simp only [pure, Except.pure, Except.ok.injEq, Prod.mk.injEq] at h
      have : behind.length < cs.length := length_of_quoted hq
      have := length_of_close hc
      simp only [List.length_cons, ← h.2]
      simp only at this
      omega
    · split at h
      · obtain ⟨behind, hc, h⟩ := bind_eq_ok.1 h
        simp only [pure, Except.pure, Except.ok.injEq, Prod.mk.injEq] at h
        have := length_of_close hc
        simp only [List.length_cons, ← h.2]; omega
      · split at h
        · simp at h
        · obtain ⟨behind, hc, h⟩ := bind_eq_ok.1 h
          have := length_of_close hc
          have := length_dropWhile_le DecimalDigits.isDigitLike (c :: cs)
          split at h
          · simp only [Except.ok.injEq, Prod.mk.injEq] at h
            rw [← h.2]; omega
          · simp at h

private theorem length_of_dotted {recursive : Bool} {cs rest : List Char} {s : Selector}
    (h : dotted recursive cs = .ok (s, rest)) : rest.length ≤ cs.length := by
  unfold dotted at h
  cases cs with
  | nil => simp at h
  | cons c cs =>
    simp only at h
    split at h
    · simp only [Except.ok.injEq, Prod.mk.injEq] at h
      simp [← h.2]
    · split at h
      · have := length_of_bracket h
        simp only [List.length_cons]; omega
      · split at h
        · simp at h
        · simp only [Except.ok.injEq, Prod.mk.injEq] at h
          rw [← h.2]; exact length_dropWhile_le _ _

private theorem length_of_segment {c : Char} {cs rest : List Char} {s : Segment}
    (h : segment c cs = .ok (s, rest)) : rest.length ≤ cs.length := by
  unfold segment at h
  split at h
  · obtain ⟨⟨_, r⟩, hb, he⟩ := map_eq_ok.1 h
    simp only [Prod.mk.injEq] at he
    rw [← he.2]; exact Nat.le_of_lt (length_of_bracket hb)
  · split at h
    · split at h
      · obtain ⟨⟨_, r⟩, hb, he⟩ := map_eq_ok.1 h
        simp only [Prod.mk.injEq] at he
        have := length_of_dotted hb
        rw [← he.2, List.length_cons]; omega
      · obtain ⟨⟨_, r⟩, hb, he⟩ := map_eq_ok.1 h
        simp only [Prod.mk.injEq] at he
        rw [← he.2]; exact length_of_dotted hb
    · simp at h

/-- The segments behind the root. -/
def segments (cs : List Char) : Except PathFault (List Segment) :=
  match cs with
  | [] => .ok []
  | c :: cs =>
    match h : segment c cs with
    | .error fault => .error fault
    | .ok (s, rest) =>
      have := length_of_segment h
      (segments rest).map (s :: ·)
termination_by cs.length

def compile (path : String) : Except JsonPathError (List Segment) :=
  match path.toList with
  | '$' :: cs => (segments cs).mapError (⟨path, ·⟩)
  | _ => .error ⟨path, .noRoot⟩

end JsonPath
end BuildAlign
