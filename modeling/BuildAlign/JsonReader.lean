import BuildAlign.JsonValue
import BuildAlign.MessageTexts

/-! # Reading JSON

A text is cut into tokens, and a stack machine puts the tokens together to a value.  Only space,
tab, line feed and carriage return may stand between tokens.  `NaN` and the infinities are
numbers. -/
namespace BuildAlign

/-- Why a text is no document. -/
inductive JsonFault
  | malformed
  /-- An integer has too many digits. -/
  | longInteger (digits : String)
deriving DecidableEq, Repr

def JsonFault.message : JsonFault → String
  | malformed => "malformed JSON document"
  | longInteger digits => QuotedText.digitsFault digits

namespace JsonReader

inductive Token
  | openArray | closeArray | openObject | closeObject | comma | colon
  | text (s : LooseText)
  | scalar (value : JsonValue)
deriving Repr, Inhabited

section Tokens

def isDigit (c : Char) : Bool := '0' ≤ c && c ≤ '9'

def hexDigit? (c : Char) : Option Nat :=
  if '0' ≤ c && c ≤ '9' then some (c.toNat - '0'.toNat)
  else if 'a' ≤ c && c ≤ 'f' then some (c.toNat - 'a'.toNat + 10)
  else if 'A' ≤ c && c ≤ 'F' then some (c.toNat - 'A'.toNat + 10)
  else none

def unit? (a b c d : Char) : Option Nat := do
  return (((← hexDigit? a) * 16 + (← hexDigit? b)) * 16 + (← hexDigit? c)) * 16 + (← hexDigit? d)

def isHighSurrogate (n : Nat) : Bool := 0xD800 ≤ n && n < 0xDC00
def isLowSurrogate (n : Nat) : Bool := 0xDC00 ≤ n && n < 0xE000

/-- One code unit, which may be half of a surrogate pair. -/
def unitChar (n : Nat) : LooseChar :=
  if isHighSurrogate n || isLowSurrogate n then .half n else .char (Char.ofNat n)

def simpleEscape? (c : Char) : Option Char :=
  match c with
  | '"' => some '"'
  | '\\' => some '\\'
  | '/' => some '/'
  | 'b' => some '\x08'
  | 'f' => some '\x0c'
  | 'n' => some '\n'
  | 'r' => some '\r'
  | 't' => some '\t'
  | _ => none

/-- The characters of a string up to its closing quote, and what stands behind it. -/
def string : List Char → Option (LooseText × List Char)
  | [] => none
  | '"' :: cs => some ([], cs)
  | '\\' :: 'u' :: a :: b :: c :: d :: '\\' :: 'u' :: a' :: b' :: c' :: d' :: cs => do
    let high ← unit? a b c d
    let low ← unit? a' b' c' d'
    if isHighSurrogate high && isLowSurrogate low then
      let (rest, behind) ← string cs
      return (.char (.ofNat ((high - 0xD800) * 0x400 + (low - 0xDC00) + 0x10000)) :: rest, behind)
    else
      let (rest, behind) ← string ('\\' :: 'u' :: a' :: b' :: c' :: d' :: cs)
      return (unitChar high :: rest, behind)
  | '\\' :: 'u' :: a :: b :: c :: d :: cs => do
    let unit ← unit? a b c d
    let (rest, behind) ← string cs
    return (unitChar unit :: rest, behind)
  | '\\' :: c :: cs => do
    let character ← simpleEscape? c
    let (rest, behind) ← string cs
    return (.char character :: rest, behind)
  | c :: cs =>
    if c.toNat < 0x20 then none else (string cs).map fun (rest, behind) => (.char c :: rest, behind)

def digitsValue (ds : List Char) : Nat := ds.foldl (fun n d => n * 10 + (d.toNat - '0'.toNat)) 0

/-- The digits behind a point, none when the point is not followed by one. -/
def fraction : List Char → List Char × List Char
  | '.' :: c :: cs =>
    if isDigit c then ((c :: cs).takeWhile isDigit, (c :: cs).dropWhile isDigit)
      else ([], '.' :: c :: cs)
  | cs => ([], cs)

/-- The exponent, if a complete one follows. -/
def exponent? (cs : List Char) : Option (Int × List Char) :=
  match cs with
  | e :: cs =>
    if e = 'e' || e = 'E' then
      let (sign, cs) := match cs with
        | '-' :: cs => ((-1 : Int), cs)
        | '+' :: cs => (1, cs)
        | cs => (1, cs)
      let ds := cs.takeWhile isDigit
      if ds = [] then none else some (sign * digitsValue ds, cs.dropWhile isDigit)
    else none
  | [] => none

/-- A number without its sign.  A leading zero stands alone before the point.  An integer may have
only so many digits. -/
def number? (negative : Bool) (cs : List Char) : Option (JsonValue × List Char) :=
  let (whole, cs) := match cs with
    | '0' :: cs => (['0'], cs)
    | cs => (cs.takeWhile isDigit, cs.dropWhile isDigit)
  if whole = [] then none
  else
    let (places, cs) := fraction cs
    let exact := Double.ofDecimal negative (digitsValue (whole ++ places))
    match exponent? cs with
    | some (e, cs) => some (.double (exact (e - places.length)), cs)
    | none =>
      if places = [] then
        let n : Int := digitsValue whole
        if DecimalDigits.longest < whole.length then none
        else some (.integer (if negative then -n else n), cs)
      else some (.double (exact (-places.length)), cs)

def words : List (List Char × JsonValue) :=
  [("null".toList, .null), ("true".toList, .bool true), ("false".toList, .bool false),
   ("NaN".toList, .double .nan), ("Infinity".toList, .double (.infinite false)),
   ("-Infinity".toList, .double (.infinite true))]

def word? (cs : List Char) : Option (JsonValue × List Char) :=
  (words.find? fun (w, _) => w.isPrefixOf cs).map fun (w, value) => (value, cs.drop w.length)

def isSpace (c : Char) : Bool := c = ' ' || c = '\t' || c = '\n' || c = '\r'

/-- The token that a text begins with. -/
def token? : List Char → Option (Token × List Char)
  | '[' :: cs => some (.openArray, cs)
  | ']' :: cs => some (.closeArray, cs)
  | '\x7b' :: cs => some (.openObject, cs)
  | '\x7d' :: cs => some (.closeObject, cs)
  | ',' :: cs => some (.comma, cs)
  | ':' :: cs => some (.colon, cs)
  | '"' :: cs => (string cs).map fun (s, rest) => (.text s, rest)
  | cs =>
    match word? cs with
    | some (value, rest) => some (.scalar value, rest)
    | none =>
      let number := match cs with
        | '-' :: cs => number? true cs
        | cs => number? false cs
      number.map fun (value, rest) => (.scalar value, rest)

/-- The tokens of a text up to where none begins, and what is left from there.  Every token takes at
least one character. -/
def tokensBefore (cs : List Char) : List Token × List Char :=
  match cs with
  | [] => ([], [])
  | c :: rest =>
    if isSpace c then tokensBefore rest
    else match token? (c :: rest) with
      | none => ([], c :: rest)
      | some (t, behind) =>
        if behind.length ≤ rest.length then
          let (ts, left) := tokensBefore behind
          (t :: ts, left)
        else ([], c :: rest)
termination_by cs.length

/-- The tokens of a text that consists of nothing else. -/
def tokens (cs : List Char) : Option (List Token) :=
  match tokensBefore cs with
  | (ts, []) => some ts
  | _ => none

theorem tokens_eq_some_iff {cs : List Char} {ts : List Token} :
    tokens cs = some ts ↔ tokensBefore cs = (ts, []) := by
  unfold tokens
  split
  · next found he => rw [he, Option.some.injEq, Prod.mk.injEq, and_iff_left rfl]
  · next hn => exact iff_of_false nofun fun he => hn ts he

/-- The digits of the integer that a text begins with, if they are too many. -/
def longInteger? (cs : List Char) : Option String :=
  let digits := (match cs with
    | '-' :: cs => cs
    | cs => cs).takeWhile isDigit
  if DecimalDigits.longest < digits.length then some (String.ofList digits) else none

end Tokens

/-- A container that is not complete yet, with what has been read of it. -/
inductive Frame
  | array (before : List JsonValue)
  | object (before : List (LooseText × JsonValue)) (key : LooseText)

/-- What may follow. -/
inductive Phase
  | value
  | firstItem
  | firstKey
  | key (before : List (LooseText × JsonValue))
  | colon (before : List (LooseText × JsonValue)) (key : LooseText)
  | done (value : JsonValue)

structure State where
  phase : Phase
  stack : List Frame

def startValue (stack : List Frame) : Token → Option State
  | .scalar value => some ⟨.done value, stack⟩
  | .text s => some ⟨.done (.text s), stack⟩
  | .openArray => some ⟨.firstItem, stack⟩
  | .openObject => some ⟨.firstKey, stack⟩
  | _ => none

def step (state : State) (t : Token) : Option State :=
  match state.phase, t, state.stack with
  | .value, t, stack => startValue stack t
  | .firstItem, .closeArray, stack => some ⟨.done (.array []), stack⟩
  | .firstItem, t, stack => startValue (.array [] :: stack) t
  | .firstKey, .closeObject, stack => some ⟨.done (.object []), stack⟩
  | .firstKey, .text name, stack => some ⟨.colon [] name, stack⟩
  | .key before, .text name, stack => some ⟨.colon before name, stack⟩
  | .colon before name, .colon, stack => some ⟨.value, .object before name :: stack⟩
  | .done v, .comma, .array before :: stack => some ⟨.value, .array (before ++ [v]) :: stack⟩
  | .done v, .closeArray, .array before :: stack => some ⟨.done (.array (before ++ [v])), stack⟩
  | .done v, .comma, .object before name :: stack =>
    some ⟨.key (OrderedMap.put name v before), stack⟩
  | .done v, .closeObject, .object before name :: stack =>
    some ⟨.done (.object (OrderedMap.put name v before)), stack⟩
  | _, _, _ => none

def start : State := ⟨.value, []⟩

def assemble (ts : List Token) : Option JsonValue :=
  match ts.foldlM step start with
  | some ⟨.done value, []⟩ => some value
  | _ => none

/-- The document that a text writes, if it is well formed. -/
def read? (text : String) : Option JsonValue := (tokens text.toList).bind assemble

/-- Whether a value may come next. -/
def State.awaitsValue (state : State) : Bool :=
  match state.phase with
  | .value | .firstItem => true
  | _ => false

/-- Why a text cannot be read.  What stands behind the first fault does not matter. -/
def faultOf (text : String) : JsonFault :=
  let (ts, left) := tokensBefore text.toList
  match ts.foldlM step start, longInteger? left with
  | some state, some digits => if state.awaitsValue then .longInteger digits else .malformed
  | _, _ => .malformed

def read (text : String) : Except JsonFault JsonValue :=
  match read? text with
  | some doc => .ok doc
  | none => .error (faultOf text)

theorem read_of_some {text : String} {doc : JsonValue} (h : read? text = some doc) :
    read text = .ok doc := by
  rw [read, h]

theorem read_of_none {text : String} (h : read? text = none) :
    read text = .error (faultOf text) := by
  rw [read, h]

end JsonReader
end BuildAlign
