import BuildAlign.LineEnds
import BuildAlign.XmlCharacters

/-! # Tokens of XML content

Content is cut into tags, comments, instructions, references and the text between them, names being
made of an alphabet.  A text that cannot be cut is not well formed; no reason is given. -/
namespace BuildAlign.XmlTokens
open XmlCharacters

/-- A name as written, with the qualifier before its colon. -/
structure QualifiedName where
  qualifier : Option String
  label : String
deriving DecidableEq, Repr, Inhabited

/-- Part of an attribute value: a character as written, one that was referred to, or an entity. -/
inductive ValuePiece
  | char (c : Char)
  | literal (c : Char)
  | entity (name : String)
deriving DecidableEq, Repr

abbrev RawAttribute := QualifiedName × List ValuePiece

inductive Token
  | text (cs : List Char)
  /-- Characters that are no markup: referred to by number, or a character data section. -/
  | quoted (cs : List Char)
  | reference (entity : String)
  | openTag (name : QualifiedName) (attributes : List RawAttribute) (closed : Bool)
  | closeTag (name : QualifiedName)
  | comment (cs : List Char)
  | instruction
deriving Repr

inductive Reference
  | character (c : Char)
  | entity (name : String)
deriving DecidableEq, Repr

def skipSpace (cs : List Char) : List Char := cs.dropWhile isSpace

/-- What stands behind `start`. -/
def behind? (start cs : List Char) : Option (List Char) :=
  if start.isPrefixOf cs then some (cs.drop start.length) else none

/-- What stands before and behind the first occurrence of `mark`. -/
def untilMark (mark : List Char) : List Char → Option (List Char × List Char)
  | [] => none
  | c :: cs =>
    if mark.isPrefixOf (c :: cs) then some ([], (c :: cs).drop mark.length)
    else (untilMark mark cs).map fun (before, behind) => (c :: before, behind)

def name (a : Alphabet) : List Char → Option (String × List Char)
  | [] => none
  | c :: cs =>
    if isNameStart a c then
      some (String.ofList (c :: cs.takeWhile (isNameChar a)), cs.dropWhile (isNameChar a))
    else none

def qualifiedName (a : Alphabet) (cs : List Char) : Option (QualifiedName × List Char) := do
  let (first, rest) ← name a cs
  match rest with
  | ':' :: rest =>
    let (label, rest) ← name a rest
    return (⟨some first, label⟩, rest)
  | rest => return (⟨none, first⟩, rest)

def hexValue? (c : Char) : Option Nat :=
  if isAsciiDigit c then some (c.toNat - '0'.toNat)
  else if 'a' ≤ c && c ≤ 'f' then some (c.toNat - 'a'.toNat + 10)
  else if 'A' ≤ c && c ≤ 'F' then some (c.toNat - 'A'.toNat + 10)
  else none

/-- The character with the code point that the digits write, up to the semicolon. -/
def characterNumber (base : Nat) (cs : List Char) : Option (Char × List Char) := do
  let (digits, rest) ← untilMark [';'] cs
  if digits = [] then none
  else
    let value ← digits.foldlM (fun n c => do
      let d ← hexValue? c
      if d < base then some (n * base + d) else none) 0
    if h : value.isValidChar then
      let c := Char.ofNatAux value h
      if isAllowed c then some (c, rest) else none
    else none

def predefined? (entity : String) : Option Char :=
  match entity with
  | "amp" => some '&'
  | "lt" => some '<'
  | "gt" => some '>'
  | "apos" => some '\''
  | "quot" => some '"'
  | _ => none

/-- The reference behind an ampersand. -/
def reference (a : Alphabet) (cs : List Char) : Option (Reference × List Char) :=
  match cs with
  | '#' :: 'x' :: cs => (characterNumber 16 cs).map fun (c, rest) => (.character c, rest)
  | '#' :: cs => (characterNumber 10 cs).map fun (c, rest) => (.character c, rest)
  | cs =>
    match name a cs with
    | some (entity, ';' :: rest) =>
      match predefined? entity with
      | some c => some (.character c, rest)
      | none => some (.entity entity, rest)
    | _ => none

/-- The pieces of an attribute value up to its quote, or up to the end of the text when there is
none.  White space as written counts as a space. -/
def valuePieces (a : Alphabet) (quote : Option Char) (cs : List Char) :
    Option (List ValuePiece × List Char) :=
  match cs with
  | [] => if quote.isNone then some ([], []) else none
  | c :: rest =>
    if some c = quote then some ([], rest)
    else if c = '<' || !isAllowed c then none
    else if c = '&' then do
      let (r, behind) ← reference a rest
      if behind.length ≤ rest.length then
        let (pieces, behind) ← valuePieces a quote behind
        match r with
        | .character c => return (.literal c :: pieces, behind)
        | .entity entity => return (.entity entity :: pieces, behind)
      else none
    else do
      let (pieces, behind) ← valuePieces a quote rest
      return (.char (if isSpace c then ' ' else c) :: pieces, behind)
termination_by cs.length

def singleAttribute (a : Alphabet) (cs : List Char) : Option (RawAttribute × List Char) := do
  let (name, rest) ← qualifiedName a cs
  match skipSpace rest with
  | '=' :: rest =>
    match skipSpace rest with
    | c :: rest =>
      if c = '"' || c = '\'' then
        let (pieces, rest) ← valuePieces a (some c) rest
        return ((name, pieces), rest)
      else none
    | [] => none
  | _ => none

/-- The attributes of a start tag up to its end, and whether that is the end of the element too. -/
def attributes (a : Alphabet) (cs : List Char) : Option (List RawAttribute × Bool × List Char) :=
  match skipSpace cs with
  | '>' :: rest => some ([], false, rest)
  | '/' :: '>' :: rest => some ([], true, rest)
  | rest =>
    if rest.length = cs.length then none
    else do
      let (first, behind) ← singleAttribute a rest
      if behind.length < cs.length then
        let (others, closed, behind) ← attributes a behind
        return (first :: others, closed, behind)
      else none
termination_by cs.length

def openTag (a : Alphabet) (cs : List Char) : Option (Token × List Char) := do
  let (name, rest) ← qualifiedName a cs
  let (attributes, closed, rest) ← attributes a rest
  return (.openTag name attributes closed, rest)

def closeTag (a : Alphabet) (cs : List Char) : Option (Token × List Char) := do
  let (name, rest) ← qualifiedName a cs
  let rest ← behind? ['>'] (skipSpace rest)
  return (.closeTag name, rest)

/-- The comment behind its opening.  Two hyphens only occur at its end.  Line ends are normal in a
comment, even where those of its surroundings are not. -/
def comment (cs : List Char) : Option (Token × List Char) := do
  let (text, rest) ← untilMark ['-', '-'] cs
  let rest ← behind? ['>'] rest
  if text.all isAllowed then return (.comment (LineEnds.normalize text), rest) else none

/-- The instruction behind its opening.  No instruction is named "xml", in any case of the
letters. -/
def instruction (a : Alphabet) (cs : List Char) : Option (Token × List Char) := do
  let (target, rest) ← name a cs
  if target.toList.map Char.toLower = ['x', 'm', 'l'] then none
  else
    let (data, behind) ← untilMark ['?', '>'] rest
    if (data = [] || rest.head?.any isSpace) && data.all isAllowed then
      return (.instruction, behind)
    else none

def characterData (cs : List Char) : Option (Token × List Char) := do
  let (data, rest) ← untilMark "]]>".toList cs
  if data.all isAllowed then return (.quoted data, rest) else none

def isMarkup (c : Char) : Bool := c = '<' || c = '&'

/-- A run of text.  The end mark of character data must not occur in it. -/
def text (cs : List Char) : Option (Token × List Char) :=
  let run := cs.takeWhile (!isMarkup ·)
  if run.all isAllowed && (untilMark "]]>".toList run).isNone then
    some (.text run, cs.dropWhile (!isMarkup ·))
  else none

/-- The token that a text begins with. -/
def token (a : Alphabet) (cs : List Char) : Option (Token × List Char) :=
  match cs with
  | '<' :: '!' :: '-' :: '-' :: cs => comment cs
  | '<' :: '!' :: cs => (behind? "[CDATA[".toList cs).bind characterData
  | '<' :: '?' :: cs => instruction a cs
  | '<' :: '/' :: cs => closeTag a cs
  | '<' :: cs => openTag a cs
  | '&' :: cs => (reference a cs).map fun
    | (.character c, rest) => (.quoted [c], rest)
    | (.entity entity, rest) => (.reference entity, rest)
  | cs => text cs

/-- The tokens of a text.  Every token takes at least one character. -/
def tokens (a : Alphabet) (cs : List Char) : Option (List Token) :=
  if cs = [] then some []
  else match token a cs with
    | none => none
    | some (t, rest) => if rest.length < cs.length then (tokens a rest).map (t :: ·) else none
termination_by cs.length

end BuildAlign.XmlTokens
