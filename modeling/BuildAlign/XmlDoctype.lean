import BuildAlign.DelimitedText
import BuildAlign.XmlTokens

/-! # Document type declarations

The part of a document type declaration that stands in the document itself is checked, and its
entities and the defaults of attributes are kept.  External parts are never read. -/
namespace BuildAlign.XmlDoctype
open XmlCharacters XmlTokens

section Words

/-- What declarations are made of.  Members of content models can be marked with how often they may
occur. -/
inductive Word
  | declare (keyword : String)
  | name (name : QualifiedName) (occurrence : Option Char)
  /-- Name characters that are no qualified name. -/
  | nameToken (cs : List Char)
  | literal (cs : List Char)
  | hashed (name : String)
  | percent
  | parameter (entity : String)
  | openGroup
  | closeGroup (occurrence : Option Char)
  | comma | bar | finish | openSubset | closeSubset
  | ignored
deriving DecidableEq, Repr

def isOccurrence (c : Char) : Bool := c = '?' || c = '*' || c = '+'

/-- Whether the next character may stand directly behind a word. -/
def delimitedBy (delimiters : List Char) (rest : List Char) : Bool :=
  match rest with
  | [] => false
  | c :: _ => isSpace c || delimiters.contains c

def occurrenceOf (delimiters : List Char) (cs : List Char) : Option (Option Char × List Char) :=
  match cs with
  | [] => none
  | c :: rest =>
    if isOccurrence c then some (some c, rest)
    else if delimitedBy delimiters cs then some (none, cs)
    else none

def nameDelimiters : List Char := ['>', ')', ',', '|', '[', '%']

/-- The name that a run of name characters and colons is, if it is one.  Behind its only colon it
may go on with any name character. -/
def declaredName? (a : Alphabet) (run : List Char) : Option QualifiedName :=
  if !run.head?.any (isNameStart a) then none
  else match DelimitedText.cut? ':' run with
    | none => some ⟨none, String.ofList run⟩
    | some (qualifier, label) =>
      if label = [] || label.contains ':' then none
      else some ⟨some (String.ofList qualifier), String.ofList label⟩

/-- A name with what marks it in a content model, or a token of name characters. -/
def nameWord (a : Alphabet) (cs : List Char) : Option (Word × List Char) :=
  let run := cs.takeWhile fun c => isNameChar a c || c = ':'
  let rest := cs.dropWhile fun c => isNameChar a c || c = ':'
  if run = [] then none
  else match declaredName? a run with
    | some n => (occurrenceOf nameDelimiters rest).map fun (o, rest) => (.name n o, rest)
    | none => if delimitedBy nameDelimiters rest then some (.nameToken run, rest) else none

def literalWord (quote : Char) (cs : List Char) : Option (Word × List Char) := do
  let (value, rest) ← untilMark [quote] cs
  if value.all isAllowed && delimitedBy ['>', '%', '['] rest then return (.literal value, rest)
  else none

def percentWord (a : Alphabet) (cs : List Char) : Option (Word × List Char) :=
  match name a cs with
  | some (entity, ';' :: rest) => some (.parameter entity, rest)
  | some _ => none
  | none => if delimitedBy ['%'] cs then some (.percent, cs) else none

/-- The word that a declaration goes on with. -/
def word (a : Alphabet) (cs : List Char) : Option (Word × List Char) :=
  match cs with
  | '<' :: '!' :: '-' :: '-' :: cs => (comment cs).map fun (_, rest) => (.ignored, rest)
  | '<' :: '!' :: cs => do
    let (keyword, rest) ← name a cs
    if rest.head?.any isSpace then return (.declare keyword, rest) else none
  | '<' :: '?' :: cs => (instruction a cs).map fun (_, rest) => (.ignored, rest)
  | '"' :: cs => literalWord '"' cs
  | '\'' :: cs => literalWord '\'' cs
  | '#' :: cs => do
    let (n, rest) ← name a cs
    if delimitedBy [')', '>', '%', '|'] rest then return (.hashed n, rest) else none
  | '%' :: cs => percentWord a cs
  | '(' :: cs => some (.openGroup, cs)
  | ')' :: cs => (occurrenceOf ['>', ',', '|', ')'] cs).map fun (o, rest) => (.closeGroup o, rest)
  | ',' :: cs => some (.comma, cs)
  | '|' :: cs => some (.bar, cs)
  | '>' :: cs => some (.finish, cs)
  | '[' :: cs => some (.openSubset, cs)
  | ']' :: cs => some (.closeSubset, cs)
  | cs => nameWord a cs

/-- The words of a declaration up to its end, which is outside the internal subset. -/
def words (a : Alphabet) (inSubset : Bool) (cs : List Char) : Option (List Word × List Char) :=
  match word a (skipSpace cs) with
  | none => none
  | some (w, rest) =>
    if w = .finish && !inSubset then some ([], rest)
    else if rest.length < cs.length then
      let inSubset := if w = .openSubset then true else if w = .closeSubset then false else inSubset
      (words a inSubset rest).map fun (ws, rest) => (w :: ws, rest)
    else none
termination_by cs.length

end Words

/-- What a general entity stands for. -/
inductive Entity
  | internal (replacement : List Char)
  | external
  | unparsed
deriving DecidableEq, Repr

/-- A declared attribute: whether all its white space counts, and the value it has by default. -/
structure AttributeRule where
  element : QualifiedName
  name : QualifiedName
  verbatim : Bool
  default : Option (List ValuePiece)
deriving DecidableEq, Repr

/-- What has been declared; of two declarations of one thing the first counts. -/
structure Declarations where
  entities : List (String × Entity)
  attributes : List AttributeRule
  standalone : Bool
  /-- There is an external part, which may declare more. -/
  incomplete : Bool
  /-- Declarations behind a reference to an external part are not known to hold. -/
  suspended : Bool
  /-- The bytes that entities have taken in attribute values. -/
  charged : Nat
deriving Repr

namespace Declarations

def none (standalone : Bool) : Declarations := ⟨[], [], standalone, false, false, 0⟩

def entity? (d : Declarations) (name : String) : Option Entity :=
  (d.entities.find? fun (n, _) => n = name).map Prod.snd

def declareEntity (d : Declarations) (name : String) (entity : Entity) : Declarations :=
  if d.suspended || (predefined? name).isSome then d
  else { d with entities := d.entities ++ [(name, entity)] }

def rule? (d : Declarations) (element name : QualifiedName) : Option AttributeRule :=
  d.attributes.find? fun rule => rule.element = element && rule.name = name

def declareAttribute (d : Declarations) (rule : AttributeRule) : Declarations :=
  if d.suspended || (d.rule? rule.element rule.name).isSome then d
  else { d with attributes := d.attributes ++ [rule] }

/-- Without standing alone, a document may use entities that only its external part declares. -/
def mayBeElsewhere (d : Declarations) : Bool := d.incomplete && !d.standalone

end Declarations

/-- The value of an attribute: entities are replaced by their text, each only outside of itself.
Among them `available` are those that may still occur.  Their text is read in Unicode, whatever the
document is read in. -/
def expandValue (d : Declarations) (available : List String) (pieces : List ValuePiece) :
    Option (List Char) :=
  match pieces with
  | [] => some []
  | .char c :: rest | .literal c :: rest => (expandValue d available rest).map (c :: ·)
  | .entity name :: rest =>
    match d.entity? name with
    | none => if d.mayBeElsewhere then expandValue d available rest else none
    | some (.internal replacement) =>
      if h : name ∈ available then
        have : (available.erase name).length < available.length := by
          have := List.length_pos_of_mem h
          rw [List.length_erase_of_mem h]; omega
        match valuePieces .unicode .none replacement with
        | some (inner, _) => do
          let value ← expandValue d (available.erase name) inner
          return value ++ (← expandValue d available rest)
        | none => none
      else none
    | some _ => none
termination_by (available.length, pieces.length)

section Charging

/-- A reference to an entity, which is replaced as content or as part of an attribute value. -/
inductive Mention
  | inContent (entity : String)
  | inValue (entity : String)
deriving DecidableEq, Repr

def Mention.entity : Mention → String
  | inContent entity | inValue entity => entity

def mentionsOfValue (pieces : List ValuePiece) : List Mention :=
  pieces.filterMap fun
    | .entity name => some (.inValue name)
    | _ => none

def mentionsOf : Token → List Mention
  | .reference name => [.inContent name]
  | .openTag _ attributes _ => attributes.flatMap fun (_, pieces) => mentionsOfValue pieces
  | _ => []

/-- What the text refers to that takes the place of a reference. -/
def Mention.within (m : Mention) (replacement : List Char) : List Mention :=
  match m with
  | inContent _ => ((tokens .unicode replacement).getD []).flatMap mentionsOf
  | inValue _ =>
    ((valuePieces .unicode .none replacement).map fun (ps, _) => mentionsOfValue ps).getD []

/-- What is left of a number of bytes when entities are replaced by their text, each only outside of
itself; `none` when they take as many or more. -/
def leftOf (d : Declarations) (available : List String) (bytes : Nat) (mentions : List Mention) :
    Option Nat :=
  match mentions with
  | [] => some bytes
  | m :: rest =>
    match d.entity? m.entity with
    | some (.internal replacement) =>
      if h : m.entity ∈ available then
        have : (available.erase m.entity).length < available.length := by
          have := List.length_pos_of_mem h
          rw [List.length_erase_of_mem h]; omega
        let size := (String.ofList replacement).utf8ByteSize
        if bytes ≤ size then none
        else do
          let left ← leftOf d (available.erase m.entity) (bytes - size) (m.within replacement)
          leftOf d available left rest
      else leftOf d available bytes rest
    | _ => leftOf d available bytes rest
termination_by (available.length, mentions.length)

/-- So many bytes the entities of a document of the given size may take.  Small documents may take a
fixed number in all, large ones a multiple of their size. -/
def allowance (size : Nat) : Nat := max (8388608 - size) (99 * size + 1)

/-- Charges what references take to a document of the given size, unless that is too much. -/
def charge (d : Declarations) (size : Nat) (mentions : List Mention) : Option Declarations :=
  let bytes := allowance size - d.charged
  (leftOf d (d.entities.map Prod.fst) bytes mentions).map fun left =>
    { d with charged := d.charged + (bytes - left) }

end Charging

/-- Spaces as written around the value and in a row count as one at most. -/
def collapse (cs : List Char) : List Char :=
  let words := (cs.splitBy fun a b => (a = ' ') = (b = ' ')).filter fun run => run.head? ≠ some ' '
  (words.intersperse [' ']).flatten

def attributeValue (d : Declarations) (verbatim : Bool) (pieces : List ValuePiece) :
    Option (List Char) :=
  (expandValue d (d.entities.map Prod.fst) pieces).map fun value =>
    if verbatim then value else collapse value

section Declaring

def isPublicIdChar (c : Char) : Bool :=
  isAsciiLetter c || isAsciiDigit c || " \r\n-'()+,./:=?;!*#@$_%".toList.contains c

/-- The words behind an external identifier. -/
def externalId? : List Word → Option (List Word)
  | .name ⟨.none, "SYSTEM"⟩ .none :: .literal _ :: rest => some rest
  | .name ⟨.none, "PUBLIC"⟩ .none :: .literal publicId :: .literal _ :: rest =>
    if publicId.all isPublicIdChar then some rest else none
  | _ => none

/-- The replacement text of an entity: references by number are replaced, other ones kept. -/
def replacementText (a : Alphabet) (cs : List Char) : Option (List Char) :=
  match cs with
  | [] => some []
  | c :: rest =>
    if c = '%' then none
    else if c = '&' then do
      let (_, behind) ← reference a rest
      if behind.length ≤ rest.length then
        let value ← replacementText a behind
        match rest with
        | '#' :: 'x' :: digits => return (← characterNumber 16 digits).1 :: value
        | '#' :: digits => return (← characterNumber 10 digits).1 :: value
        | _ => return c :: rest.take (rest.length - behind.length) ++ value
      else none
    else (replacementText a rest).map (c :: ·)
termination_by cs.length

/-- An entity declaration behind its keyword. -/
def entityDeclaration (a : Alphabet) (d : Declarations) :
    List Word → Option (Declarations × List Word)
  | .percent :: .name ⟨.none, _⟩ .none :: .literal value :: .finish :: rest =>
    if d.suspended || (replacementText a value).isSome then some (d, rest) else none
  | .percent :: .name ⟨.none, _⟩ .none :: ws =>
    match externalId? ws with
    | some (.finish :: rest) => some (d, rest)
    | _ => none
  | .name ⟨.none, n⟩ .none :: .literal value :: .finish :: rest =>
    if d.suspended then some (d, rest)
    else (replacementText a value).map fun text => (d.declareEntity n (.internal text), rest)
  | .name ⟨.none, n⟩ .none :: ws =>
    match externalId? ws with
    | some (.finish :: rest) => some (d.declareEntity n .external, rest)
    | some (.name ⟨.none, "NDATA"⟩ .none :: .name ⟨.none, _⟩ .none :: .finish :: rest) =>
      some (d.declareEntity n .unparsed, rest)
    | _ => none
  | _ => none

def notationDeclaration : List Word → Option (List Word)
  | .name ⟨.none, _⟩ .none :: .name ⟨.none, "PUBLIC"⟩ .none ::
    .literal publicId :: .finish :: rest =>
    if publicId.all isPublicIdChar then some rest else none
  | .name ⟨.none, _⟩ .none :: ws =>
    match externalId? ws with
    | some (.finish :: rest) => some rest
    | _ => none
  | _ => none

/-- The rest of a group of mixed content behind its first member. -/
def mixedContent : List Word → Option (List Word)
  | .closeGroup (some '*') :: .finish :: rest => some rest
  | .bar :: .name _ .none :: rest => mixedContent rest
  | _ => none

/-- A content model.  `groups` are the groups it is in, each with its separator once that is known;
`operand` tells whether a member must follow. -/
def contentModel (groups : List (Option Word)) (operand : Bool) : List Word → Option (List Word)
  | .openGroup :: rest => if operand then contentModel (.none :: groups) true rest else none
  | .name _ _ :: rest => if operand then contentModel groups false rest else none
  | .closeGroup _ :: rest =>
    match operand, groups with
    | false, _ :: outer :: groups => contentModel (outer :: groups) false rest
    | false, [_] =>
      match rest with
      | .finish :: rest => some rest
      | _ => none
    | _, _ => none
  | w :: rest =>
    if operand || !(w = .comma || w = .bar) then none
    else match groups with
      | separator :: groups =>
        if separator.all (· = w) then contentModel (some w :: groups) true rest else none
      | [] => none
  | [] => none

def elementDeclaration : List Word → Option (List Word)
  | .name _ .none :: .name ⟨.none, "EMPTY"⟩ .none :: .finish :: rest => some rest
  | .name _ .none :: .name ⟨.none, "ANY"⟩ .none :: .finish :: rest => some rest
  | .name _ .none :: .openGroup :: .hashed "PCDATA" :: .closeGroup .none :: .finish :: rest =>
    some rest
  | .name _ .none :: .openGroup :: .hashed "PCDATA" :: rest => mixedContent rest
  | .name _ .none :: .openGroup :: rest => contentModel [.none] true rest
  | _ => none

/-- The rest of an enumeration behind its opening. -/
def enumeration (namesOnly : Bool) : List Word → Option (List Word)
  | w :: .bar :: rest => if isMember w then enumeration namesOnly rest else none
  | w :: .closeGroup .none :: rest => if isMember w then some rest else none
  | _ => none
where
  isMember : Word → Bool
    | .name n .none => !namesOnly || n.qualifier.isNone
    | .nameToken _ => !namesOnly
    | _ => false

def typeNames : List String :=
  ["CDATA", "ID", "IDREF", "IDREFS", "ENTITY", "ENTITIES", "NMTOKEN", "NMTOKENS"]

/-- The type of an attribute: whether all white space in its values counts. -/
def attributeType : List Word → Option (Bool × List Word)
  | .openGroup :: rest => (enumeration false rest).map (false, ·)
  | .name ⟨.none, "NOTATION"⟩ .none :: .openGroup :: rest => (enumeration true rest).map (false, ·)
  | .name ⟨.none, n⟩ .none :: rest =>
    if typeNames.contains n then some (n = "CDATA", rest) else none
  | _ => none

/-- The default of an attribute; its value is checked where it is declared. -/
def attributeDefault (a : Alphabet) (d : Declarations) (verbatim : Bool) :
    List Word → Option (Declarations × Option (List ValuePiece) × List Word)
  | .hashed "IMPLIED" :: rest | .hashed "REQUIRED" :: rest => some (d, .none, rest)
  | .hashed "FIXED" :: .literal cs :: rest | .literal cs :: rest =>
    if d.suspended then some (d, .none, rest)
    else do
      let (pieces, _) ← valuePieces a .none cs
      let d ← charge d 0 (mentionsOfValue pieces)
      let value ← attributeValue d verbatim pieces
      return (d, some (value.map .literal), rest)
  | _ => none

/-- The attributes of an element, behind its name. -/
def attributeList (a : Alphabet) (d : Declarations) (element : QualifiedName) (ws : List Word) :
    Option (Declarations × List Word) :=
  match ws with
  | .finish :: rest => some (d, rest)
  | .name n .none :: rest => do
    let (verbatim, rest') ← attributeType rest
    let (d, default, rest') ← attributeDefault a d verbatim rest'
    if rest'.length < rest.length then
      attributeList a (d.declareAttribute ⟨element, n, verbatim, default⟩) element rest'
    else none
  | _ => none
termination_by ws.length

/-- The declarations of the internal subset, and the words behind it. -/
def subset (a : Alphabet) (d : Declarations) (ws : List Word) : Option (Declarations × List Word) :=
  match ws with
  | .closeSubset :: rest => some (d, rest)
  | .ignored :: rest => subset a d rest
  | .parameter _ :: rest => subset a { d with incomplete := true, suspended := !d.standalone } rest
  | .declare keyword :: rest =>
    let declared := match keyword, rest with
      | "ENTITY", rest => entityDeclaration a d rest
      | "NOTATION", rest => (notationDeclaration rest).map (d, ·)
      | "ELEMENT", rest => (elementDeclaration rest).map (d, ·)
      | "ATTLIST", .name element .none :: rest => attributeList a d element rest
      | _, _ => none
    match declared with
    | some (d, rest') => if rest'.length < rest.length then subset a d rest' else none
    | none => none
  | _ => none
termination_by ws.length

/-- A document type declaration behind its keyword, and what stands behind it. -/
def doctype (a : Alphabet) (standalone : Bool) (cs : List Char) :
    Option (Declarations × List Char) := do
  let (ws, rest) ← words a false cs
  match ws with
  | .name _ .none :: ws =>
    let (ws, external) := match externalId? ws with
      | some ws => (ws, true)
      | none => (ws, false)
    let d := { Declarations.none standalone with incomplete := external }
    match ws with
    | [] => return (d, rest)
    | .openSubset :: ws =>
      let (d, ws) ← subset a d ws
      if ws = [] then return (d, rest) else none
    | _ => none
  | _ => none

end Declaring

end BuildAlign.XmlDoctype
