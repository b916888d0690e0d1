import BuildAlign.LineEnds
import BuildAlign.XmlDeclaration
import BuildAlign.XmlDoctype
import BuildAlign.XmlEncoding
import BuildAlign.XmlTree

/-! # Reading XML

A document is read in steps: its declaration, its document type, the tokens of its content, the
content with entities replaced, and the tree with all names in their namespaces.  Comments inside
the root stay in the tree; instructions do not. -/
namespace BuildAlign.XmlReader
open XmlCharacters XmlTokens XmlDoctype

section Content

/-- Whether every element that is opened is closed and no other is. -/
def isBalanced (ts : List Token) : Bool := depth 0 ts = some 0
where
  depth : Nat → List Token → Option Nat
    | n, [] => some n
    | n, .openTag _ _ false :: ts => depth (n + 1) ts
    | n, .closeTag _ :: ts => if n = 0 then none else depth (n - 1) ts
    | n, _ :: ts => depth n ts

/-- The tokens with entities replaced by the tokens of their text, each only outside of itself.  The
text of an entity holds whole elements.  Even where it is empty, a reference is content. -/
def expand (d : Declarations) (available : List String) (ts : List Token) : Option (List Token) :=
  match ts with
  | [] => some []
  | .reference name :: rest =>
    match d.entity? name with
    | some (.internal replacement) =>
      if h : name ∈ available then
        have : (available.erase name).length < available.length := by
          have := List.length_pos_of_mem h
          rw [List.length_erase_of_mem h]; omega
        match tokens .unicode replacement with
        | some inner =>
          if isBalanced inner then do
            let inner ← expand d (available.erase name) inner
            return .quoted [] :: inner ++ (← expand d available rest)
          else none
        | none => none
      else none
    | _ => none
  | t :: rest => (expand d available rest).map (t :: ·)
termination_by (available.length, ts.length)

end Content

section Namespaces

/-- The namespaces that qualifiers stand for, the innermost first; elements without a qualifier are
in that of the empty one. -/
abbrev Scope := List (String × String)

def xmlSpace : String := "http://www.w3.org/XML/1998/namespace"
def xmlnsSpace : String := "http://www.w3.org/2000/xmlns/"

def outerScope : Scope := [("xml", xmlSpace)]

def Scope.lookup (scope : Scope) (qualifier : String) : Option String :=
  (scope.find? fun (q, _) => q = qualifier).map Prod.snd

/-- The qualifier that an attribute declares. -/
def declared? (n : QualifiedName) : Option String :=
  match n with
  | ⟨some "xmlns", q⟩ => some q
  | ⟨none, "xmlns"⟩ => some ""
  | _ => none

/-- A qualifier is bound to a namespace of its own; "xml" and its namespace belong together, "xmlns"
and its namespace are not to be declared at all. -/
def mayBind (qualifier space : String) : Bool :=
  !(space = "" && qualifier ≠ "") && qualifier ≠ "xmlns" && space ≠ xmlnsSpace &&
    !space.toList.contains '\x7d' && ((qualifier = "xml") = (space = xmlSpace))

def bind (scope : Scope) (attributes : List (QualifiedName × String)) : Option Scope :=
  attributes.foldlM (fun scope (n, value) =>
    match declared? n with
    | some q => if mayBind q value then some ((q, value) :: scope) else none
    | none => some scope) scope

def elementName (scope : Scope) (n : QualifiedName) : Option XmlName :=
  match n.qualifier with
  | some q => (scope.lookup q).map fun space => ⟨some space, n.label⟩
  | none =>
    some ⟨(scope.lookup "").bind fun space => if space = "" then none else some space, n.label⟩

def attributeName (scope : Scope) (n : QualifiedName) : Option XmlName :=
  match n.qualifier with
  | some q => (scope.lookup q).map fun space => ⟨some space, n.label⟩
  | none => some ⟨none, n.label⟩

end Namespaces

section Tree

/-- The attributes of an element as written and by default. -/
def completeAttributes (d : Declarations) (element : QualifiedName) (written : List RawAttribute) :
    Option (List (QualifiedName × String)) := do
  if !(written.map Prod.fst).Nodup then none
  let written ← written.mapM fun (n, pieces) => do
    let value ← attributeValue d ((d.rule? element n).all (·.verbatim)) pieces
    return (n, String.ofList value)
  let missing := d.attributes.filter fun rule =>
    rule.element = element && !(written.map Prod.fst).contains rule.name
  let defaults ← missing.filterMapM fun rule =>
    match rule.default with
    | none => some none
    | some pieces => do
      let value ← attributeValue d rule.verbatim pieces
      return some (rule.name, String.ofList value)
  return written ++ defaults

/-- An element that is still open, its children from the last to the first. -/
structure OpenElement where
  raw : QualifiedName
  name : XmlName
  attributes : List (XmlName × String)
  text : String
  children : List XmlChild
  scope : Scope

def OpenElement.addText (e : OpenElement) (s : String) : OpenElement :=
  match e.children with
  | [] => { e with text := e.text ++ s }
  | (child, tail) :: children => { e with children := (child, tail ++ s) :: children }

def OpenElement.addChild (e : OpenElement) (child : XmlNode) : OpenElement :=
  { e with children := (child, "") :: e.children }

def OpenElement.node (e : OpenElement) : XmlNode :=
  .element e.name e.attributes e.text e.children.reverse

def openElement (d : Declarations) (scope : Scope) (raw : QualifiedName)
    (attributes : List RawAttribute) : Option OpenElement := do
  let attributes ← completeAttributes d raw attributes
  let scope ← bind scope attributes
  let name ← elementName scope raw
  let attributes ← (attributes.filter fun (n, _) => (declared? n).isNone).mapM fun (n, value) => do
    return (← attributeName scope n, value)
  if (attributes.map Prod.fst).Nodup then return ⟨raw, name, attributes, "", [], scope⟩ else none

/-- The tree being built: the root once it is closed, and the open elements, the innermost first. -/
structure Builder where
  root : Option XmlNode
  stack : List OpenElement

def Builder.close (b : Builder) (node : XmlNode) (stack : List OpenElement) : Builder :=
  match stack with
  | [] => { b with root := some node, stack := [] }
  | parent :: stack => { b with stack := parent.addChild node :: stack }

def Builder.step (d : Declarations) (b : Builder) (t : Token) : Option Builder :=
  match t, b.stack with
  | .instruction, _ => some b
  | .comment cs, parent :: stack =>
    some { b with stack := parent.addChild (.comment (String.ofList cs)) :: stack }
  | .comment _, [] => some b
  | .text cs, parent :: stack | .quoted cs, parent :: stack =>
    some { b with stack := parent.addText (String.ofList cs) :: stack }
  | .text cs, [] => if cs.all isSpace then some b else none
  | .openTag raw attributes closed, stack =>
    if stack.isEmpty && b.root.isSome then none
    else do
      let scope := (stack.head?.map OpenElement.scope).getD outerScope
      let e ← openElement d scope raw attributes
      return if closed then b.close e.node stack else { b with stack := e :: stack }
  | .closeTag raw, e :: stack => if e.raw = raw then some (b.close e.node stack) else none
  | _, _ => none

def build (d : Declarations) (ts : List Token) : Option XmlNode :=
  match ts.foldlM (Builder.step d) ⟨none, []⟩ with
  | some ⟨root, []⟩ => root
  | _ => none

end Tree

/-- The declarations before the root, and the text from the root on. -/
def prologue (a : Alphabet) (standalone : Bool) (seen : Option Declarations) (cs : List Char) :
    Option (Declarations × List Char) :=
  let rest := skipSpace cs
  let next : Option (Option Declarations × List Char) := match rest with
    | '<' :: '!' :: '-' :: '-' :: rest => (comment rest).map fun (_, rest) => (seen, rest)
    | '<' :: '?' :: rest => (instruction a rest).map fun (_, rest) => (seen, rest)
    | '<' :: '!' :: rest => do
      let rest ← behind? "DOCTYPE".toList rest
      if seen.isSome || !rest.head?.any isSpace then none
      else
        let (d, rest) ← doctype a standalone rest
        return (some d, rest)
    | _ => none
  match rest with
  | '<' :: '!' :: _ | '<' :: '?' :: _ =>
    match next with
    | some (seen, behind) =>
      if behind.length < cs.length then prologue a standalone seen behind else none
    | none => none
  | '<' :: _ => some (seen.getD (.none standalone), rest)
  | _ => none
termination_by cs.length

/-- The text without the byte order mark that may stand before it. -/
def withoutMark (text : String) : String :=
  match text.toList with
  | '\uFEFF' :: cs => String.ofList cs
  | _ => text

/-- The root element that stands behind a declaration, read in an encoding. -/
def root? (encoding : XmlEncoding) (text : String) : Option XmlNode := do
  let a := encoding.alphabet
  let (head, rest) ← XmlDeclaration.declaration (← encoding.reread? text)
  let (d, content) ← prologue a head.standalone none (LineEnds.normalize rest)
  let ts ← tokens a content
  let d ← charge d text.utf8ByteSize (ts.flatMap mentionsOf)
  build d (← expand d (d.entities.map Prod.fst) ts)

/-- The encoding that a text suggests or declares. -/
def encodingOf (text : String) : Except XmlFault XmlEncoding :=
  let suggestion := XmlEncoding.suggested text
  match (suggestion.reread? text).bind XmlDeclaration.declaration with
  | none => .error .malformed
  | some (⟨none, _⟩, _) => .ok suggestion
  | some (⟨some name, _⟩, _) => (XmlEncoding.declared suggestion name).mapError .encoding

/-- The root element of a document. -/
def read (text : String) : Except XmlFault XmlNode := do
  let text := withoutMark text
  match root? (← encodingOf text) text with
  | some root => return root
  | none => throw .malformed

end BuildAlign.XmlReader
