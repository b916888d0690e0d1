/-! # XML trees

Elements and comments, with the text between them.  A node is reached from the root by the positions
of the children on the way. -/
namespace BuildAlign

/-- A name with the namespace it is in, if any. -/
structure XmlName where
  space : Option String
  label : String
deriving DecidableEq, Repr

namespace XmlName

def cutLast? (c : Char) (cs : List Char) : Option (List Char × List Char) :=
  match cs.reverse.dropWhile (· ≠ c) with
  | [] => none
  | _ :: before => some (before.reverse, (cs.reverse.takeWhile (· ≠ c)).reverse)

/-- Reads `\x7bnamespace\x7dlabel`, the namespace reaching to the last closing brace. -/
def ofTag (tag : List Char) : XmlName :=
  match tag with
  | '\x7b' :: cs =>
    match cutLast? '\x7d' cs with
    | some (space, label) => ⟨some (String.ofList space), String.ofList label⟩
    | none => ⟨none, String.ofList tag⟩
  | _ => ⟨none, String.ofList tag⟩

/-- The name that `label` has next to an element of this name. -/
def sibling (n : XmlName) (label : String) : XmlName :=
  match n.space with
  | none => ofTag label.toList
  | some space =>
    ofTag ('\x7b' :: space.toList.takeWhile (· ≠ '\x7d') ++ '\x7d' :: label.toList)

/-- The name without its namespace, also where one is only hinted at by a closing brace. -/
def localName (n : XmlName) : String :=
  match cutLast? '\x7d' n.label.toList with
  | some (_, label) => String.ofList label
  | none => n.label

end XmlName

/-- An element has the text before its first child; behind every child stands the text up to the
next one.  An empty text is no text. -/
inductive XmlNode
  | element (name : XmlName) (attributes : List (XmlName × String)) (text : String)
      (children : List (XmlNode × String))
  | comment (text : String)
deriving Repr, Inhabited

abbrev XmlChild := XmlNode × String

namespace XmlNode

def name? : XmlNode → Option XmlName
  | element name .. => some name
  | comment _ => none

/-- The name without namespace; comments have an empty one. -/
def localName (node : XmlNode) : String := (node.name?.map XmlName.localName).getD ""

def text : XmlNode → String
  | element _ _ text _ => text
  | comment text => text

def children : XmlNode → List XmlChild
  | element _ _ _ children => children
  | comment _ => []

def setText (text : String) : XmlNode → XmlNode
  | element name attributes _ children => element name attributes text children
  | comment _ => comment text

def updateChildren (f : List XmlChild → List XmlChild) : XmlNode → XmlNode
  | element name attributes text children => element name attributes text (f children)
  | comment text => comment text

def at? : List Nat → XmlNode → Option XmlNode
  | [], node => some node
  | i :: place, node => node.children[i]?.bind fun (child, _) => at? place child

def modifyAt (f : XmlNode → XmlNode) : List Nat → XmlNode → XmlNode
  | [], node => f node
  | i :: place, node =>
    node.updateChildren fun children =>
      children.modify i fun (child, tail) => (modifyAt f place child, tail)

/-- Takes a node out of its parent, with the text behind it; the root stays. -/
def eraseAt : List Nat → XmlNode → XmlNode
  | [], node => node
  | [i], node => node.updateChildren (·.eraseIdx i)
  | i :: place, node =>
    node.updateChildren fun children =>
      children.modify i fun (child, tail) => (eraseAt place child, tail)

/-- The position of the child with this local name that has `index` others of the name before it. -/
def position? (name : String) (index : Nat) : List XmlChild → Option Nat
  | [] => none
  | (child, _) :: rest =>
    if child.localName = name then
      match index with
      | 0 => some 0
      | index + 1 => (position? name index rest).map (· + 1)
    else (position? name index rest).map (· + 1)

end XmlNode
end BuildAlign
