import BuildAlign.PomElements

/-! # Written XML

All namespaces are declared on the root.  The namespace of POMs is the default one, some well known
ones keep their usual qualifiers, and the others are numbered as they are met. -/
namespace BuildAlign.XmlPrinter
open PomNamespace

def knownQualifiers : List (String × String) :=
  [(pomSpace, ""), ("http://www.w3.org/XML/1998/namespace", "xml"),
   ("http://www.w3.org/1999/xhtml", "html"), ("http://www.w3.org/1999/02/22-rdf-syntax-ns#", "rdf"),
   ("http://schemas.xmlsoap.org/wsdl/", "wsdl"), ("http://www.w3.org/2001/XMLSchema", "xs"),
   ("http://www.w3.org/2001/XMLSchema-instance", "xsi"), ("http://purl.org/dc/elements/1.1/", "dc")]

/-- Namespaces with their qualifiers, in the order they are met. -/
abbrev Qualifiers := List (String × String)

def qualifier? (qualifiers : Qualifiers) (space : String) : Option String :=
  (qualifiers.find? fun (s, _) => s = space).map Prod.snd

/-- "xml" needs no declaration and is not counted. -/
def meet (qualifiers : Qualifiers) (n : XmlName) : Qualifiers :=
  match n.space with
  | none => qualifiers
  | some space =>
    if (qualifier? qualifiers space).isSome then qualifiers
    else match qualifier? knownQualifiers space with
      | some "xml" => qualifiers
      | some q => qualifiers ++ [(space, q)]
      | none => qualifiers ++ [(space, s!"ns{qualifiers.length}")]

mutual
def meetNode (qualifiers : Qualifiers) : XmlNode → Qualifiers
  | .comment _ => qualifiers
  | .element name attributes _ children =>
    meetChildren ((attributes.map Prod.fst).foldl meet (meet qualifiers name)) children

def meetChildren (qualifiers : Qualifiers) : List (XmlNode × String) → Qualifiers
  | [] => qualifiers
  | (child, _) :: rest => meetChildren (meetNode qualifiers child) rest
end

def name (qualifiers : Qualifiers) (n : XmlName) : String :=
  match n.space with
  | none => n.label
  | some space =>
    match qualifier? qualifiers space <|> qualifier? knownQualifiers space with
    | none | some "" => n.label
    | some q => q ++ ":" ++ n.label

def escapeTextChar (c : Char) : List Char :=
  match c with
  | '&' => "&amp;".toList
  | '<' => "&lt;".toList
  | '>' => "&gt;".toList
  | c => [c]

def escapeValueChar (c : Char) : List Char :=
  match c with
  | '"' => "&quot;".toList
  | '\r' => "&#13;".toList
  | '\n' => "&#10;".toList
  | '\t' => "&#09;".toList
  | c => escapeTextChar c

def text (s : String) : String := String.ofList (s.toList.flatMap escapeTextChar)
def value (s : String) : String := String.ofList (s.toList.flatMap escapeValueChar)

def writtenAttribute (label s : String) : String := " " ++ label ++ "=\"" ++ value s ++ "\""

/-- The declarations of the namespaces, in the order of their qualifiers. -/
def declarations (qualifiers : Qualifiers) : String :=
  let sorted := qualifiers.mergeSort fun (_, p) (_, q) => decide (p ≤ q)
  String.join (sorted.map fun (space, q) =>
    writtenAttribute (if q = "" then "xmlns" else "xmlns:" ++ q) space)

mutual
/-- A node, with `declared` before the attributes. -/
def node (qualifiers : Qualifiers) (declared : String) : XmlNode → String
  | .comment s => "<!--" ++ s ++ "-->"
  | .element n attributes s children =>
    let tag := name qualifiers n
    let start := "<" ++ tag ++ declared ++
      String.join (attributes.map fun (n, v) => writtenAttribute (name qualifiers n) v)
    if s = "" && children.isEmpty then start ++ " />"
    else start ++ ">" ++ text s ++ nodes qualifiers children ++ "</" ++ tag ++ ">"

def nodes (qualifiers : Qualifiers) : List (XmlNode × String) → String
  | [] => ""
  | (child, tail) :: rest => node qualifiers "" child ++ text tail ++ nodes qualifiers rest
end

/-- Whether a name can be written: one in no namespace does not begin like one that is in some. -/
def isWritableName (n : XmlName) : Bool := n.space.isSome || n.label.toList.head? ≠ some '\x7b'

mutual
def isWritable : XmlNode → Bool
  | .comment _ => true
  | .element n attributes _ children =>
    isWritableName n && attributes.all (fun (n, _) => isWritableName n) && areWritable children

def areWritable : List (XmlNode × String) → Bool
  | [] => true
  | (child, _) :: rest => isWritable child && areWritable rest
end

/-- Why a document cannot be written. -/
inductive Fault
  /-- A name begins like one in a namespace, which does not end. -/
  | openName
deriving DecidableEq, Repr

def Fault.message : Fault → String
  | openName => "not enough values to unpack (expected 2, got 1)"

/-- The text of a document from its root on. -/
def print (root : XmlNode) : String :=
  let qualifiers := meetNode [] root
  node qualifiers (declarations qualifiers) root

/-- The text of a document whose names can be written. -/
def printChecked (root : XmlNode) : Except Fault String :=
  if isWritable root then .ok (print root) else .error .openName

/-- The text of a document as it is kept in a file. -/
def printFile (root : XmlNode) : String := "<?xml version='1.0' encoding='UTF-8'?>\n" ++ print root

end BuildAlign.XmlPrinter
