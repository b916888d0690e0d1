import BuildAlign.BuildProperties

/-! # References to properties

A version written `$\x7bname\x7d` refers to a property, whose value may be a reference again.
Chains are followed to a bounded length, so that circular definitions end. -/
namespace BuildAlign.PropertyReferences

/-- The property that a text refers to, if it is one reference and nothing else; a line feed may end
it. -/
def reference? (text : String) : Option String :=
  match text.toList with
  | '$' :: '\x7b' :: cs =>
    let name := cs.takeWhile (· ≠ '\x7d')
    if name = [] then none
    else match cs.dropWhile (· ≠ '\x7d') with
      | ['\x7d'] | ['\x7d', '\n'] => some (String.ofList name)
      | _ => none
  | _ => none

/-- Whether a reference begins somewhere in the text. -/
def mentionsReference : List Char → Bool
  | '$' :: '\x7b' :: _ => true
  | _ :: cs => mentionsReference cs
  | [] => false

/-- The name with every mention of the project it belongs to left out. -/
def withoutProject : List Char → List Char
  | 'p' :: 'r' :: 'o' :: 'j' :: 'e' :: 'c' :: 't' :: '.' :: cs => withoutProject cs
  | c :: cs => c :: withoutProject cs
  | [] => []

def longestChain : Nat := 10

/-- The last property of the chain that a text begins, after at most `steps` further references. -/
def lastName (props : PropertyMap) : Nat → String → Option String
  | 0, text => reference? text
  | steps + 1, text =>
    match reference? text with
    | none => none
    | some name =>
      match props.value? name with
      | some value => if (reference? value).isSome then lastName props steps value else some name
      | none => some name

/-- The property that holds the version which a text stands for. -/
def resolveName (props : PropertyMap) (text : String) : Option String :=
  lastName props longestChain text

/-- The value of a property, also when only the project's mention is in the way. -/
def definition? (props : PropertyMap) (name : String) : Option (Option String) :=
  props.get? name <|> props.get? (String.ofList (withoutProject name.toList))

/-- The value at the end of the chain, after at most `steps` references. -/
def lastValue (props : PropertyMap) : Nat → String → Option String
  | 0, text => some text
  | steps + 1, text =>
    match (reference? text).bind (definition? props) with
    | none => some text
    | some none => none
    | some (some value) =>
      if mentionsReference value.toList then lastValue props steps value else some value

/-- What a text stands for: the text itself if it is no reference or cannot be resolved. -/
def resolve (props : PropertyMap) (text : String) : Option String :=
  lastValue props (longestChain + 1) text

end BuildAlign.PropertyReferences
