import BuildAlign.CharacterClasses
import BuildAlign.DelimitedText
import BuildAlign.MessageTexts
import BuildAlign.XmlTree

/-! # Paths into POMs

Element names from below the root on, separated by slashes, each with an optional position among the
children of its name: `dependencies/dependency[2]/version`.  Namespaces play no part. -/
namespace BuildAlign

structure PomStep where
  name : String
  index : Nat
deriving DecidableEq, Repr

inductive PomPathDefect
  | noStep
  | malformed (step : String)
  /-- The digits of an index are too many. -/
  | noNumber (digits : String)
deriving DecidableEq, Repr

structure PomPathError where
  path : String
  defect : PomPathDefect
deriving DecidableEq, Repr

def PomPathError.message (e : PomPathError) : String :=
  match e.defect with
  | .noStep => s!"POM path must name at least one element: '{e.path}'"
  | .malformed step => s!"Malformed step '{step}' in POM path '{e.path}'"
  | .noNumber digits => QuotedText.digitsFault digits

namespace PomPath
open DelimitedText

def isBracket (c : Char) : Bool := c = '[' || c = ']'

/-- The digits of the index in brackets behind a name; a line feed may end it. -/
def indexDigits? (cs : List Char) : Option (List Char) :=
  let digits := cs.takeWhile DecimalDigits.isDecimal
  if digits = [] then none
  else match cs.dropWhile DecimalDigits.isDecimal with
    | [']'] | [']', '\n'] => some digits
    | _ => none

/-- The name in front of the first bracket, and the digits in brackets behind it, if there are
any. -/
def stepParts? (cs : List Char) : Option (List Char × Option (List Char)) :=
  let name := cs.takeWhile (!isBracket ·)
  if name = [] then none
  else match cs.dropWhile (!isBracket ·) with
    | [] => some (name, none)
    | '[' :: rest => (indexDigits? rest).map fun digits => (name, some digits)
    | _ => none

def step (cs : List Char) : Except PomPathDefect PomStep :=
  match stepParts? cs with
  | none => .error (.malformed (String.ofList cs))
  | some (name, none) => .ok ⟨String.ofList name, 0⟩
  | some (name, some digits) =>
    match DecimalDigits.number? digits with
    | none => .error (.noNumber (String.ofList digits))
    | some index => .ok ⟨String.ofList name, index⟩

def rootName : List Char := "project".toList

/-- The texts of the steps.  Slashes around them and a first step that names the root are left
out. -/
def stepTexts (path : String) : List (List Char) :=
  match (split '/' (BlankText.trim path.toList)).filter (· ≠ []) with
  | first :: rest => if first = rootName then rest else first :: rest
  | [] => []

def parse (path : String) : Except PomPathError (List PomStep) :=
  match stepTexts path with
  | [] => .error ⟨path, .noStep⟩
  | texts => texts.mapM fun text => (step text).mapError (⟨path, ·⟩)

/-- The place of the element at the end of the steps. -/
def locate : List PomStep → XmlNode → Option (List Nat)
  | [], _ => some []
  | step :: rest, node => do
    let i ← XmlNode.position? step.name step.index node.children
    let (child, _) ← node.children[i]?
    return i :: (← locate rest child)

def find? (path : String) (root : XmlNode) : Except PomPathError (Option (List Nat)) := do
  return locate (← parse path) root

end PomPath
end BuildAlign
