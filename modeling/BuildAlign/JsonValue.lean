import BuildAlign.BinaryDouble
import BuildAlign.LooseText
import BuildAlign.OrderedMap

/-! # JSON values and the routes into them

A route leads from the root of a value to one of its nodes by member names and item numbers. -/
namespace BuildAlign

inductive JsonValue
  | null
  | bool (b : Bool)
  | integer (n : Int)
  | double (x : Double)
  | text (s : LooseText)
  | array (items : List JsonValue)
  | object (members : List (LooseText × JsonValue))
deriving Repr, Inhabited

inductive JsonStep
  | key (name : LooseText)
  | index (i : Nat)
deriving DecidableEq, Repr

abbrev JsonRoute := List JsonStep

namespace JsonValue

/-- The members or items, each with the step that leads to it. -/
def children : JsonValue → List (JsonStep × JsonValue)
  | array items => items.zipIdx.map fun (item, i) => (.index i, item)
  | object members => members.map fun (name, value) => (.key name, value)
  | _ => []

def child? : JsonValue → JsonStep → Option JsonValue
  | array items, .index i => items[i]?
  | object members, .key name => OrderedMap.find name members
  | _, _ => none

def get? : JsonValue → JsonRoute → Option JsonValue
  | doc, [] => some doc
  | doc, step :: route => (doc.child? step).bind (get? · route)

def updateMember (name : LooseText) (f : JsonValue → JsonValue) :
    List (LooseText × JsonValue) → List (LooseText × JsonValue)
  | [] => []
  | (k, v) :: rest => if k = name then (k, f v) :: rest else (k, v) :: updateMember name f rest

/-- Changes the child at a step; without that child nothing changes. -/
def updateChild (f : JsonValue → JsonValue) : JsonStep → JsonValue → JsonValue
  | .index i, array items => array (items.modify i f)
  | .key name, object members => object (updateMember name f members)
  | _, doc => doc

/-- Replaces the node at a route. -/
def set (value : JsonValue) : JsonRoute → JsonValue → JsonValue
  | [], _ => value
  | step :: route, doc => updateChild (set value route) step doc

def eraseChild : JsonStep → JsonValue → JsonValue
  | .index i, array items => array (items.eraseIdx i)
  | .key name, object members => object (members.eraseP fun (k, _) => k = name)
  | _, doc => doc

/-- Takes the node at a route out of its container; the root stays. -/
def erase : JsonRoute → JsonValue → JsonValue
  | [], doc => doc
  | [step], doc => eraseChild step doc
  | step :: route, doc => updateChild (erase route) step doc

mutual
/-- Every node with its route, each before the nodes below it. -/
def nodes : JsonValue → List (JsonRoute × JsonValue)
  | array items => ([], array items) :: itemNodes 0 items
  | object members => ([], object members) :: memberNodes members
  | scalar => [([], scalar)]

def itemNodes (i : Nat) : List JsonValue → List (JsonRoute × JsonValue)
  | [] => []
  | item :: items =>
    (nodes item).map (fun (route, node) => (.index i :: route, node)) ++ itemNodes (i + 1) items

def memberNodes : List (LooseText × JsonValue) → List (JsonRoute × JsonValue)
  | [] => []
  | (name, value) :: members =>
    (nodes value).map (fun (route, node) => (.key name :: route, node)) ++ memberNodes members
end

end JsonValue
end BuildAlign
