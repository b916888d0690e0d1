import BuildAlign.EditOperation
import BuildAlign.JsonMatches
import BuildAlign.MessageTexts
import BuildAlign.PomPath

/-! # Editing documents

An operation finds one node by its path and replaces the value of the node or deletes it.  Nothing
is ever created, and an operation that finds nothing changes nothing. -/
namespace BuildAlign

/-- The kinds of JSON values that have no nodes below them. -/
inductive ScalarKind | integer | double | text | bool | null
deriving DecidableEq, Repr

def ScalarKind.label : ScalarKind → String
  | integer => "int"
  | double => "float"
  | text => "str"
  | bool => "bool"
  | null => "NoneType"

inductive EditError
  | jsonPath (cause : JsonPathError)
  | pomPath (cause : PomPathError)
  | notFound (target : Option String) (path : String)
  /-- The document is a scalar, which has no nodes to edit. -/
  | scalarDocument (kind : ScalarKind)
deriving DecidableEq, Repr

def EditError.message : EditError → String
  | jsonPath cause => cause.message
  | pomPath cause => cause.message
  | notFound target path => s!"Unable to locate path '{path}' in '{optionText target}'"
  | scalarDocument kind => s!"No path resolver for document of type {kind.label}"

/-- The new value of one node, or its deletion.  Documents need not have a name. -/
structure DocumentEdit where
  document : Option String
  path : String
  value : Option String
deriving DecidableEq, Repr

def Operation.edit (op : Operation) : DocumentEdit := ⟨some op.target, op.path, op.value⟩

/-- How nodes of a kind of document are found, given a value, and deleted. -/
structure Editor (δ : Type) where
  Place : Type
  locate : String → δ → Except EditError (Option Place)
  set : Place → String → δ → δ
  erase : Place → δ → δ

namespace Editor
variable {δ : Type}

def change (e : Editor δ) (place : e.Place) (value : Option String) (doc : δ) : δ :=
  match value with
  | some value => e.set place value doc
  | none => e.erase place doc

def apply (e : Editor δ) (edit : DocumentEdit) (doc : δ) : Except EditError δ :=
  match e.locate edit.path doc with
  | .error cause => .error cause
  | .ok none => .error (.notFound edit.document edit.path)
  | .ok (some place) => .ok (e.change place edit.value doc)

/-- What is logged about an edit with that outcome. -/
def logOf (edit : DocumentEdit) (outcome : Except EditError δ) : PassLog :=
  let place := s!"{edit.path} in {optionText edit.document}"
  ⟨.debug, s!"Resolving {place}"⟩ ::
    match outcome with
    | .ok _ =>
      let value := optionText (edit.value.map QuotedText.quoted)
      [⟨.debug, s!"Updated {place} to {value}"⟩]
    | .error (.notFound ..) => [⟨.debug, s!"not_found: {place}"⟩]
    | .error _ => []

/-- The outcome of edits made in order, up to the first that fails. -/
structure Batch (δ : Type) where
  document : δ
  /-- How many edits were made. -/
  applied : Nat
  log : PassLog
  failure : Option EditError

def applyAll (e : Editor δ) : List DocumentEdit → δ → Batch δ
  | [], doc => ⟨doc, 0, [], none⟩
  | edit :: edits, doc =>
    let outcome := e.apply edit doc
    match outcome with
    | .error cause => ⟨doc, 0, logOf edit outcome, some cause⟩
    | .ok doc =>
      let rest := applyAll e edits doc
      { rest with applied := rest.applied + 1, log := logOf edit outcome ++ rest.log }

/-- Edits made one by one, as long as none fails. -/
def applyEach (e : Editor δ) (edits : List DocumentEdit) (doc : δ) : Except EditError δ :=
  edits.foldlM (fun doc edit => e.apply edit doc) doc

private theorem applyEach_cons (e : Editor δ) (edit : DocumentEdit)
    (edits : List DocumentEdit) (doc : δ) :
    e.applyEach (edit :: edits) doc = e.apply edit doc >>= e.applyEach edits := rfl

/-- A batch makes its edits up to the first that fails, and counts those it has made. -/
theorem applyAll_stops (e : Editor δ) (edits : List DocumentEdit) (doc : δ) :
    ∃ made left, edits = made ++ left ∧ (e.applyAll edits doc).applied = made.length ∧
      e.applyEach made doc = .ok (e.applyAll edits doc).document ∧
      match left with
      | [] => (e.applyAll edits doc).failure = none
      | edit :: _ => ∃ cause, e.apply edit (e.applyAll edits doc).document = .error cause ∧
          (e.applyAll edits doc).failure = some cause := by
  induction edits generalizing doc with
  | nil => exact ⟨[], [], rfl, rfl, rfl, rfl⟩
  | cons edit edits ih =>
    cases ha : e.apply edit doc with
    | error cause =>
      simp only [applyAll, ha]
      exact ⟨[], edit :: edits, rfl, rfl, rfl, cause, ha, rfl⟩
    | ok next =>
      obtain ⟨made, left, hedits, happlied, hmade, hstop⟩ := ih next
      simp only [applyAll, ha]
      refine ⟨edit :: made, left, by rw [hedits, List.cons_append], ?_, ?_, hstop⟩
      · rw [happlied, List.length_cons]
      · rw [applyEach_cons, ha]
        exact hmade

/-- A batch that does not fail makes all of its edits. -/
theorem applyAll_complete (e : Editor δ) {edits : List DocumentEdit} {doc : δ}
    (h : (e.applyAll edits doc).failure = none) :
    (e.applyAll edits doc).applied = edits.length ∧
      e.applyEach edits doc = .ok (e.applyAll edits doc).document := by
  obtain ⟨made, left, hedits, happlied, hmade, hstop⟩ := e.applyAll_stops edits doc
  cases left with
  | nil =>
    rw [List.append_nil] at hedits
    exact ⟨hedits ▸ happlied, hedits ▸ hmade⟩
  | cons edit left =>
    obtain ⟨cause, -, hf⟩ := hstop
    cases hf.symm.trans h

end Editor

namespace DocumentEdits

/-- The first match of a path in a JSON document. -/
def locateJson (path : String) (doc : JsonValue) : Except EditError (Option JsonRoute) :=
  match JsonPath.compile path with
  | .error cause => .error (.jsonPath cause)
  | .ok segments => .ok (JsonMatches.first? segments doc)

def jsonEditor : Editor JsonValue where
  Place := JsonRoute
  locate := locateJson
  set route value doc := JsonValue.set (.text (.ofString value)) route doc
  erase route doc := doc.erase route

def locatePom (path : String) (root : XmlNode) : Except EditError (Option (List Nat)) :=
  (PomPath.find? path root).mapError .pomPath

def pomEditor : Editor XmlNode where
  Place := List Nat
  locate := locatePom
  set place value root := root.modifyAt (XmlNode.setText value) place
  erase place root := root.eraseAt place

def scalarKind? : JsonValue → Option ScalarKind
  | .null => some .null
  | .bool _ => some .bool
  | .integer _ => some .integer
  | .double _ => some .double
  | .text _ => some .text
  | .array _ | .object _ => none

/-- The editor for a JSON document, which has to be a container. -/
def editorFor (doc : JsonValue) : Except EditError (Editor JsonValue) :=
  match scalarKind? doc with
  | some kind => .error (.scalarDocument kind)
  | none => .ok jsonEditor

/-- The value at the first match of a path. -/
def valueAt (path : String) (doc : JsonValue) : Except EditError JsonValue :=
  match locateJson path doc with
  | .error cause => .error cause
  | .ok place =>
    match place.bind doc.get? with
    | some value => .ok value
    | none => .error (.notFound none path)

end DocumentEdits
end BuildAlign
