/-! # Edit operations and their one-line notation

One property value holds any number of edits.  A comma separates records, a colon separates the
fields `target:path:value` of a record, and a backslash makes the next character literal.  Blanks
count. -/
namespace BuildAlign

/-- Sets the node at `path` in the document `target`, or deletes it when there is no value. -/
structure Operation where
  target : String
  path : String
  value : Option String
deriving DecidableEq, Repr

inductive OperationDefect
  | danglingEscape | tooFewFields | tooManyFields | emptyTarget | emptyPath | relativePath
deriving DecidableEq, Repr

/-- A record that is no operation, with its text as written. -/
structure OperationError where
  defect : OperationDefect
  record : String
deriving DecidableEq, Repr

def OperationDefect.text : OperationDefect → String
  | danglingEscape => "Dangling escape character at end of input"
  | tooFewFields => "Operation needs at least target:path"
  | tooManyFields => "Too many fields in operation (escape literal ':' and ',' with '\\')"
  | emptyTarget => "Operation target is empty"
  | emptyPath => "Operation path is empty"
  | relativePath => "JSON path must start with '$'"

def OperationError.message (e : OperationError) : String := s!"{e.defect.text}: '{e.record}'"

namespace EditOperation

/-- The text of a record and its fields, of which there is at least one. -/
structure Record where
  raw : List Char
  first : List Char
  others : List (List Char)
deriving DecidableEq, Repr

def Record.empty : Record := ⟨[], [], []⟩
def Record.fields (r : Record) : List (List Char) := r.first :: r.others

/-- Puts a character before the first field; it was written as `raw`. -/
def Record.literal (raw : List Char) (c : Char) (r : Record) : Record :=
  ⟨raw ++ r.raw, c :: r.first, r.others⟩

/-- Puts an empty field before the others. -/
def Record.delimited (r : Record) : Record := ⟨':' :: r.raw, [], r.fields⟩

/-- The record that the text begins with and those behind its unescaped commas; `none` when the text
ends in a backslash that escapes nothing. -/
def split : List Char → Option (Record × List Record)
  | [] => some (.empty, [])
  | '\\' :: c :: cs => (split cs).map fun (r, rs) => (r.literal ['\\', c] c, rs)
  | ['\\'] => none
  | ',' :: cs => (split cs).map fun (r, rs) => (.empty, r :: rs)
  | ':' :: cs => (split cs).map fun (r, rs) => (r.delimited, rs)
  | c :: cs => (split cs).map fun (r, rs) => (r.literal [c] c, rs)

def behindLastComma? : List Char → Option (List Char)
  | [] => none
  | '\\' :: _ :: cs => behindLastComma? cs
  | ',' :: cs => some ((behindLastComma? cs).getD cs)
  | _ :: cs => behindLastComma? cs

/-- What stands behind the last unescaped comma. -/
def lastRecord (cs : List Char) : List Char := (behindLastComma? cs).getD cs

def records (text : String) : Except OperationError (List Record) :=
  match split text.toList with
  | some (r, rs) => .ok (r :: rs)
  | none => .error ⟨.danglingEscape, String.ofList (lastRecord text.toList)⟩

def ofFields : List (List Char) → Except OperationDefect Operation
  | [] | [_] => .error .tooFewFields
  | [target, path] => make target path none
  | [target, path, value] => make target path (some (String.ofList value))
  | _ => .error .tooManyFields
where
  make (target path : List Char) (value : Option String) : Except OperationDefect Operation :=
    if target = [] then .error .emptyTarget
    else if path = [] then .error .emptyPath
    else .ok ⟨String.ofList target, String.ofList path, value⟩

def ofRecord (r : Record) : Except OperationError Operation :=
  match ofFields r.fields with
  | .ok op => .ok op
  | .error defect => .error ⟨defect, String.ofList r.raw⟩

/-- The operations of a property value, in order; an empty value holds none. -/
def parse (text : String) : Except OperationError (List Operation) :=
  if text = "" then .ok [] else do (← records text).mapM ofRecord

def isSpecial (c : Char) : Bool := c = '\\' || c = ':' || c = ','

def escape (cs : List Char) : List Char :=
  cs.flatMap fun c => if isSpecial c then ['\\', c] else [c]

def escaped (s : String) : String := String.ofList (escape s.toList)

def fieldsOf (op : Operation) : List String := op.target :: op.path :: op.value.toList

def render (op : Operation) : String := ":".intercalate ((fieldsOf op).map escaped)

def renderAll (ops : List Operation) : String := ",".intercalate (ops.map render)

end EditOperation
end BuildAlign
