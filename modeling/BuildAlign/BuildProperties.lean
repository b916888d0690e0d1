import BuildAlign.CharacterClasses
import BuildAlign.DelimitedText
import BuildAlign.LineEnds
import BuildAlign.OrderedMap

/-! # Build properties

Properties come from a file of `key = value` lines and from single definitions `key=value`.  In a
file a key ends at `=`, at `:` or at a blank, lines that begin with `#` or `!` are comments, and a
line that ends in an odd number of backslashes goes on in the next one.  All other backslashes stand
for themselves. -/
namespace BuildAlign

/-- Properties of a build or a POM; one may be named without a value. -/
abbrev PropertyMap := OrderedMap String (Option String)

def PropertyMap.value? (props : PropertyMap) (key : String) : Option String := (props.get? key).join

namespace BuildProperties
open BlankText DelimitedText

abbrev Entries := OrderedMap String String

/-- Whether a value switches something on: only the word "true" does, in any case of its letters. -/
def isTrue (value : Option String) (absent : Bool) : Bool :=
  match value with
  | none => absent
  | some s => (trim s.toList).map Char.toLower = ['t', 'r', 'u', 'e']

def isLineEnd (c : Char) : Bool := c = '\r' || c = '\n'

/-- The line without line ends behind it. -/
def chomp (line : List Char) : List Char := (line.reverse.dropWhile isLineEnd).reverse

def trailingBackslashes (line : List Char) : Nat := (line.reverse.takeWhile (· = '\\')).length

def continues (line : List Char) : Bool := trailingBackslashes line % 2 = 1

/-- Whether a line goes on is told by what stands behind a part of it that does not. -/
theorem continues_append {start : List Char} (h : continues start = false) (rest : List Char) :
    continues (start ++ rest) = continues rest := by
  unfold continues trailingBackslashes at *
  rw [List.reverse_append, List.takeWhile_append]
  split
  · rw [decide_eq_false_iff_not] at h
    rw [List.length_append, decide_eq_decide]
    omega
  · rfl

def isComment (line : List Char) : Bool :=
  match trimLeft line with
  | [] => true
  | c :: _ => c = '#' || c = '!'

/-- The lines without comments and blank lines, each joined with those that continue it.  `pending`
is the line so far when the one before asks to be continued. -/
def logicalLines (pending : List Char) : List (List Char) → List (List Char)
  | [] => if pending = [] then [] else [pending]
  | raw :: rest =>
    let line := chomp raw
    if pending = [] && isComment line then logicalLines [] rest
    else
      let line := if pending = [] then line else pending ++ trimLeft line
      if continues line then logicalLines line.dropLast rest
      else line :: logicalLines [] rest

def isKeyEnd (c : Char) : Bool := c = '=' || c = ':' || isBlank c

/-- Key and value of a line that begins with its key. -/
def keyValue (line : List Char) : List Char × List Char :=
  let key := line.takeWhile (!isKeyEnd ·)
  match line.dropWhile (!isKeyEnd ·) with
  | [] => (trim key, [])
  | c :: rest =>
    if c = '=' || c = ':' then (trim key, trimLeft rest)
    else match trimLeft rest with
      | d :: value => (key, if d = '=' || d = ':' then trimLeft value else d :: value)
      | [] => (key, [])

/-- The entry of a logical line, unless its key is empty. -/
def ofLine? (line : List Char) : Option (String × String) :=
  let (key, value) := keyValue (trimLeft line)
  if key = [] then none else some (String.ofList key, String.ofList value)

def ofLines (lines : List (List Char)) : Entries :=
  OrderedMap.ofList ((logicalLines [] lines).filterMap ofLine?)

def ofText (text : String) : Entries := ofLines (split '\n' (LineEnds.normalize text.toList))

/-- A single definition; without `=` the property is set to "true".  A blank key is an error. -/
def parseDefinition (text : String) : Option (String × String) :=
  let (key, value) := match cut? '=' text.toList with
    | some (key, value) => (key, value)
    | none => (text.toList, ['t', 'r', 'u', 'e'])
  if trim key = [] then none else some (String.ofList (trim key), String.ofList value)

end BuildProperties
end BuildAlign
