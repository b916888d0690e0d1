import BuildAlign.BuildProperties
import BuildAlign.CharacterClasses
import BuildAlign.MessageTexts

/-! # Arguments of the command line

One positional argument names the project.  Options may stand anywhere before `--`, long ones may be
cut short, and short ones may be written together, the value of the last one included. -/
namespace BuildAlign

inductive Flag | help | define | properties | dryRun | verbose
deriving DecidableEq, Repr

namespace Flag

/-- The spellings of an option, in the order they are listed in. -/
def spellings : Flag → List String
  | help => ["-h", "--help"]
  | define => ["-D", "--define"]
  | properties => ["--properties", "-p"]
  | dryRun => ["--dry-run", "-n"]
  | verbose => ["--verbose", "-v"]

def takesValue : Flag → Bool
  | define | properties => true
  | _ => false

def label (f : Flag) : String := "/".intercalate f.spellings

def all : List Flag := [help, define, properties, dryRun, verbose]

def spelled : List (String × Flag) := all.flatMap fun f => f.spellings.map fun s => (s, f)

def ofSpelling? (s : String) : Option Flag := (spelled.find? fun (t, _) => t = s).map Prod.snd

end Flag

inductive ArgumentError
  | ambiguous (option : String) (candidates : List String)
  | noValue (flag : Flag)
  | unwantedValue (flag : Flag) (value : String)
  | noProject
  | unrecognized (arguments : List String)
  | definition (text : String)
deriving DecidableEq, Repr

def ArgumentError.message : ArgumentError → String
  | ambiguous option candidates =>
    let listed := ", ".intercalate candidates
    s!"ambiguous option: {option} could match {listed}"
  | noValue flag => s!"argument {flag.label}: expected one argument"
  | unwantedValue flag value =>
    s!"argument {flag.label}: ignored explicit argument {QuotedText.quoted value}"
  | noProject => "the following arguments are required: project"
  | unrecognized arguments =>
    let listed := " ".intercalate arguments
    s!"unrecognized arguments: {listed}"
  | definition text => s!"Invalid property definition '{text}'"

/-- What the command line asks for. -/
structure CommandArguments where
  project : Option String
  definitions : List String
  properties : Option String
  dryRun : Bool
  verbose : Bool
  /-- The help was asked for; what comes behind does not count. -/
  help : Bool
  unrecognized : List String
deriving DecidableEq, Repr

namespace CommandArguments

def empty : CommandArguments := ⟨none, [], none, false, false, false, []⟩

/-- An argument by its form: an option, which is spelled long or short, with the text attached to
it, an unknown option, a separator, or a plain word. -/
inductive Form
  | option (flag : Flag) (long : Bool) (attached : Option (List Char))
  | unknown (text : String)
  | separator
  | plain (text : String)
deriving DecidableEq, Repr

/-- A number is no option, although it begins with a minus. -/
def isNegativeNumber (cs : List Char) : Bool :=
  match cs with
  | '-' :: cs =>
    let cs := match cs.getLast? with
      | some '\n' => cs.dropLast
      | _ => cs
    match DelimitedText.cut? '.' cs with
    | none => cs ≠ [] && cs.all DecimalDigits.isDecimal
    | some (whole, places) =>
      whole.all DecimalDigits.isDecimal && places ≠ [] && places.all DecimalDigits.isDecimal
  | _ => false

/-- The spellings that an argument may be short for, with the option of each and what is
attached. -/
def candidates (text : String) : List (String × Form) :=
  let beginning (start : List Char) (attached : Option (List Char)) :=
    (Flag.spelled.filter fun (s, _) => start.isPrefixOf s.toList).map fun (s, f) =>
      (s, .option f true attached)
  match text.toList with
  | '-' :: '-' :: _ =>
    match DelimitedText.cut? '=' text.toList with
    | some (start, value) => beginning start (some value)
    | none => beginning text.toList none
  | '-' :: c :: rest =>
    (Flag.spelled.filter fun (s, _) => s.toList = ['-', c]).map fun (s, f) =>
      (s, .option f false (some rest))
  | _ => []

def isLong (spelling : List Char) : Bool := ['-', '-'].isPrefixOf spelling

/-- The form of an argument that is an option in full, perhaps with an equals sign and a value. -/
def spelledForm? (text : String) : Option Form :=
  match Flag.ofSpelling? text with
  | some f => some (.option f (isLong text.toList) none)
  | none =>
    match DelimitedText.cut? '=' text.toList with
    | some (start, value) =>
      (Flag.ofSpelling? (String.ofList start)).map fun f => .option f (isLong start) (some value)
    | none => none

def form (text : String) : Except ArgumentError Form :=
  match text.toList with
  | [] | ['-'] => .ok (.plain text)
  | '-' :: _ =>
    match spelledForm? text with
    | some f => .ok f
    | none =>
      match candidates text with
      | [(_, f)] => .ok f
      | [] =>
        if isNegativeNumber text.toList || text.toList.contains ' ' then .ok (.plain text)
        else .ok (.unknown text)
      | several => .error (.ambiguous text (several.map Prod.fst))
  | _ => .ok (.plain text)

/-- The forms of all arguments; behind a separator they are plain. -/
def forms : List String → Except ArgumentError (List Form)
  | [] => .ok []
  | "--" :: rest => .ok (.separator :: rest.map .plain)
  | text :: rest => do return (← form text) :: (← forms rest)

def set (a : CommandArguments) (f : Flag) (value : String) : CommandArguments :=
  match f with
  | .help => { a with help := true }
  | .define => { a with definitions := a.definitions ++ [value] }
  | .properties => { a with properties := some value }
  | .dryRun => { a with dryRun := true }
  | .verbose => { a with verbose := true }

def reject (a : CommandArguments) (texts : List String) : CommandArguments :=
  { a with unrecognized := a.unrecognized ++ texts }

/-- Sets an option with what is attached to it.  Behind a short option that takes no value stand
further short ones without their dashes; the last of them may still need a value from the next
argument, and is then returned. -/
def setAttached (a : CommandArguments) (f : Flag) (long : Bool) (text : List Char) :
    Except ArgumentError (CommandArguments × Option Flag) :=
  if f.takesValue then .ok (a.set f (String.ofList text), none)
  else match text with
    | [] => .error (.unwantedValue f "")
    | c :: cs =>
      match if long then none else Flag.ofSpelling? (String.ofList ['-', c]) with
      | none => .error (.unwantedValue f (String.ofList (c :: cs)))
      | some g =>
        let a := a.set f ""
        match cs with
        | [] => if g.takesValue then .ok (a, some g) else .ok (a.set g "", none)
        | c :: cs => setAttached a g false (c :: cs)

/-- Reads the arguments from left to right.  The first plain word is the project; a separator next
to it belongs to it. -/
def read (a : CommandArguments) : List Form → Except ArgumentError CommandArguments
  | [] => .ok a
  | .unknown text :: rest => read (a.reject [text]) rest
  | .separator :: .plain text :: rest =>
    if a.project.isNone then read { a with project := some text } rest
    else read (a.reject ["--", text]) rest
  | .separator :: rest => read (a.reject ["--"]) rest
  | .plain text :: .separator :: rest =>
    if a.project.isNone then read { a with project := some text } rest
    else read (a.reject [text, "--"]) rest
  | .plain text :: rest =>
    if a.project.isNone then read { a with project := some text } rest
    else read (a.reject [text]) rest
  | .option f long attached :: rest => do
    let (a, pending) ← match attached with
      | some text => setAttached a f long text
      | none => pure (if f.takesValue then (a, some f) else (a.set f "", none))
    match pending, rest with
    | none, rest => if a.help then return a else read a rest
    | some g, .plain text :: rest => if a.help then return a else read (a.set g text) rest
    | some g, _ => throw (.noValue g)

def parse (arguments : List String) : Except ArgumentError CommandArguments := do
  let a ← read empty (← forms arguments)
  if a.help then return a
  if a.project.isNone then throw .noProject
  if a.unrecognized ≠ [] then throw (.unrecognized a.unrecognized)
  return a

end CommandArguments
end BuildAlign
