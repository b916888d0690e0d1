import BuildAlign.JsonValue
import BuildAlign.MessageTexts
import BuildAlign.ShortestDecimal

/-! # Written JSON

Documents are written with one item or member a line, indented by two blanks a level, and with all
characters but quotes, backslashes and controls standing for themselves. -/
namespace BuildAlign.JsonPrinter
open LooseText (ofList)

def escapeChar (c : Char) : List Char :=
  if c = '"' || c = '\\' then ['\\', c]
  else if c = '\n' then ['\\', 'n']
  else if c = '\r' then ['\\', 'r']
  else if c = '\t' then ['\\', 't']
  else if c = '\x08' then ['\\', 'b']
  else if c = '\x0c' then ['\\', 'f']
  else if c.toNat < 0x20 then '\\' :: 'u' :: QuotedText.hexadecimal 4 c.toNat
  else [c]

def escape : LooseChar → LooseText
  | .char c => ofList (escapeChar c)
  | .half code => [.half code]

def string (s : LooseText) : LooseText := .char '"' :: s.flatMap escape ++ [.char '"']

def integer (n : Int) : List Char :=
  (if n < 0 then ['-'] else []) ++ (Nat.repr n.natAbs).toList

/-- Numbers are written without an exponent from this order of magnitude on, ... -/
def leastPositional : Int := -4
/-- ... and below this one. -/
def leastScientific : Int := 16

/-- An exponent has a sign and at least two digits. -/
def exponent (e : Int) : List Char :=
  let ds := (Nat.repr e.natAbs).toList
  'e' :: (if e < 0 then '-' else '+') :: (if ds.length < 2 then '0' :: ds else ds)

/-- A number with the digits `ds`, the last of which counts `10 ^ g`. -/
def decimal (ds : List Char) (g : Int) : List Char :=
  let order := g + ds.length - 1
  if order < leastPositional || order ≥ leastScientific then
    let fraction := ds.drop 1
    ds.take 1 ++ (if fraction = [] then [] else '.' :: fraction) ++ exponent order
  else if order < 0 then '0' :: '.' :: List.replicate (-order - 1).toNat '0' ++ ds
  else if g ≥ 0 then ds ++ List.replicate g.toNat '0' ++ ['.', '0']
  else ds.take (order + 1).toNat ++ '.' :: ds.drop (order + 1).toNat

def double : Double → List Char
  | .nan => "NaN".toList
  | .infinite negative => (if negative then ['-'] else []) ++ "Infinity".toList
  | .finite negative m q =>
    (if negative then ['-'] else []) ++
      if m = 0 then ['0', '.', '0']
      else let (ds, g) := ShortestDecimal.digits m q; decimal ds g

def newline (level : Nat) : List Char := '\n' :: List.replicate (2 * level) ' '

mutual
def value (level : Nat) : JsonValue → LooseText
  | .null => ofList "null".toList
  | .bool b => ofList (if b then "true" else "false").toList
  | .integer n => ofList (integer n)
  | .double x => ofList (double x)
  | .text s => string s
  | .array [] => ofList ['[', ']']
  | .array (item :: rest) =>
    ofList ('[' :: newline (level + 1)) ++ value (level + 1) item ++ items (level + 1) rest
      ++ ofList (newline level ++ [']'])
  | .object [] => ofList ['\x7b', '\x7d']
  | .object ((name, v) :: rest) =>
    ofList ('\x7b' :: newline (level + 1)) ++ string name ++
      ofList [':', ' '] ++ value (level + 1) v
      ++ members (level + 1) rest ++ ofList (newline level ++ ['\x7d'])

def items (level : Nat) : List JsonValue → LooseText
  | [] => []
  | item :: rest => ofList (',' :: newline level) ++ value level item ++ items level rest

def members (level : Nat) : List (LooseText × JsonValue) → LooseText
  | [] => []
  | (name, v) :: rest =>
    ofList (',' :: newline level) ++ string name ++ ofList [':', ' '] ++ value level v
      ++ members level rest
end

/-- The document text, without a line feed at its end. -/
def print (doc : JsonValue) : LooseText := value 0 doc

end BuildAlign.JsonPrinter
