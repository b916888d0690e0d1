/-! # Texts with unpaired surrogates

An escape in a JSON string can write half of a surrogate pair without the other half.  Such a half
is part of the text and differs from all others, but it is no character and cannot be written to a
file. -/
namespace BuildAlign

/-- A character, or the code of half of a surrogate pair that stands alone. -/
inductive LooseChar
  | char (c : Char)
  | half (code : Nat)
deriving DecidableEq, Repr

abbrev LooseText := List LooseChar

/-- Halves that stand alone in a row, the first of them at a position of the text. -/
structure LoneHalves where
  position : Nat
  first : Nat
  others : Nat
deriving DecidableEq, Repr

namespace LooseText

def ofList (cs : List Char) : LooseText := cs.map .char

def ofString (s : String) : LooseText := ofList s.toList

def half? : LooseChar → Option Nat
  | .char _ => none
  | .half code => some code

/-- How many halves a text begins with. -/
def leadingHalves (t : LooseText) : Nat := (t.takeWhile fun c => (half? c).isSome).length

/-- The characters of a text, or the first halves that stand alone in it. -/
def characters (position : Nat) : LooseText → Except LoneHalves (List Char)
  | [] => .ok []
  | .char c :: rest => (characters (position + 1) rest).map (c :: ·)
  | .half code :: rest => .error ⟨position, code, leadingHalves rest⟩

/-- The text as one without surrogates. -/
def encode (t : LooseText) : Except LoneHalves String := (characters 0 t).map String.ofList

/-- The text with a replacement character for every half. -/
def shown (t : LooseText) : String :=
  String.ofList (t.map fun
    | .char c => c
    | .half _ => '\uFFFD')

private theorem characters_ofList (position : Nat) (cs : List Char) :
    characters position (ofList cs) = .ok cs := by
  induction cs generalizing position with
  | nil => rfl
  | cons c cs ih =>
    show (characters (position + 1) (ofList cs)).map (c :: ·) = _
    rw [ih]; rfl

@[simp] theorem encode_ofString (s : String) : encode (ofString s) = .ok s := by
  simp [encode, ofString, characters_ofList, Except.map]

theorem ofString_injective {s s' : String} (h : ofString s = ofString s') : s = s' := by
  have := congrArg encode h
  simpa using this

end LooseText
end BuildAlign
