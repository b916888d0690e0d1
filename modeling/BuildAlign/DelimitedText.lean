/-! # Fields between delimiters

Splitting and joining at one character, with no way to escape it. -/
namespace BuildAlign.DelimitedText

/-- The pieces between the delimiters; a text without one is a single piece. -/
def split (delimiter : Char) : List Char → List (List Char)
  | [] => [[]]
  | c :: cs =>
    if c = delimiter then [] :: split delimiter cs
    else match split delimiter cs with
      | [] => [[c]]
      | piece :: pieces => (c :: piece) :: pieces

def join (delimiter : Char) : List (List Char) → List Char
  | [] => []
  | [piece] => piece
  | piece :: pieces => piece ++ delimiter :: join delimiter pieces

/-- What stands before and behind the first delimiter, if there is one. -/
def cut? (delimiter : Char) : List Char → Option (List Char × List Char)
  | [] => none
  | c :: cs =>
    if c = delimiter then some ([], cs)
    else (cut? delimiter cs).map fun (before, behind) => (c :: before, behind)

theorem split_ne_nil (delimiter : Char) (cs : List Char) : split delimiter cs ≠ [] := by
  cases cs with
  | nil => simp [split]
  | cons c cs =>
    simp only [split]
    split
    · simp
    · split <;> simp

theorem join_split (delimiter : Char) (cs : List Char) :
    join delimiter (split delimiter cs) = cs := by
  induction cs with
  | nil => rfl
  | cons c cs ih =>
    simp only [split]
    split
    · next h =>
      cases hs : split delimiter cs with
      | nil => exact absurd hs (split_ne_nil delimiter cs)
      | cons piece pieces => rw [hs] at ih; simp [join, ih, h]
    · cases hs : split delimiter cs with
      | nil => exact absurd hs (split_ne_nil delimiter cs)
      | cons piece pieces =>
        rw [hs] at ih
        cases pieces with
        | nil => simpa [join] using ih
        | cons next pieces => simpa [join] using ih

end BuildAlign.DelimitedText
