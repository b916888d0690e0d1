import BuildAlign.XmlTokens

/-! # XML declarations

A document may begin with a declaration of its version, its encoding and whether it stands alone. -/
namespace BuildAlign

structure XmlDeclaration where
  encoding : Option String
  standalone : Bool
deriving DecidableEq, Repr

namespace XmlDeclaration
open XmlCharacters XmlTokens

def isValueChar (c : Char) : Bool :=
  isAsciiLetter c || isAsciiDigit c || c = '.' || c = '-' || c = '_'

/-- One setting of a declaration, with the white space before it. -/
def setting (cs : List Char) : Option ((String × String) × List Char) :=
  if !cs.head?.any isSpace then none
  else
    let cs := skipSpace cs
    let key := cs.takeWhile fun c => isAsciiLetter c
    match skipSpace (cs.drop key.length) with
    | '=' :: rest =>
      match skipSpace rest with
      | quote :: rest =>
        if quote = '"' || quote = '\'' then do
          let (value, rest) ← untilMark [quote] rest
          if value.all isValueChar then
            return ((String.ofList key, String.ofList value), rest)
          else none
        else none
      | [] => none
    | _ => none

def settings (cs : List Char) : Option (List (String × String)) :=
  if skipSpace cs = [] then some []
  else match setting cs with
    | none => none
    | some (first, rest) =>
      if rest.length < cs.length then (settings rest).map (first :: ·) else none
termination_by cs.length

def ofSettings : List (String × String) → Option XmlDeclaration
  | [("version", _)] => some ⟨none, false⟩
  | [("version", _), ("encoding", e)] => encoded e false
  | [("version", _), ("standalone", s)] => (alone? s).map (⟨none, ·⟩)
  | [("version", _), ("encoding", e), ("standalone", s)] => (alone? s).bind (encoded e)
  | _ => none
where
  alone? (s : String) : Option Bool :=
    if s = "yes" then some true else if s = "no" then some false else none
  encoded (e : String) (standalone : Bool) : Option XmlDeclaration :=
    if e.toList.head?.any isAsciiLetter then some ⟨some e, standalone⟩ else none

/-- The declaration that a text begins with, and what stands behind it. -/
def declaration (cs : List Char) : Option (XmlDeclaration × List Char) :=
  match behind? "<?xml".toList cs with
  | some rest =>
    if rest.head?.any fun c => isSpace c || c = '?' then do
      let (inner, rest) ← untilMark ['?', '>'] rest
      return (← ofSettings (← settings inner), rest)
    else some (⟨none, false⟩, cs)
  | none => some (⟨none, false⟩, cs)

end XmlDeclaration
end BuildAlign
