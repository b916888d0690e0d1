import BuildAlign.MessageTexts

/-! # Which versions may replace which

A candidate may always replace the very same version.  In strict mode it may also replace a version
that it extends by a qualifier, as `1.1-rebuild-1` and `1.1.redhat-2` extend `1.1`. -/
namespace BuildAlign

structure PolicyViolation where
  candidate : String
  current : String
  coordinate : Option String
deriving DecidableEq, Repr

def PolicyViolation.message (v : PolicyViolation) : String :=
  let subject := match v.coordinate with
    | none | some "" => ""
    | some coordinate => " for " ++ coordinate
  s!"Strict alignment violation{subject}: '{v.candidate}' is not compatible with '{v.current}'"

/-- What is logged about a violation that is not fatal. -/
def PolicyViolation.warning (v : PolicyViolation) : PassLog :=
  let subject := match v.coordinate with
    | none | some "" => "dependency"
    | some coordinate => coordinate
  warned s!"Not aligning {subject}: '{v.candidate}' is not compatible with '{v.current}'"

namespace VersionPolicy

def isSeparator (c : Char) : Bool := c = '-' || c = '.'

/-- Whether a version is another one with a qualifier behind it. -/
def extends? : List Char → List Char → Bool
  | [], _ => false
  | c :: _, [] => isSeparator c
  | c :: cs, m :: ms => c = m && extends? cs ms

def accepts (strict : Bool) (candidate current : String) : Bool :=
  candidate = current || strict && current ≠ "" && extends? candidate.toList current.toList

/-- Whether the candidate is accepted; if not, this is an error or a warning. -/
def check (strict fails : Bool) (candidate current : String) (coordinate : Option String) :
    Except PolicyViolation (Bool × PassLog) :=
  let violation : PolicyViolation := ⟨candidate, current, coordinate⟩
  if accepts strict candidate current then .ok (true, [])
  else if fails then .error violation
  else .ok (false, violation.warning)

end VersionPolicy
end BuildAlign
