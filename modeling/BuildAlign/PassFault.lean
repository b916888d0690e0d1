import BuildAlign.AlignmentSettings
import BuildAlign.CommandArguments
import BuildAlign.DocumentEdits
import BuildAlign.JsonReader
import BuildAlign.VersionPolicy
import BuildAlign.XmlEncoding

/-! # What can end a pass -/
namespace BuildAlign

inductive PassFault
  | usage (cause : ArgumentError)
  /-- A separator was attached to an option as its value. -/
  | separatorValue (flag : Flag)
  | operation (cause : OperationError)
  | settings (cause : SettingsError)
  | edit (cause : EditError)
  | policy (cause : PolicyViolation)
  | noProperties (path : String)
  | noJson (path : String)
  | noPom (path : String)
  | json (cause : JsonFault)
  | xml (cause : XmlFault)
  | directory (path : String)
  | tooLong (path : String)
  /-- A text with lone halves of surrogate pairs cannot be written. -/
  | unwritable (halves : LoneHalves)
deriving DecidableEq, Repr

namespace PassFault

/-- The use that is made of the value of an option, which a separator does not allow. -/
def useOf : Flag → String
  | .define => "partition"
  | _ => "exists"

def unwritableText (halves : LoneHalves) : String :=
  let last := halves.position + halves.others
  let place :=
    if halves.others = 0 then
      let code := String.ofList (QuotedText.hexadecimal 4 halves.first)
      s!"character '\\u{code}' in position {halves.position}"
    else s!"characters in position {halves.position}-{last}"
  s!"'utf-8' codec can't encode {place}: surrogates not allowed"

def message : PassFault → String
  | usage cause => cause.message
  | separatorValue flag => s!"'list' object has no attribute '{useOf flag}'"
  | operation cause => cause.message
  | settings cause => cause.message
  | edit cause => cause.message
  | policy cause => cause.message
  | noProperties path => s!"Properties file {path} not found"
  | noJson path => s!"JSON file {path} not found"
  | noPom path => s!"No pom.xml found at {path}"
  | json cause => cause.message
  | xml cause => cause.message
  | directory path => s!"[Errno 21] Is a directory: {QuotedText.quoted path}"
  | tooLong path => s!"[Errno 36] File name too long: {QuotedText.quoted path}"
  | unwritable halves => unwritableText halves

/-- Whether the fault is reported to the user; the others break the program off. -/
def isReported : PassFault → Bool
  | settings (.versionFormat _) => false
  | edit (.jsonPath ⟨_, .noNumber _⟩) | edit (.pomPath ⟨_, .noNumber _⟩) => false
  | edit (.scalarDocument _) => false
  | separatorValue _ | json _ | xml _ | directory _ | tooLong _ | unwritable _ => false
  | _ => true

end PassFault
end BuildAlign
