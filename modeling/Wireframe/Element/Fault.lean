import Wireframe.Location
import Wireframe.Value.Text

/-!
# Faults

A fault says why a value was not accepted and where.  Its location names the
attribute and, below it, the alternative that was tried.  A value that should become
text and cannot be written ends the reading of everything around it.
-/

namespace Wireframe

/-- Why a value was not accepted. -/
inductive Cause
  | missing
  | notText
  | undecodableText
  | notFlag
  | unclearFlag
  | notInteger
  | unreadInteger
  | fractionalInteger
  | unboundedInteger
  | oversizedInteger
  | below (least : Int)
  | notNumber
  | unreadNumber
  | notChoice (choices : List String)
  | notMember (choices : List String)
  | notList
  | notTuple
  | notSet
  | tooFew
  | notTable
  | notRecord (className : String)
  | keyNotText
  | noTagSource
  | noTag
  | unknownTag (tag : String) (known : List String)
  | optionNotWritten (reason : NoText)
  | notWritten (reason : NoText)
  deriving DecidableEq, Repr

namespace Cause

/-- Choices with commas between them and a word before the last one. -/
def listChoices : List String → String
  | [] => ""
  | [c] => c
  | [c, d] => c ++ " or " ++ d
  | c :: cs => c ++ ", " ++ listChoices cs

def message : Cause → String
  | missing => "Field required"
  | notText => "Input should be a valid string"
  | undecodableText =>
    "Input should be a valid string, unable to parse raw data as a unicode string"
  | notFlag => "Input should be a valid boolean"
  | unclearFlag => "Input should be a valid boolean, unable to interpret input"
  | notInteger => "Input should be a valid integer"
  | unreadInteger => "Input should be a valid integer, unable to parse string as an integer"
  | fractionalInteger => "Input should be a valid integer, got a number with a fractional part"
  | unboundedInteger => "Input should be a finite number"
  | oversizedInteger => "Unable to parse input string as an integer, exceeded maximum size"
  | below least => s!"Input should be greater than or equal to {least}"
  | notNumber => "Input should be a valid number"
  | unreadNumber => "Input should be a valid number, unable to parse string as a number"
  | notChoice choices => "Input should be " ++ listChoices choices
  | notMember choices => "Input should be " ++ listChoices choices
  | notList => "Input should be a valid list"
  | notTuple => "Input should be a valid tuple"
  | notSet => "Input should be a valid frozenset"
  | tooFew => "Tuple should have at least 1 item after validation, not 0"
  | notTable => "Input should be a valid dictionary"
  | notRecord className => s!"Input should be a valid dictionary or instance of {className}"
  | keyNotText => "Keys should be strings"
  | noTagSource => "Input should be a valid dictionary or object to extract fields from"
  | noTag => "Unable to extract tag using discriminator 'type'"
  | unknownTag tag known =>
    s!"Input tag '{tag}' found using 'type' does not match any of the expected tags: " ++
      ", ".intercalate (known.map fun t => "'" ++ t ++ "'")
  | optionNotWritten reason => "Value error, " ++ reason.message
  | notWritten reason => reason.message

/-- What ends all reading without a report, if the cause does. -/
def abrupt? : Cause → Option NoText
  | notWritten reason => some reason
  | _ => none

end Cause

structure Fault where
  location : Location
  cause : Cause
  deriving DecidableEq, Repr

namespace Fault

/-- The fault of a value as it is itself. -/
def here (cause : Cause) : List Fault := [⟨[], cause⟩]

/-- Faults of a part, located in the whole. -/
def under (step : Step) (faults : List Fault) : List Fault :=
  faults.map fun f => { f with location := step :: f.location }

end Fault

end Wireframe
