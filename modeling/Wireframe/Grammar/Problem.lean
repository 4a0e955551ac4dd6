import Wireframe.Positions
import Wireframe.Element.FieldType
import Wireframe.Grammar.Collection

/-!
# Problems of structure

What can be wrong with the structure of a document, and how it is worded.
-/

namespace Wireframe

inductive Problem
  | tooManyValues (limit : Int)
  | tooDeep (limit : Int)
  | rootNotObject
  | noCollection (kind : CollectionKind)
  | notCollection (kind : CollectionKind)
  | keyTwice (kind : CollectionKind) (key : String)
  | notObject (subject : String)
  | notArray (subject : String)
  | emptyArray (subject : String) (key : String)
  | noAttribute (subject : String) (key : String)
  | noItems (subject : String) (key : String)
  | noOptions (type : String)
  | notOptions
  | emptyOptions
  | actionType (type : Value)
  | componentType (type : Value)
  | noDestination
  | notName
  | noScreenName
  deriving Repr

namespace Problem

def kind : Problem → DiagnosticKind
  | rootNotObject => .wrongRoot
  | noCollection _ | noAttribute _ _ | noItems _ _ | noOptions _ | noDestination
  | noScreenName => .missingAttribute
  | actionType _ | componentType _ => .unknownType
  | _ => .badValue

def article (key : String) : String :=
  match key.toList with
  | c :: _ => if ['a', 'e', 'i', 'o', 'u'].contains c then "an" else "a"
  | [] => "a"

def message : Problem → String
  | tooManyValues limit => s!"Document has more than {limit} values"
  | tooDeep limit => s!"Document is nested deeper than {limit} levels"
  | rootNotObject => "Root must be an object"
  | noCollection kind => s!"Schema must have a \"{kind.name}\" section"
  | notCollection kind => s!"\"{kind.name}\" must be an object or array"
  | keyTwice kind key => s!"{kind.elementTitle} key \"{key}\" is defined more than once"
  | notObject subject => s!"{subject} must be an object"
  | notArray subject => s!"{subject} must be an array"
  | emptyArray subject key => s!"{subject} \"{key}\" must not be empty"
  | noAttribute subject key => s!"{subject} must have {article key} \"{key}\""
  | noItems subject key => s!"{subject} must have \"{key}\""
  | noOptions type => s!"Field type \"{type}\" requires \"options\""
  | notOptions => "Options must be an array or a reference string"
  | emptyOptions => "Options must not be empty"
  | actionType type =>
    s!"Invalid action type: \"{type.render}\". Valid types are: " ++
      ", ".intercalate (ActionType.all.map ActionType.tag)
  | componentType type =>
    s!"Invalid component type: \"{type.render}\". Valid types are: " ++
      ", ".intercalate (ComponentType.all.map ComponentType.tag)
  | noDestination => "Navigate action must have a \"to\" destination"
  | notName => "Name must be a string"
  | noScreenName => "Screen must have a \"name\" or \"title\""

/-- Whether all that the message tells can be written. -/
def hasText : Problem → Bool
  | actionType type | componentType type => type.hasText
  | _ => true

end Problem

/-- A problem with the location of the node that has it. -/
structure Finding where
  problem : Problem
  location : Location
  deriving Repr

namespace Finding

def kind (f : Finding) : DiagnosticKind := f.problem.kind

/-- The report of a finding, with its place in the text where that is known. -/
def diagnose (positions : Positions) (f : Finding) : Diagnostic :=
  Diagnostic.located f.kind f.problem.message f.location.render (positions.placeOf? f.location)

end Finding

end Wireframe
