import Wireframe.Element.Fault

/-!
# Diagnostics

A diagnostic reports one problem of a document with the path of the node at fault
and, where it is known, the place of the node in the text.  Lines and columns are
counted from zero and shown from one.
-/

namespace Wireframe

inductive DiagnosticKind
  | unreadable
  | wrongRoot
  | missingAttribute
  | unknownType
  | badValue
  deriving DecidableEq, Repr

namespace DiagnosticKind

def all : List DiagnosticKind := [unreadable, wrongRoot, missingAttribute, unknownType, badValue]

def name : DiagnosticKind → String
  | unreadable => "SYNTAX"
  | wrongRoot => "SCHEMA"
  | missingAttribute => "MISSING_REQUIRED_FIELD"
  | unknownType => "INVALID_FIELD_TYPE"
  | badValue => "INVALID_VALUE"

def ofName? (name : String) : Option DiagnosticKind :=
  all.find? fun k => k.name == name

end DiagnosticKind

/-- A place in a text. -/
structure Position where
  line : Nat
  column : Nat
  deriving DecidableEq, Repr

structure Diagnostic where
  kind : DiagnosticKind
  message : String
  path : String
  line : Option Nat
  column : Option Nat
  deriving DecidableEq, Repr

namespace Diagnostic

/-- A diagnostic at a place of the text, if that is known. -/
def located (kind : DiagnosticKind) (message path : String) (position : Option Position) :
    Diagnostic :=
  ⟨kind, message, path, position.map Position.line, position.map Position.column⟩

/-- Where the problem is: the path, then the place in the text. -/
def locationText (d : Diagnostic) : String :=
  let path := if d.path.isEmpty then "" else s!" at \"{d.path}\""
  let place := match d.line, d.column with
    | none, _ => ""
    | some line, none => s!" (line {line + 1})"
    | some line, some column => s!" (line {line + 1}, column {column + 1})"
  path ++ place

def render (d : Diagnostic) : String :=
  s!"[{d.kind.name}]{d.locationText}: {d.message}"

def renderAll (ds : List Diagnostic) : String :=
  "\n".intercalate (ds.map render)

/-- What an empty or missing text adds to a message. -/
def clause (before : String) (text : Option String) (after : String) : String :=
  match text with
  | none => ""
  | some s => if s.isEmpty then "" else before ++ s ++ after

/-- The report of a text that cannot be read.  The place of the problem itself is preferred
to the place of what was being read. -/
def ofProblem (context : Option String) (contextPosition : Option Position)
    (problem : Option String) (position : Option Position) : Diagnostic :=
  located .unreadable ("Invalid YAML" ++ clause ": " problem "" ++ clause " (" context ")") ""
    (position <|> contextPosition)

end Diagnostic

namespace Step

def render : Step → String
  | name s => s
  | place i => toString i
  | flag b => if b then "True" else "False"

def leadsTo (step : Step) (k : Key) : Bool :=
  match step with
  | name s => k.text? == some s
  | place i => k.same (.scalar (.integer i))
  | flag b => k.same (.scalar (.flag b))

end Step

namespace Value

def child? (v : Value) (step : Step) : Option Value :=
  match v with
  | map entries => (entries.find? fun e => step.leadsTo e.1).map Prod.snd
  | list xs | tuple xs =>
    match step with
    | .place i => if 0 ≤ i then xs[i.toNat]? else none
    | _ => none
  | _ => none

end Value

namespace Fault

/-- Follows a location through a tree.  Steps that lead nowhere name alternatives or missing
attributes and are left out; the last of them is remembered. -/
def follow (tree : Value) (missing : Option Step) : Location → Location × Option Step
  | [] => ([], missing)
  | step :: rest =>
    match tree.child? step with
    | some child =>
      let (kept, missing) := follow child missing rest
      (step :: kept, missing)
    | none => follow tree (some step) rest

def kind (f : Fault) : DiagnosticKind :=
  match f.cause with
  | .missing => .missingAttribute
  | .unknownTag _ _ => .unknownType
  | _ => .badValue

def diagnose (tree : Value) (f : Fault) : Diagnostic :=
  let (location, missing) := follow tree none f.location
  let message := match f.cause, missing with
    | .missing, some step => s!"Missing required attribute \"{step.render}\""
    | cause, _ => cause.message
  Diagnostic.located f.kind message location.render none

end Fault

end Wireframe
