import Wireframe.Element.Attributes
import Wireframe.Element.Description
import Wireframe.Json.Printer

/-!
# The schema of documents

The JSON Schema of documents in canonical form is made from the attributes of the
records, so that it cannot disagree with how documents are read.  Every record and
every named shape has a definition of its own.
-/

namespace Wireframe.Schema

def object (members : List (String × Json)) : Json := .object members

def typed (name : String) : List (String × Json) := [("type", .string name)]

def reference (name : String) : Json := object [("$ref", .string ("#/$defs/" ++ name))]

def ofRecord (t : RecordType) : Json := reference t.className

/-- One of several constants; a single one is written as such. -/
def ofChoices (type : String) (choices : List Json) : Json :=
  match choices with
  | [c] => object (("const", c) :: typed type)
  | cs => object (("enum", .array cs) :: typed type)

def fieldRecords : List RecordType :=
  (FieldType.known ++ [FieldType.unrecognized]).map RecordType.field

def actionRecords : List RecordType := ActionType.all.map RecordType.action

def actionSchema : Json :=
  let target (t : ActionType) : String × Json :=
    (t.tag, .string ("#/$defs/" ++ t.className))
  object [("oneOf", .array (actionRecords.map ofRecord)),
    ("discriminator", object [("propertyName", .string "type"),
      ("mapping", object (ActionType.all.map target))])]

def ofKind : Kind → Json
  | .anything => object []
  | .text => object (typed "string")
  | .flag => object (typed "boolean")
  | .integer none => object (typed "integer")
  | .integer (some least) => object (("minimum", .integer least) :: typed "integer")
  | .number => object (typed "number")
  | .word choices => ofChoices "string" (choices.map Json.string)
  | .oneOf choices => ofChoices "integer" (choices.map Json.integer)
  | .listOf k => object (("items", ofKind k) :: typed "array")
  | .tableOf .anything => object (("additionalProperties", .bool true) :: typed "object")
  | .tableOf k => object (("additionalProperties", ofKind k) :: typed "object")
  | .row => reference "DataTableRow"
  | .optionList => object (("items", ofRecord .option) :: typed "array")
  | .commaList => object (("items", object (typed "string")) :: typed "array")
  | .record t => ofRecord t
  | .action => actionSchema
  | .field => object [("oneOf", .array (fieldRecords.map ofRecord))]

def ofKinds : List Kind → Json
  | [k] => ofKind k
  | ks => object [("anyOf", .array (ks.map ofKind))]

/-- The alternatives of a shape without null. -/
def alternatives (s : Shape) : List Json :=
  match s.named with
  | some n => [reference n.name]
  | none => s.kinds.map ofKind

def ofShape (s : Shape) : Json :=
  if s.nullable then object [("anyOf", .array (alternatives s ++ [object (typed "null")]))]
  else
    match alternatives s with
    | [j] => j
    | js => object [("anyOf", .array js)]

/-- Whether a shape only refers to a definition, which has a title of its own. -/
def isReference (s : Shape) : Bool :=
  match s.named, s.kinds with
  | some _, _ => true
  | none, [.record _] => true
  | _, _ => false

def titleOf (name : String) : String :=
  let rec capitalize (start : Bool) : List Char → List Char
    | [] => []
    | '_' :: s => ' ' :: capitalize true s
    | c :: s => (if start then c.toUpper else c) :: capitalize (!c.isAlpha) s
  String.ofList (capitalize true name.toList)

def defaultMember : Default → List (String × Json)
  | .null => [("default", .null)]
  | .text s => [("default", .string s)]
  | .integer i => [("default", .integer i)]
  | .required | .noItems | .blank _ => []

def shownName (a : Attribute) : String := a.spellings.headD a.name

def titleMember (a : Attribute) : List (String × Json) :=
  match a.title with
  | some t => [("title", .string t)]
  | none => if isReference a.shape then [] else [("title", .string (titleOf (shownName a)))]

def descriptionMember (a : Attribute) : List (String × Json) :=
  match a.description with
  | some d => [("description", .string d)]
  | none => []

def members : Json → List (String × Json)
  | .object ms => ms
  | _ => []

def ofAttribute (a : Attribute) : String × Json :=
  (shownName a, object (members (ofShape a.shape) ++ defaultMember a.default ++ titleMember a ++
    descriptionMember a))

def requiredMember (attributes : List Attribute) : List (String × Json) :=
  match (attributes.filter fun a => a.default == .required).map shownName with
  | [] => []
  | names => [("required", .array (names.map Json.string))]

/-- Unrecognized fields keep attributes that are not listed. -/
def openMember : RecordType → List (String × Json)
  | .field .unrecognized => [("additionalProperties", .bool true)]
  | _ => []

def explanationMember (t : RecordType) : List (String × Json) :=
  if t.explanation.isEmpty then [] else [("description", .string t.explanation)]

/-- What a record has to look like, without its title and explanation. -/
def body (t : RecordType) : List (String × Json) :=
  [("properties", object (t.attributes.map ofAttribute)), ("type", .string "object")] ++
    requiredMember t.attributes ++ openMember t

def recordDefinition (t : RecordType) : String × Json :=
  (t.className, object (body t ++ [("title", .string t.className)] ++ explanationMember t))

def namedShapes : List NamedShape := [.align, .condition, .direction, .options, .size, .variant]

def definitions : List (String × Json) :=
  ((RecordType.plain.filter fun t => t != .document) ++ actionRecords ++ fieldRecords).map
      recordDefinition ++
    namedShapes.map (fun n => (n.name, ofKinds n.kinds)) ++
    [("DataTableRow", ofKind (.tableOf .anything))]

def dialect : String :=
  "/".intercalate ["https:", "", "json-schema.org", "draft", "2020-12", "schema"]

def document : Json :=
  object (body .document ++
    [("$defs", object definitions), ("title", .string "screendoc"),
     ("description", .string "JSON Schema for screen documents"),
     ("$schema", .string dialect)])

def render (layout : Json.Layout) : String := document.render layout

end Wireframe.Schema
