import Wireframe.Element.Basic
import Wireframe.Element.Coercion
import Wireframe.Element.Options

/-!
# Reading elements

Reading turns an untyped value into an element of a wanted shape, or into every
fault that stands in the way.  It follows the value: the reading of a container is
put together from the readings of its parts, which each part brings with it as a
function of the shape that is wanted from it.
-/

namespace Wireframe

open Wireframe.Text

/-- An element that was read, and whether the value was of the wanted type already. -/
structure Reading where
  element : Element
  exact : Bool
  deriving Repr

abbrev Outcome := Except (List Fault) Reading

/-- A part of a container together with its reading. -/
structure Offer where
  value : Value
  read : Shape → Outcome

/-- The parts of a value.  A list is in order and a set is not. -/
inductive Parts
  | none
  | items (inOrder : Bool) (offers : List Offer)
  | entries (offers : List (Key × Offer))

namespace Offer

def ofText (s : String) : Offer := ⟨.text s, fun _ => .ok ⟨.text s, true⟩⟩

def find? (name : String) (offers : List (Key × Offer)) : Option Offer :=
  (offers.find? fun o => o.1.text? == some name).map Prod.snd

/-- The value that is written under a name, null if there is none. -/
def valueOf (name : String) (offers : List (Key × Offer)) : Value :=
  ((find? name offers).map Offer.value).getD .null

def put (name : String) (offer : Offer) : List (Key × Offer) → List (Key × Offer)
  | [] => [(.text name, offer)]
  | o :: os => if o.1.text? == some name then (o.1, offer) :: os else o :: put name offer os

end Offer

namespace Reading

/-- The results, or the faults of all that failed. -/
def collect {α : Type} : List (Except (List Fault) α) → Except (List Fault) (List α)
  | [] => .ok []
  | .ok a :: rest => (collect rest).map (a :: ·)
  | .error faults :: rest =>
    match collect rest with
    | .ok _ => .error faults
    | .error more => .error (faults ++ more)

def under {α : Type} (step : Step) (outcome : Except (List Fault) α) : Except (List Fault) α :=
  outcome.mapError (Fault.under step)

def ofCoerced {α : Type} (f : α → Element) : Except Cause (Coerced α) → Outcome
  | .ok c => .ok ⟨f c.value, c.exact⟩
  | .error cause => .error (Fault.here cause)

def refuse {α : Type} (cause : Cause) : Except (List Fault) α := .error (Fault.here cause)

/-- The name of an alternative in the location of a fault. -/
def label : Kind → String
  | .text => "str"
  | .flag => "bool"
  | .integer _ => "int"
  | .number => "float"
  | .anything => "any"
  | .word choices => "literal[" ++ ",".intercalate (choices.map quote) ++ "]"
  | .oneOf choices => "literal[" ++ ",".intercalate (choices.map toString) ++ "]"
  | .listOf k => "list[" ++ label k ++ "]"
  | .tableOf k => "dict[str," ++ label k ++ "]"
  | .row => "dict[str,any]"
  | .optionList => "list[" ++ RecordType.className .option ++ "]"
  | .commaList => "list[str]"
  | .record t => t.className
  | .action | .field => "tagged-union"

/-- The reading of each item, located by its place. -/
def readItems (read : Offer → Outcome) (offers : List Offer) : Except (List Fault) (List Element) :=
  collect (offers.zipIdx.map fun o =>
    (under (.place o.2) (read o.1)).map Reading.element)

def ofItems : Except (List Fault) (List Element) → Outcome
  | .ok items => .ok ⟨.list items, true⟩
  | .error faults => .error faults

def keyStep (k : Key) : Step :=
  match k with
  | .text s => .name s
  | .scalar (.flag b) => .place (if b then 1 else 0)
  | .scalar (.integer i) =>
    if Coercion.isSmall i then .place i
    else .name (if k.hasText then toString i else unwritable "int")
  | k => .name (if k.hasText then k.quote else unwritable "tuple")

def readEntry (k : Kind) (key : Key) (offer : Offer) : Except (List Fault) (String × Element) :=
  let name := match Coercion.toText true (Value.ofKey key) with
    | .ok s => Except.ok s.value
    | .error cause => under (keyStep key) (under (.name "[key]") (refuse cause))
  let value := under (keyStep key) (offer.read (.one k))
  match name, value with
  | .ok s, .ok v => .ok (s, v.element)
  | .ok _, .error faults => .error faults
  | .error faults, .ok _ => .error faults
  | .error faults, .error more => .error (faults ++ more)

def readTable (k : Kind) (offers : List (Key × Offer)) : Outcome :=
  match collect (offers.map fun o => readEntry k o.1 o.2) with
  | .ok entries =>
    .ok ⟨.table (Entries.distinct entries), true⟩
  | .error faults => .error faults

/-- The spelling under which an attribute is written: the first of its spellings that is
there, whatever its value. -/
def written? (a : Attribute) (offers : List (Key × Offer)) : Option (String × Offer) :=
  a.spellings.findSome? fun s => (Offer.find? s offers).map fun o => (s, o)

def readAttribute (offers : List (Key × Offer)) (a : Attribute) :
    Except (List Fault) (String × Element) :=
  match written? a offers with
  | some (spelling, offer) =>
    (under (.name spelling) (offer.read a.shape)).map fun r => (a.name, r.element)
  | none =>
    match Element.ofDefault? a.default with
    | some e => .ok (a.name, e)
    | none => under (.name a.name) (refuse .missing)

/-- The heading text defaults to the label, then to the name of the field. -/
def fillHeading (offers : List (Key × Offer)) : List (Key × Offer) :=
  if (Offer.valueOf "text" offers).isPresent then offers
  else
    let candidates := ["label", "field_name"].filterMap fun n => Offer.find? n offers
    Offer.put "text" ((candidates.find? fun o => o.value.isTruthy).getD (Offer.ofText "")) offers

/-- The name of a field stands in for its identifier and its label. -/
def fillName (offers : List (Key × Offer)) : List (Key × Offer) :=
  match Offer.find? "field_name" offers with
  | none => offers
  | some name =>
    if name.value.isPresent then
      ["id", "label"].foldl (fun os key =>
        if (Offer.valueOf key os).isPresent then os else Offer.put key name os) offers
    else offers

/-- What the shorthands of a record stand for. -/
def expand (type : RecordType) (offers : List (Key × Offer)) : List (Key × Offer) :=
  match type with
  | .field .heading => fillName (fillHeading offers)
  | .field _ => fillName offers
  | _ => offers

/-- An unrecognized field keeps what none of its attributes was written as. -/
def readExtra (used : List String) (o : Key × Offer) :
    Except (List Fault) (Option (String × Value)) :=
  match o.1.text? with
  | some name => .ok (if used.contains name then none else some (name, o.2.value))
  | none => under (keyStep o.1) (refuse .keyNotText)

def readExtras (type : RecordType) (offers : List (Key × Offer)) :
    Except (List Fault) (List (String × Value)) :=
  match type with
  | .field .unrecognized =>
    let used := type.attributes.filterMap fun a => (written? a offers).map Prod.fst
    (collect (offers.map (readExtra used))).map (List.filterMap id)
  | _ => .ok []

/-- Reads a record from its entries: every attribute, then what is left. -/
def readRecord (type : RecordType) (written : List (Key × Offer)) : Outcome :=
  let offers := expand type written
  match collect (type.attributes.map (readAttribute offers)), readExtras type offers with
  | .ok attributes, .ok extras => .ok ⟨.record type attributes extras, true⟩
  | .ok _, .error faults => .error faults
  | .error faults, .ok _ => .error faults
  | .error faults, .error more => .error (faults ++ more)

def fieldType (tag : Value) : FieldType :=
  match tag with
  | .text s => FieldType.ofTag s
  | _ => .unrecognized

def readField (parts : Parts) : Outcome :=
  match parts with
  | .entries offers =>
    let type := fieldType (Offer.valueOf "type" offers)
    under (.name type.tag) (readRecord (.field type) offers)
  | _ =>
    under (.name FieldType.unrecognized.tag)
      (refuse (.notRecord (RecordType.className (.field .unrecognized))))

def readAction (parts : Parts) : Outcome :=
  match parts with
  | .entries offers =>
    match Offer.find? "type" offers with
    | none => refuse .noTag
    | some tag =>
      match tag.value.text?.bind ActionType.ofTag? with
      | some type => under (.name type.tag) (readRecord (.action type) offers)
      | none => refuse (.unknownTag tag.value.told (ActionType.all.map ActionType.tag))
  | _ => refuse .noTagSource

/-- An option that is not a mapping is both the value and the label. -/
def readOption (o : Offer) : Outcome :=
  if o.value.isMap then o.read (.one (.record .option))
  else readRecord .option [(.text "value", o), (.text "label", Offer.ofText o.value.render)]

/-- The items of a text with commas between them, without blanks around them. -/
def splitCommas (s : String) : List String :=
  (((splitAt (· == ',') s.toList).map (trim isBlank)).filter (!·.isEmpty)).map String.ofList

def readKind (v : Value) (parts : Parts) : Kind → Outcome
  | .anything => .ok ⟨.value v, true⟩
  | .text => ofCoerced Element.text (Coercion.toText true v)
  | .flag => ofCoerced Element.flag (Coercion.toFlag v)
  | .integer least => ofCoerced Element.integer (Coercion.toIntegerFrom least v)
  | .number => ofCoerced (fun d => .value (.real d)) (Coercion.toNumber v)
  | .word choices => ofCoerced Element.text ((Coercion.toWord choices v).map (⟨·, true⟩))
  | .oneOf choices => ofCoerced Element.integer ((Coercion.toListed choices v).map (⟨·, true⟩))
  | .listOf k =>
    match parts with
    | .items _ offers => ofItems (readItems (fun o => o.read (.one k)) offers)
    | _ => refuse .notList
  | .tableOf k =>
    match parts with
    | .entries offers => readTable k offers
    | _ => refuse .notTable
  | .row =>
    match parts with
    | .entries offers => readTable .anything offers
    | _ => refuse .notTable
  | .optionList =>
    match parts with
    | .items true offers => ofItems (readItems readOption offers)
    | .items false offers => ofItems (readItems (fun o => o.read (.one (.record .option))) offers)
    | _ => refuse .notList
  | .commaList =>
    match v, parts with
    | .text s, _ => .ok ⟨.list ((splitCommas s).map Element.text), true⟩
    | _, .items _ offers => ofItems (readItems (fun o => o.read (.one .text)) offers)
    | _, _ => refuse .notList
  | .record type =>
    match parts with
    | .entries offers => readRecord type offers
    | _ => refuse (.notRecord type.className)
  | .action => readAction parts
  | .field => readField parts

/-- Whether no other alternative is tried after such an outcome. -/
def isFinal : Outcome → Bool
  | .ok r => r.exact
  | .error faults => faults.any fun f => f.cause.abrupt?.isSome

/-- The faults of an alternative under its name. -/
def named (o : String × Outcome) : Outcome := under (.name o.1) o.2

/-- The first outcome that is final, else the first success, else all faults. -/
def choose (outcomes : List (String × Outcome)) : Outcome :=
  match outcomes.find? (fun o => isFinal o.2) <|> outcomes.find? fun o => o.2.isOk with
  | some o => named o
  | none =>
    .error (outcomes.flatMap fun o =>
      match named o with
      | .ok _ => []
      | .error faults => faults)

/-- An option list is expanded before anything else. -/
def readShape (v : Value) (parts : Parts) (shape : Shape) : Outcome :=
  if shape.nullable && !v.isPresent then .ok ⟨.null, true⟩
  else if shape.kinds.contains .optionList && !v.hasLabels then
    refuse (.optionNotWritten .longInteger)
  else
    match shape.kinds with
    | [k] => readKind v parts k
    | ks => choose (ks.map fun k => (label k, readKind v parts k))

mutual

def ofKey (k : Key) : Shape → Outcome :=
  match k with
  | .scalar s => readShape (.scalar s) .none
  | .tuple ks => readShape (Value.ofKey (.tuple ks)) (.items true (ofKeys ks))

def ofKeys : List Key → List Offer
  | [] => []
  | k :: ks => ⟨Value.ofKey k, ofKey k⟩ :: ofKeys ks

end

mutual

def ofValue (v : Value) : Shape → Outcome :=
  match v with
  | .scalar s => readShape (.scalar s) .none
  | .list items => readShape (.list items) (.items true (ofValues items))
  | .tuple items => readShape (.tuple items) (.items true (ofValues items))
  | .set items => readShape (.set items) (.items false (ofKeys items))
  | .map entries => readShape (.map entries) (.entries (ofEntries entries))
  | .back n => readShape (.back n) .none

def ofValues : List Value → List Offer
  | [] => []
  | v :: vs => ⟨v, ofValue v⟩ :: ofValues vs

def ofEntries : List (Key × Value) → List (Key × Offer)
  | [] => []
  | (k, v) :: es => (k, ⟨v, ofValue v⟩) :: ofEntries es

end

end Reading

namespace Value

def readAs (k : Kind) (v : Value) : Except (List Fault) Element :=
  (Reading.ofValue v (.one k)).map Reading.element

end Value

end Wireframe
