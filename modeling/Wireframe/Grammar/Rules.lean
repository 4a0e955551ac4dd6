import Wireframe.Grammar.Problem
import Wireframe.Settings

/-!
# Rules of structure

Every rule looks at one value at one location and lists its findings in written
order.  Entries of keyed collections follow strict rules, which go down to the
last nested field.  Entries of listed collections follow relaxed rules, which look
only at what is iterated later.
-/

namespace Wireframe

namespace Rules

abbrev Rule := Value → Location → List Finding

def report (problem : Problem) (location : Location) : List Finding := [⟨problem, location⟩]

/-- A rule for mappings, with a finding for anything else. -/
def onMap (subject : String) (rule : Entries → Location → List Finding) : Rule
  | .map entries, location => rule entries location
  | _, location => report (.notObject subject) location

/-- Every attribute that is absent or null. -/
def require (subject : String) (keys : List String) (entries : Entries) (location : Location) :
    List Finding :=
  keys.flatMap fun key =>
    if (entries.getD key).isPresent then [] else report (.noAttribute subject key) location

def each (rule : Rule) (items : List Value) (location : Location) : List Finding :=
  items.zipIdx.flatMap fun item => rule item.1 (location ++ [.place item.2])

/-- A sequence and each of its items. -/
def sequence (subject : String) (rule : Rule) (v : Value) (location : Location) : List Finding :=
  match v.items? with
  | some items => each rule items location
  | none => report (.notArray subject) location

/-- A sequence that may be absent. -/
def optional (key subject : String) (rule : Rule) (entries : Entries) (location : Location) :
    List Finding :=
  let v := entries.getD key
  if v.isPresent then sequence subject rule v (location ++ [.name key]) else []

/-- What is wrong with a sequence that has to have items, its items apart. -/
def lackingItems (subject key : String) (entries : Entries) (location : Location) :
    List Finding :=
  let v := entries.getD key
  if !v.isPresent then report (.noItems subject key) location
  else
    match v.items? with
    | none => report (.notArray (subject ++ " " ++ key)) (location ++ [.name key])
    | some [] => report (.emptyArray subject key) (location ++ [.name key])
    | some _ => []

def option : Rule :=
  onMap "Option" (require "Option" ["value", "label"])

def options (type : String) (entries : Entries) (location : Location) : List Finding :=
  let v := entries.getD "options"
  let here := location ++ [.name "options"]
  if !v.isPresent then report (.noOptions type) location
  else if v.isText then []
  else
    match v.items? with
    | none => report .notOptions here
    | some [] => report .emptyOptions here
    | some items => each option items here

/-- The findings of a field itself, without those of the fields that it repeats. -/
def fieldItself (settings : Settings) : Rule :=
  onMap "Field" fun entries location =>
    let type := entries.getD "type"
    (if settings.isDisplayOnly type then [] else require "Field" ["id"] entries location) ++
    require "Field" ["type"] entries location ++
    (if settings.isPlaceholder type then [] else require "Field" ["label"] entries location) ++
    match type.text? with
    | none => []
    | some tag =>
      let known := FieldType.ofTag tag
      if known.isSelect then options tag entries location
      else if known = .repeater then
        lackingItems "Repeater field" "item_fields" entries location
      else []

def isRepeater (entries : Entries) : Bool :=
  (entries.getD "type").text? == some FieldType.repeater.tag

mutual

/-- A field and the fields that it repeats at any depth, each before those below it. -/
def fieldsBelow (v : Value) (location : Location) : List (Location × Value) :=
  match v with
  | .map entries =>
    (location, .map entries) ::
      (if isRepeater entries then fieldsOfEntries entries location else [])
  | v => [(location, v)]

/-- The fields below the first entry that holds repeated fields. -/
def fieldsOfEntries (entries : List (Key × Value)) (location : Location) :
    List (Location × Value) :=
  match entries with
  | [] => []
  | (key, v) :: rest =>
    if key.text? == some "item_fields" then
      match v with
      | .list items => fieldsOfItems items (location ++ [.name "item_fields"]) 0
      | .tuple items => fieldsOfItems items (location ++ [.name "item_fields"]) 0
      | _ => []
    else fieldsOfEntries rest location

def fieldsOfItems (items : List Value) (location : Location) (place : Nat) :
    List (Location × Value) :=
  match items with
  | [] => []
  | v :: vs =>
    fieldsBelow v (location ++ [.place place]) ++ fieldsOfItems vs location (place + 1)

end

def field (settings : Settings) : Rule := fun v location =>
  (fieldsBelow v location).flatMap fun f => fieldItself settings f.2 f.1

def action : Rule :=
  onMap "Action" fun entries location =>
    let type := entries.getD "type"
    let known := type.text?.bind ActionType.ofTag?
    require "Action" ["id", "type"] entries location ++
    (if type.isPresent && known.isNone then
      report (.actionType type) (location ++ [.name "type"]) else []) ++
    require "Action" ["label"] entries location ++
    (if known == some .navigate && !(entries.getD "to").isPresent then
      report .noDestination location else [])

def wizardStep (settings : Settings) : Rule :=
  onMap "Wizard step" fun entries location =>
    require "Wizard step" ["id", "title"] entries location ++
    lackingItems "Wizard step" "fields" entries location ++
    match (entries.getD "fields").items? with
    | some items => each (field settings) items (location ++ [.name "fields"])
    | none => []

def wizard (settings : Settings) : Rule :=
  onMap "Wizard" fun entries location =>
    let steps := entries.getD "steps"
    if steps.isPresent then
      sequence "Wizard steps" (wizardStep settings) steps (location ++ [.name "steps"])
    else report (.noItems "Wizard" "steps") location

def formSection (settings : Settings) : Rule :=
  onMap "Section" fun entries location =>
    require "Section" ["section_name"] entries location ++
    optional "input_fields" "Section input_fields" (field settings) entries location

def columnName : Rule := fun v location =>
  if v.isPlain then [] else report .notName location

/-- A wizard that may be absent. -/
def optionalWizard (settings : Settings) (entries : Entries) (location : Location) :
    List Finding :=
  let v := entries.getD "wizard"
  if v.isPresent then wizard settings v (location ++ [.name "wizard"]) else []

def screen (settings : Settings) : Rule :=
  onMap "Screen definition" fun entries location =>
    require "Screen" ["title"] entries location ++
    optionalWizard settings entries location ++
    optional "sections" "Screen sections" (formSection settings) entries location ++
    optional "fields" "Screen fields" (field settings) entries location ++
    optional "input_fields" "Screen input_fields" (field settings) entries location ++
    optional "display_fields" "Screen display_fields" columnName entries location ++
    optional "filters" "Screen filters" columnName entries location ++
    optional "actions" "Screen actions" action entries location

/-- A field that is only known to be a mapping. -/
def listedField : Rule :=
  onMap "Field" fun _ _ => []

def listedSection : Rule :=
  onMap "Section" (optional "input_fields" "input_fields" listedField)

def listedAction : Rule := fun v location =>
  if v.isText then [] else action v location

def listedScreen : Rule :=
  onMap "Screen definition" fun entries location =>
    (if (entries.getD "name").isPresent || (entries.getD "title").isPresent then []
      else report .noScreenName location) ++
    optional "sections" "sections" listedSection entries location ++
    optional "fields" "fields" listedField entries location ++
    optional "input_fields" "input_fields" listedField entries location ++
    optional "display_fields" "display_fields" columnName entries location ++
    optional "filters" "filters" columnName entries location ++
    optional "actions" "actions" listedAction entries location

def componentType? (type : Value) : Option ComponentType :=
  type.text?.bind fun tag => ComponentType.all.find? fun t => t.tag == tag

def component (settings : Settings) : Rule :=
  onMap "Common component" fun entries location =>
    let type := entries.getD "type"
    let known := componentType? type
    require "Common component" ["name", "type"] entries location ++
    (if type.isPresent && known.isNone then
      report (.componentType type) (location ++ [.name "type"]) else []) ++
    (if known == some .fieldGroup then
      optional "fields" "Component fields" (field settings) entries location else []) ++
    (if known == some .actionGroup then
      optional "actions" "Component actions" action entries location else [])

def listedComponent : Rule :=
  onMap "Common component" (require "Common component" ["component_name"])

def fieldRule : Rule :=
  onMap "Validation rule" fun entries location =>
    require "Validation rule" ["name"] entries location ++
    (if (entries.getD "rules").isPresent then []
      else report (.noItems "Validation rule" "rules") location)

def listedFieldRule : Rule :=
  onMap "Validation rule" (require "Validation rule" ["field", "rule"])

/-- The rule for the entries of a keyed collection. -/
def strict (settings : Settings) : CollectionKind → Rule
  | .screens => screen settings
  | .components => component settings
  | .rules => fieldRule

/-- The rule for the entries of a listed collection. -/
def relaxed : CollectionKind → Rule
  | .screens => listedScreen
  | .components => listedComponent
  | .rules => listedFieldRule

/-- The findings of entries.  A key whose text another key before it has is reported. -/
def entries (kind : CollectionKind) (rule : Rule) (seen : List Step) :
    List (Step × Value) → List Finding
  | [] => []
  | (step, v) :: rest =>
    let location := [.name kind.name, step]
    (if seen.contains step then report (.keyTwice kind step.render) location else []) ++
    rule v location ++ entries kind rule (step :: seen) rest

def collection (settings : Settings) (kind : CollectionKind) (c : Collection) : List Finding :=
  let rule := match c with
    | .keyed _ => strict settings kind
    | .listed _ => relaxed kind
  entries kind rule [] c.steps

/-- A collection of a document. -/
def documentPart (settings : Settings) (document : Entries) (kind : CollectionKind) :
    List Finding :=
  let v := document.getD kind.name
  if !v.isPresent then
    if kind.isRequired then report (.noCollection kind) [] else []
  else
    match Collection.ofValue? v with
    | some c => collection settings kind c
    | none => report (.notCollection kind) [.name kind.name]

def root (settings : Settings) (tree : Value) : List Finding :=
  match tree with
  | .map document => CollectionKind.all.flatMap (documentPart settings document)
  | _ => report .rootNotObject []

end Rules

end Wireframe
