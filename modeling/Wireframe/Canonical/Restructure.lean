import Wireframe.Canonical.Table
import Wireframe.Grammar.Collection

/-!
# Canonical form

In canonical form every collection is a mapping and the content of every screen
is in one place.  Listed entries are keyed by the slugs of their names, with
numbers where slugs meet.  Bringing a tree that was checked into this form
succeeds if its names can be written; for other trees the first obstacle is told.
-/

namespace Wireframe

/-- What keeps a tree from being brought into canonical form. -/
inductive Obstacle
  | notMapping
  | wrongShape
  | noEntry
  | notPair (place length : Nat)
  | notWritten (cause : NoText)
  deriving DecidableEq, Repr

namespace Obstacle

def message : Obstacle → String
  | notWritten cause => cause.message
  | notPair place length =>
    s!"dictionary update sequence element #{place} has length {length}; 2 is required"
  | _ => ""

end Obstacle

/-- A listed entry that could not keep the slug of its name. -/
structure Renaming where
  kind : CollectionKind
  place : Nat
  wanted : String
  given : String
  deriving DecidableEq, Repr

namespace Renaming

def message (r : Renaming) : String :=
  s!"{r.kind.elementTitle} key \"{r.wanted}\" is already taken, " ++
    s!"entry {r.place} of \"{r.kind.name}\" is keyed \"{r.given}\""

end Renaming

namespace Canonical

/-- What a walk over a value meets: items, keys, characters or bytes. -/
def elements : Value → Except Obstacle (List Value)
  | .list xs | .tuple xs => .ok xs
  | .set ks => .ok (ks.map Value.ofKey)
  | .map es => .ok (es.map fun e => Value.ofKey e.1)
  | .text s => .ok (s.toList.map fun c => .text (String.singleton c))
  | .scalar (.bytes bs) => .ok (bs.map fun b => .integer b.toNat)
  | _ => .error .wrongShape

mutual

/-- The key that a value can be; lists and mappings cannot be one. -/
def key? : Value → Option Key
  | .scalar s => some (.scalar s)
  | .tuple xs => (keys? xs).map Key.tuple
  | _ => none

def keys? : List Value → Option (List Key)
  | [] => some []
  | v :: vs => (key? v).bind fun k => (keys? vs).map (k :: ·)

end

def pair (place : Nat) (item : Value) : Except Obstacle (Key × Value) := do
  match ← elements item with
  | [k, v] =>
    match key? k with
    | some key => .ok (key, v)
    | none => .error .wrongShape
  | parts => .error (.notPair place parts.length)

/-- The entries of a mapping, or of a sequence of pairs. -/
def entriesOf : Value → Except Obstacle Entries
  | .map es => .ok es
  | v => do
    let items ← elements v
    let pairs ← items.zipIdx.mapM fun item => pair item.2 item.1
    .ok (Entries.ofList pairs)

def mapping : Value → Except Obstacle Entries
  | .map es => .ok es
  | _ => .error .notMapping

/-- The attributes that are present, in the given order. -/
def pick (names : List String) (entries : Entries) : List (String × Value) :=
  names.filterMap fun name =>
    let v := entries.getD name
    if v.isPresent then some (name, v) else none

/-- A label stands for an action that submits, the first one in the leading style. -/
def expandAction (action : Value) (place : Nat) : Value :=
  match action with
  | .text label =>
    object [("id", .text (numbered "action" place)), ("type", .text "submit"),
      ("label", .text label),
      ("style", .text (if place = 0 then "primary" else "secondary"))]
  | v => v

/-- A section with its own attributes only. -/
def formSection (v : Value) : Except Obstacle (List (String × Value)) :=
  (mapping v).map (pick ["section_name", "icon", "publish_toggle", "input_fields"])

/-- The fields of a section, none if it has none. -/
def sectionFields (attributes : List (String × Value)) : Except Obstacle (List Value) :=
  match attributes.find? fun a => a.1 == "input_fields" with
  | some a => elements a.2
  | none => .ok []

/-- Sections with all their fields once more in one list. -/
def withSections (items : List Value) : Except Obstacle (List (String × Value)) := do
  let kept ← items.mapM formSection
  let fields ← kept.mapM sectionFields
  .ok [("sections", .list (kept.map object)), ("fields", .list fields.flatten)]

/-- The content of a screen: its sections if there are any, else its fields, else a table
made from the names of columns, else the fields under their older name. -/
def content (settings : Settings) (raw : Entries) : Except Obstacle (List (String × Value)) :=
  match (raw.getD "sections").items? with
  | some (s :: ss) => withSections (s :: ss)
  | _ =>
    if (raw.getD "fields").isPresent then do
      .ok [("fields", .list (← elements (raw.getD "fields")))]
    else
      match (raw.getD "display_fields").items? with
      | some names => do
        let table ← (table settings names (raw.getD "filters") (raw.getD "name")).mapError
          Obstacle.notWritten
        .ok [("fields", .list [table])]
      | none =>
        match (raw.getD "input_fields").items? with
        | some fields => .ok [("fields", .list fields)]
        | none => .ok []

/-- The actions of a screen, if it lists any. -/
def actions (raw : Entries) : List (String × Value) :=
  match (raw.getD "actions").items? with
  | some items => [("actions", .list (items.zipIdx.map fun a => expandAction a.1 a.2))]
  | none => []

def title (raw : Entries) : Value :=
  Value.coalesce [raw.getD "title", raw.getD "name", .text "Untitled"]

def purpose (raw : Entries) : List (String × Value) :=
  let v := Value.coalesce [raw.getD "description", raw.getD "purpose"]
  if v.isPresent then [("description", v)] else []

def screen (settings : Settings) (v : Value) : Except Obstacle Value := do
  let raw ← mapping v
  let content ← content settings raw
  .ok (object (pick ["app_header", "app_navi", "wizard", "layout"] raw ++
    [("title", title raw)] ++ purpose raw ++ content ++ actions raw))

def listedComponent (v : Value) : Except Obstacle Value := do
  let raw ← mapping v
  match Entries.get? "component_name" raw with
  | some name =>
    .ok (object (pick ["description", "used_in"] raw ++
      [("name", name), ("type", .text ComponentType.fieldGroup.tag)]))
  | none => .error .noEntry

/-- A listed rule is only a message. -/
def listedRule (v : Value) : Except Obstacle Value :=
  match v with
  | .map raw =>
    match Entries.get? "field" raw, Entries.get? "rule" raw with
    | some name, some message =>
      .ok (object [("name", name), ("rules", object [("message", message)]),
        ("message", message)])
    | _, _ => .error .noEntry
  | _ => .error .wrongShape

def keyedEntry (settings : Settings) (kind : CollectionKind) (v : Value) :
    Except Obstacle Value :=
  match kind with
  | .screens => screen settings v
  | .components | .rules => (entriesOf v).map Value.map

def listedEntry (settings : Settings) (kind : CollectionKind) (v : Value) :
    Except Obstacle Value :=
  match kind with
  | .screens => screen settings v
  | .components => listedComponent v
  | .rules => listedRule v

/-- What the key of an entry without a usable name starts with. -/
def fallbackStem (kind : CollectionKind) : String := kind.element

/-- The key that a listed entry would have if it were alone. -/
def wantedKey (kind : CollectionKind) (entry : Entries) (place : Nat) : Except NoText String := do
  let slug := Slug.ofName (← nameText (entry.getD kind.nameKey))
  .ok (if slug.isEmpty then numbered (fallbackStem kind) place else slug)

def keyed (settings : Settings) (kind : CollectionKind) (entries : Entries) :
    Except Obstacle (List (String × Value)) := do
  let done ← entries.mapM fun e => do
    let key ← e.1.write.mapError Obstacle.notWritten
    .ok (key, ← keyedEntry settings kind e.2)
  .ok (Entries.distinct done)

/-- Keys the entries one after the other; those before have taken their keys. -/
def listed (settings : Settings) (kind : CollectionKind) (taken : List (String × Value))
    (place : Nat) : List Value → Except Obstacle (List (String × Value) × List Renaming)
  | [] => .ok (taken, [])
  | v :: vs => do
    let entry ← listedEntry settings kind v
    let raw ← mapping v
    let wanted ← (wantedKey kind raw place).mapError Obstacle.notWritten
    let given := Slug.unique (taken.map Prod.fst) wanted
    let (done, renamings) ←
      listed settings kind (taken ++ [(given, entry)]) (place + 1) vs
    .ok (done, if given = wanted then renamings else ⟨kind, place, wanted, given⟩ :: renamings)

def collection (settings : Settings) (kind : CollectionKind) (c : Collection) :
    Except Obstacle (Value × List Renaming) :=
  match c with
  | .keyed entries => (keyed settings kind entries).map fun es => (object es, [])
  | .listed items => (listed settings kind [] 0 items).map fun r => (object r.1, r.2)

def collections (settings : Settings) (document : Entries) :
    List CollectionKind → Except Obstacle (List (String × Value) × List Renaming)
  | [] => .ok ([], [])
  | kind :: kinds =>
    match Collection.ofValue? (document.getD kind.name) with
    | none => collections settings document kinds
    | some c => do
      let (v, renamings) ← collection settings kind c
      let (rest, more) ← collections settings document kinds
      .ok ((kind.name, v) :: rest, renamings ++ more)

/-- The canonical form of a document, and the listed entries that were renamed. -/
def restructure (settings : Settings) (tree : Value) :
    Except Obstacle (Value × List Renaming) := do
  let document ← mapping tree
  let (entries, renamings) ← collections settings document CollectionKind.all
  .ok (object entries, renamings)

end Canonical

end Wireframe
