import Wireframe.Yaml.Lexeme.Stream
import Wireframe.Yaml.Node

/-!
# The grammar of documents

The lexemes of a stream are read as a single document.  A node may have an anchor and a
tag.  Missing nodes of collections read as empty scalars.  An anchor is known from the start
of its node on, so an alias inside of it leads back to it.
-/

namespace Wireframe.Yaml

open Failure (complain)

/-- The state between two nodes. -/
structure Draft where
  lexemes : Lexemes
  /-- What the handles of tags stand for. -/
  handles : List (String × String)
  nodes : Array Node
  anchors : List (String × Nat)
  deriving Repr

namespace Draft

abbrev Reader := StateT Draft (Except Failure)

/-- The number of collections inside of each other that can be read. -/
def maxDepth : Nat := 480

def head : Reader Lexeme := do
  match (← get).lexemes with
  | ⟨l :: _, _⟩ => return l
  | ⟨[], some f⟩ => throw f
  | ⟨[], none⟩ => return ⟨.streamEnd, ⟨0, 0⟩, ⟨0, 0⟩⟩

def headKind : Reader LexemeKind := do return (← head).kind

def skip : Reader Unit :=
  modify fun d => { d with lexemes := { d.lexemes with items := d.lexemes.items.drop 1 } }

def add (node : Node) : Reader Nat := do
  let d ← get
  set { d with nodes := d.nodes.push node }
  return d.nodes.size

/-- Gives a node its content. -/
def fill (id : Nat) (content : Content) : Reader Unit :=
  modify fun d => { d with nodes := d.nodes.modify id fun n => { n with content } }

/-- A node that is not written. -/
def addEmpty (start : Position) : Reader Nat := add ⟨.null, start, .scalar ""⟩

/-- What may be written in front of a node, and where its first part starts. -/
structure Properties where
  anchor : Option String
  tag : Option (Option String × String)
  start : Option Position
  /-- Where the tag starts. -/
  tagStart : Position
  deriving Repr

/-- Reads an anchor and a tag in either order. -/
def properties : Reader Properties := do
  let first ← head
  match first.kind with
  | .anchor name =>
    skip
    let second ← head
    match second.kind with
    | .tag handle suffix =>
      skip
      return ⟨some name, some (handle, suffix), some first.start, second.start⟩
    | _ => return ⟨some name, none, some first.start, first.start⟩
  | .tag handle suffix =>
    skip
    let second ← head
    match second.kind with
    | .anchor name =>
      skip
      return ⟨some name, some (handle, suffix), some first.start, first.start⟩
    | _ => return ⟨none, some (handle, suffix), some first.start, first.start⟩
  | _ => return ⟨none, none, none, first.start⟩

def tagName (p : Properties) : Reader (Option String) := do
  match p.tag with
  | none => return none
  | some (none, suffix) => return some suffix
  | some (some handle, suffix) =>
    match (← get).handles.find? fun h => h.1 == handle with
    | some (_, stem) => return some (stem ++ suffix)
    | none => complain (some .node) (.unknownHandle handle) p.tagStart

/-- The tag of a scalar.  A single exclamation mark leaves it to the text, as a plain scalar
without a tag does. -/
def scalarTag (dialect : Dialect) (name : Option String) (plain : Bool) (text : String) : Tag :=
  match name with
  | none => if plain then .ofPlain dialect text else .str
  | some name => if name = "!" then .ofPlain dialect text else .ofName name

def collectionTag (name : Option String) (usual : Tag) : Tag :=
  match name with
  | none => usual
  | some name => if name = "!" then usual else .ofName name

/-- Adds a node under its anchor, which has to be new. -/
def addAnchored (anchor : Option String) (node : Node) : Reader Nat := do
  match anchor with
  | none => add node
  | some name =>
    if (← get).anchors.any fun a => a.1 == name then
      complain (some (.duplicateAnchor name)) .secondAnchor node.start
    else
      let id ← add node
      modify fun d => { d with anchors := (name, id) :: d.anchors }
      return id

def aliased (name : String) (start : Position) : Reader Nat := do
  match (← get).anchors.find? fun a => a.1 == name with
  | some (_, id) => return id
  | none => complain none (.unknownAlias name) start

abbrev Stops := List LexemeKind

/-- Reads a node, or adds an empty one in front of some marks. -/
def orEmpty (stops : Stops) (start : Position) (node : Reader Nat) : Reader Nat := do
  if stops.contains (← headKind) then addEmpty start else node

def entryValue (stops : Stops) (node : Reader Nat) : Reader Nat := do
  let l ← head
  if l.kind = .value then
    skip
    orEmpty stops l.stop node
  else addEmpty l.start

/-- Where a node stands: in a block sequence or at the root, in an entry of a block mapping,
where a sequence may even start without an indentation, or in a flow collection. -/
inductive Context
  | block
  | entry
  | flow
  deriving DecidableEq, Repr

/-- The marks that end a node of a block sequence, of one without indentation, of a block
mapping, of a flow sequence and of a flow mapping. -/
def blockStops : Stops := [.blockEntry, .blockEnd]

def indentlessStops : Stops := [.blockEntry, .key, .value, .blockEnd]

def entryStops : Stops := [.key, .value, .blockEnd]

def flowStops : Stops := [.flowEntry, .flowSequenceEnd]

def flowEntryStops : Stops := [.flowEntry, .flowMappingEnd]

/-- The sorts of collections. -/
inductive Collection
  | blockSequence
  | indentless
  | flowSequence
  | blockMapping
  | flowMapping

def Collection.ofKind? : Context → LexemeKind → Option Collection
  | .entry, .blockEntry => some .indentless
  | _, .flowSequenceStart => some .flowSequence
  | _, .flowMappingStart => some .flowMapping
  | .flow, _ => none
  | _, .blockSequenceStart => some .blockSequence
  | _, .blockMappingStart => some .blockMapping
  | _, _ => none

def Collection.usualTag : Collection → Tag
  | .blockSequence | .indentless | .flowSequence => .seq
  | .blockMapping | .flowMapping => .map

def Collection.empty : Collection → Content
  | .blockSequence | .indentless | .flowSequence => .sequence []
  | .blockMapping | .flowMapping => .mapping []

/-- Reads the mark in front of an item of a flow collection, none in front of the first. -/
def separator (activity : Activity) (complaint : String → Complaint) (first : Bool) :
    Reader Unit := do
  if !first then
    let l ← head
    if l.kind = .flowEntry then skip
    else complain (some activity) (complaint l.kind.name) l.start

def indentlessItems (node : Reader Nat) : Nat → Reader (List Nat)
  | 0 => return []
  | fuel + 1 => do
    let l ← head
    if l.kind = .blockEntry then
      skip
      let item ← orEmpty indentlessStops l.stop node
      return item :: (← indentlessItems node fuel)
    else return []

def blockItems (node : Reader Nat) : Nat → Reader (List Nat)
  | 0 => return []
  | fuel + 1 => do
    let l ← head
    if l.kind = .blockEntry then
      skip
      let item ← orEmpty blockStops l.stop node
      return item :: (← blockItems node fuel)
    else if l.kind = .blockEnd then
      skip
      return []
    else complain (some .blockCollection) (.notBlockEnd l.kind.name) l.start

def blockEntries (node : Reader Nat) : Nat → Reader (List (Nat × Nat))
  | 0 => return []
  | fuel + 1 => do
    let l ← head
    if l.kind = .key then
      skip
      let key ← orEmpty entryStops l.stop node
      let value ← entryValue entryStops node
      return (key, value) :: (← blockEntries node fuel)
    else if l.kind = .blockEnd then
      skip
      return []
    else complain (some .blockMapping) (.notBlockEnd l.kind.name) l.start

/-- Reads the items of a flow sequence, where an entry is a mapping of its own. -/
def flowItems (node pair : Reader Nat) : Nat → Bool → Reader (List Nat)
  | 0, _ => return []
  | fuel + 1, first => do
    if (← headKind) = .flowSequenceEnd then
      skip
      return []
    else
      separator .flowSequence .notNextItem first
      let kind ← headKind
      if kind = .flowSequenceEnd then
        skip
        return []
      else
        let item ← if kind = .key then pair else node
        return item :: (← flowItems node pair fuel false)

def flowEntries (node : Reader Nat) : Nat → Bool → Reader (List (Nat × Nat))
  | 0, _ => return []
  | fuel + 1, first => do
    if (← headKind) = .flowMappingEnd then
      skip
      return []
    else
      separator .flowMapping .notNextEntry first
      let l ← head
      if l.kind = .flowMappingEnd then
        skip
        return []
      else if l.kind = .key then
        skip
        let key ← orEmpty (.value :: flowEntryStops) l.stop node
        let value ← entryValue flowEntryStops node
        return (key, value) :: (← flowEntries node fuel false)
      else
        let key ← node
        let value ← addEmpty (← head).start
        return (key, value) :: (← flowEntries node fuel false)

def entryMapping (node : Reader Nat) : Reader Nat := do
  let l ← head
  skip
  let id ← add ⟨.map, l.start, .mapping []⟩
  let key ← orEmpty (.value :: flowStops) l.stop node
  let value ← entryValue flowStops node
  fill id (.mapping [(key, value)])
  return id

/-- Reads what is in a collection.  Every round of a loop reads a lexeme at least. -/
def content (node : Context → Reader Nat) (pair : Reader Nat) (c : Collection) :
    Reader Content := do
  let bound := (← get).lexemes.items.length + 1
  match c with
  | .indentless => return .sequence (← indentlessItems (node .block) bound)
  | .blockSequence =>
    skip
    return .sequence (← blockItems (node .block) bound)
  | .flowSequence =>
    skip
    return .sequence (← flowItems (node .flow) pair bound true)
  | .blockMapping =>
    skip
    return .mapping (← blockEntries (node .entry) bound)
  | .flowMapping =>
    skip
    return .mapping (← flowEntries (node .flow) bound true)

/-- Reads a node, where what is in a collection is read by another reader. -/
def nodeWith (dialect : Dialect) (context : Context) (inside : Collection → Reader Content) :
    Reader Nat := do
  let first ← head
  if let .reference name := first.kind then
    skip
    aliased name first.start
  else
    let p ← properties
    let name ← tagName p
    let l ← head
    let start := p.start.getD l.start
    if let .scalar text plain := l.kind then
      skip
      addAnchored p.anchor ⟨scalarTag dialect name plain text, start, .scalar text⟩
    else if let some c := Collection.ofKind? context l.kind then
      let id ← addAnchored p.anchor ⟨collectionTag name c.usualTag, start, c.empty⟩
      fill id (← inside c)
      return id
    else if p.start.isSome then
      addAnchored p.anchor ⟨scalarTag dialect name true "", start, .scalar ""⟩
    else
      complain (some (if context = .flow then .flowNode else .blockNode))
        (.noContent l.kind.name) l.start

/-- Reads a node.  The room is the number of collections that may still be opened, and an entry
of a flow sequence opens one of its own. -/
def node (dialect : Dialect) : (room : Nat) → Context → Reader Nat
  | 0, context => nodeWith dialect context fun _ => throw .tooDeep
  | 1, context => nodeWith dialect context (content (node dialect 0) (throw .tooDeep))
  | room + 2, context =>
    nodeWith dialect context
      (content (node dialect (room + 1)) (entryMapping (node dialect room .flow)))

def usualHandles : List (String × String) := [("!", "!"), ("!!", Tag.stem)]

def directives : Nat → Bool → List (String × String) → Reader (List (String × String))
  | 0, _, handles => return handles
  | fuel + 1, hasVersion, handles => do
    let l ← head
    match l.kind with
    | .directive d =>
      skip
      match d with
      | .version major _ =>
        if hasVersion then complain none .secondVersion l.start
        else if major ≠ 1 then complain none .badVersion l.start
        else directives fuel true handles
      | .tag handle stem =>
        if handles.any fun h => h.1 == handle then
          complain none (.secondHandle handle) l.start
        else directives fuel hasVersion ((handle, stem) :: handles)
      | .other _ => directives fuel hasVersion handles
    | _ => return handles

def explicitStart : Reader Unit := do
  let handles ← directives ((← get).lexemes.items.length + 1) false []
  let l ← head
  if l.kind = .documentStart then
    skip
    modify fun d => { d with handles := handles ++ usualHandles }
  else complain none (.notDocumentStart l.kind.name) l.start

def skipEnds : Nat → Reader Unit
  | 0 => return
  | fuel + 1 => do
    if (← headKind) = .documentEnd then
      skip
      skipEnds fuel

def isDirective : LexemeKind → Bool
  | .directive _ => true
  | _ => false

/-- Reads the root of a document, which may be missing behind an explicit start. -/
def document (dialect : Dialect) : Reader (Option Nat) := do
  let kind ← headKind
  if kind = .streamEnd then return none
  else if isDirective kind || kind == .documentStart then
    explicitStart
    let l ← head
    if isDirective l.kind || [.documentStart, .documentEnd, .streamEnd].contains l.kind then
      return some (← addEmpty l.start)
    else return some (← node dialect maxDepth .block)
  else return some (← node dialect maxDepth .block)

/-- Reads the only document of a stream. -/
def stream (dialect : Dialect) : Reader (Option Nat) := do
  let root ← document dialect
  if root.isSome then
    skipEnds ((← get).lexemes.items.length + 1)
    let l ← head
    if l.kind ≠ .streamEnd then
      explicitStart
      complain (some .singleDocument) .anotherDocument l.start
  return root

end Draft

namespace Graph

/-- The node graph of the document that lexemes make up, none if there is no document. -/
def ofLexemes (dialect : Dialect) (lexemes : Lexemes) : Except Failure (Option Graph) := do
  let (root, draft) ← (Draft.stream dialect).run ⟨lexemes, Draft.usualHandles, #[], []⟩
  return root.map fun root => ⟨draft.nodes, root⟩

end Graph

end Wireframe.Yaml
