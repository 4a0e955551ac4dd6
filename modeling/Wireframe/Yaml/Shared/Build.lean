import Wireframe.Value.Text
import Wireframe.Yaml.Base64
import Wireframe.Yaml.Scalar
import Wireframe.Yaml.Shared.Merge

/-!
# Building shared trees

Scalars are made at once.  Containers are made empty and filled in the order in which they
were made, except below a key, which has to be complete before it is used.  A node below a
key that holds itself cannot be made.
-/

namespace Wireframe.Yaml.Builder

open Failure (complain)

/-- The text of a node that is read as a scalar: that of the node itself, or that of the value
under an equals sign. -/
def scalarText : Nat → Nat → Builder String
  | 0, _ => throw .tooDeep
  | fuel + 1, id => do
    let n ← node id
    let refuse : Builder String :=
      complain none (.wrongNode "scalar" n.content.name) n.start
    match n.content with
    | .scalar text => return text
    | .sequence _ => refuse
    | .mapping entries =>
      let nodes := (← get).nodes
      match entries.find? fun e => (nodes.getD e.1 default).tag == .value with
      | some (_, value) => scalarText fuel value
      | none => refuse

/-- How a text is read by a tag of scalars, none for any other tag. -/
def reading? (start : Position) : Tag → Option (String → Except Failure Scalar)
  | .null => some fun _ => .ok .null
  | .bool => some fun text => ((flagOfText text).map Scalar.flag).mapError .misfit
  | .int => some fun text => ((integerOfText text).map Scalar.integer).mapError .misfit
  | .float => some fun text => ((realOfText text).map Scalar.real).mapError .misfit
  | .str => some fun text => .ok (.text text)
  | .binary => some fun text =>
    match Base64.decode text.toList with
    | .ok bytes => .ok (.bytes bytes)
    | .error c => complain none c start
  | .timestamp => some fun text => (dateOfText text).mapError .misfit
  | _ => none

/-- The scalar of a node whose tag is that of scalars, none for any other tag. -/
def scalar? (id : Nat) : Builder (Option Scalar) := do
  let n ← node id
  match reading? n.start n.tag with
  | none => return none
  | some read =>
    let text ← scalarText ((← get).nodes.size + 1) id
    if n.tag = .timestamp && !n.content.isScalar then throw (.misfit .noTimestampText)
    match read text with
    | .ok s => return some s
    | .error f => throw f

/-- The empty container that is made of a node. -/
def emptyContainer? : Tag → Option Container
  | .seq | .omap | .pairs => some (.list [])
  | .set => some (.set [])
  | .map => some (.map [])
  | _ => none

def makeAll (make : Nat → Builder Part) : List Nat → Builder (List Part)
  | [] => return []
  | id :: ids => do return (← make id) :: (← makeAll make ids)

/-- Whether a part is a set.  Lists, mappings and sets cannot be keys. -/
def isSet : Part → Builder Bool
  | .container id => do
    match (← get).containers.getD id (.list []) with
    | .set _ => return true
    | _ => return false
  | _ => return false

/-- What a key that was there before fails with. -/
def keyTwice (key : Key) (start : Position) : Failure :=
  match key.write with
  | .ok text => .trouble ⟨some .mapping, .duplicateKey text, start⟩
  | .error cause => .misfit (.keyNotWritten cause)

/-- Refuses a key that is written twice.  Merge keys and keys that cannot be keys are passed
over. -/
def checkKeys (make : Nat → Builder Part) (seen : List Key) : List (Nat × Nat) → Builder Unit
  | [] => return
  | (id, _) :: rest => do
    let n ← node id
    if n.tag = .merge then checkKeys make seen rest
    else
      let part ← make id
      match part with
      | .scalar s =>
        let key := Key.scalar s
        if seen.any key.same then throw (keyTwice key n.start)
        else checkKeys make (key :: seen) rest
      | _ =>
        if ← isSet part then throw (.misfit .setAsKey)
        checkKeys make seen rest

/-- Makes the entries of a mapping.  The last of equal keys counts. -/
def makeEntries (make : Nat → Builder Part) (done : List (Key × Part)) :
    List (Nat × Nat) → Builder (List (Key × Part))
  | [] => return done
  | (id, valueId) :: rest => do
    match ← make id with
    | .scalar s =>
      let value ← make valueId
      makeEntries make (Entries.insert (.scalar s) value done) rest
    | _ => complain (some .mapping) .unhashableKey (← node id).start

def makePairs (make : Nat → Builder Part) (activity : Activity) (start : Position) :
    List Nat → Builder (List Part)
  | [] => return []
  | item :: items => do
    let n ← node item
    match n.content with
    | .mapping [(key, value)] =>
      let pair := Part.pair (← make key) (← make value)
      return pair :: (← makePairs make activity start items)
    | .mapping entries => complain (some activity) (.notSinglePair entries.length) n.start
    | c => complain (some activity) (.notPair c.name) n.start

/-- The entries of a node that has to be a mapping, without merge keys. -/
def mappingEntries (dialect : Dialect) (make makeKey : Nat → Builder Part) (id : Nat) :
    Builder (List (Key × Part)) := do
  let n ← node id
  match n.content with
  | .mapping written =>
    if dialect.uniqueKeys then checkKeys makeKey [] written
    flatten id
    makeEntries make [] (← entries id)
  | c => complain none (.wrongNode "mapping" c.name) n.start

def contents (dialect : Dialect) (make makeKey : Nat → Builder Part) (id : Nat) :
    Builder Container := do
  let n ← node id
  match n.tag, n.content with
  | .map, _ => return .map (← mappingEntries dialect make makeKey id)
  | .set, _ => return .set ((← mappingEntries dialect make makeKey id).map Prod.fst)
  | .seq, .sequence items => return .list (← makeAll make items)
  | .seq, c => complain none (.wrongNode "sequence" c.name) n.start
  | tag, .sequence items =>
    return .list (← makePairs make (if tag = .omap then .orderedMap else .pairs) n.start items)
  | tag, c =>
    complain (some (if tag = .omap then .orderedMap else .pairs)) (.notSequence c.name) n.start

/-- Makes a node, with all that is below it if it is deep.  No node is made twice. -/
def make (dialect : Dialect) : Nat → Bool → Nat → Builder Part
  | 0, _, _ => throw .tooDeep
  | fuel + 1, deep, id => do
    if let some part := (← get).made.getD id none then return part
    let n ← node id
    if (← get).opened.contains id then complain none .recursiveNode n.start
    modify fun s => { s with opened := id :: s.opened }
    let part ←
      match ← scalar? id, emptyContainer? n.tag with
      | some s, _ => pure (Part.scalar s)
      | none, some c => do
        setContainer id c
        if deep then
          let below := make dialect fuel true
          setContainer id (← contents dialect below below id)
        else modify fun s => { s with pending := s.pending ++ [id] }
        pure (Part.container id)
      | none, none => complain none (.unknownTag n.tag.name) n.start
    modify fun s =>
      { s with made := s.made.setIfInBounds id (some part), opened := s.opened.erase id }
    return part

/-- Fills the waiting containers.  Every node waits once at most. -/
def fillAll (dialect : Dialect) (bound : Nat) : Nat → Builder Unit
  | 0 => return
  | fuel + 1 => do
    match (← get).pending with
    | [] => return
    | id :: rest =>
      modify fun s => { s with pending := rest }
      setContainer id
        (← contents dialect (make dialect bound false) (make dialect bound true) id)
      fillAll dialect bound fuel

def build (dialect : Dialect) (root : Nat) : Builder Part := do
  let bound := (← get).nodes.size + 1
  let part ← make dialect bound false root
  fillAll dialect bound bound
  return part

end Wireframe.Yaml.Builder

namespace Wireframe.Yaml.SharedTree

def ofGraph (dialect : Dialect) (g : Graph) : Except Failure SharedTree := do
  let size := g.nodes.size
  let (root, site) ← (Builder.build dialect g.root).run
    ⟨g.nodes, Array.replicate size none, Array.replicate size (.list []), [], []⟩
  return ⟨root, site.containers⟩

end Wireframe.Yaml.SharedTree
