import Wireframe.Yaml.Shared.Site

/-!
# Merge keys

A merge key brings the entries of a mapping, or of several in a sequence, into the mapping
that has it.  They come before the entries of the mapping itself, and those of a later
mapping of a sequence before those of an earlier one.  The mappings that are brought in are
freed of their own merge keys first and keep what these brought.
-/

namespace Wireframe.Yaml.Builder

open Failure (complain)

/-- The first entry with a merge key, and the other entries. -/
def splitMerge : List (Nat × Nat) → Builder (Option (Nat × List (Nat × Nat)))
  | [] => return none
  | (key, value) :: rest => do
    if (← node key).tag = .merge then return some (value, rest)
    else
      match ← splitMerge rest with
      | some (found, others) => return some (found, (key, value) :: others)
      | none => return none

/-- Lets the keys that are equals signs be text. -/
def freeValueKeys : List (Nat × Nat) → Builder Unit
  | [] => return
  | (key, _) :: rest => do
    if (← node key).tag = .value then setTag key .str
    freeValueKeys rest

/-- Puts merged entries in front of the entries of a node, which has no merge keys left. -/
def settle (id : Nat) (merged : List (Nat × Nat)) : Builder Unit := do
  let own ← entries id
  freeValueKeys own
  if !merged.isEmpty then setEntries id (merged ++ own)

/-- The entries of the items of a sequence, each freed of its merge keys in turn. -/
def mergeItems (flatten : Nat → Builder Unit) : List Nat → Builder (List (Nat × Nat))
  | [] => return []
  | item :: items => do
    match (← node item).content with
    | .mapping _ =>
      flatten item
      let brought ← entries item
      return (← mergeItems flatten items) ++ brought
    | c => complain (some .mapping) (.notMergedItem c.name) (← node item).start

/-- What a merge key with a value brings in. -/
def brought (flatten : Nat → Builder Unit) (source : Nat) : Builder (List (Nat × Nat)) := do
  let n ← node source
  match n.content with
  | .mapping _ =>
    flatten source
    entries source
  | .sequence items => mergeItems flatten items
  | .scalar _ => complain (some .mapping) (.notMerged n.content.name) n.start

/-- Takes the merge keys out of a node and collects what they bring in.  Every round takes one
merge key out of the graph. -/
def takeMerges : Nat → Nat → Builder (List (Nat × Nat))
  | 0, _ => throw .tooDeep
  | fuel + 1, id => do
    match ← splitMerge (← entries id) with
    | none => return []
    | some (source, others) =>
      setEntries id others
      let flatten (id : Nat) : Builder Unit := do settle id (← takeMerges fuel id)
      let first ← brought flatten source
      return first ++ (← takeMerges fuel id)

def entryCount (nodes : Array Node) : Nat :=
  (nodes.toList.flatMap fun n => n.content.entries).length

/-- Frees a node of its merge keys. -/
def flatten (id : Nat) : Builder Unit := do
  settle id (← takeMerges (entryCount (← get).nodes + 1) id)

end Wireframe.Yaml.Builder
