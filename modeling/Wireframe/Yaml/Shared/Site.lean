import Wireframe.Yaml.Failure
import Wireframe.Yaml.Node
import Wireframe.Yaml.Shared

/-!
# Building sites

While a shared tree is built, the node graph changes: the entries that a merge key brings in
take the place of the key.  A container is finished later than it is made, which lets it
hold itself.
-/

namespace Wireframe.Yaml

structure Site where
  nodes : Array Node
  /-- What was made of the nodes so far. -/
  made : Array (Option Part)
  containers : Array Container
  /-- The nodes that are being made. -/
  opened : List Nat
  /-- The containers that wait to be filled, in the order in which they were made. -/
  pending : List Nat

abbrev Builder := StateT Site (Except Failure)

namespace Builder

/-- The node with a number, as it is now. -/
def node (id : Nat) : Builder Node := do return (← get).nodes.getD id default

/-- The entries of a node, none if it is no mapping. -/
def entries (id : Nat) : Builder (List (Nat × Nat)) := do return (← node id).content.entries

def setEntries (id : Nat) (entries : List (Nat × Nat)) : Builder Unit :=
  modify fun s =>
    { s with nodes := s.nodes.modify id fun n => { n with content := .mapping entries } }

def setTag (id : Nat) (tag : Tag) : Builder Unit :=
  modify fun s => { s with nodes := s.nodes.modify id fun n => { n with tag } }

def setContainer (id : Nat) (c : Container) : Builder Unit :=
  modify fun s => { s with containers := s.containers.setIfInBounds id c }

end Builder

end Wireframe.Yaml
