import Wireframe.Positions
import Wireframe.Yaml.Node

/-!
# Positions of nodes

The entries of a mapping are located by the source text of their keys, so keys that are no
scalars have no location, and neither have merge keys.  A shared node is indexed at one of
its locations only, which also ends the walk through a graph with cycles.
-/

namespace Wireframe.Yaml.Graph

/-- The nodes directly below a node with the steps that lead to them. -/
def steps (g : Graph) (id : Nat) : List (Step × Nat) :=
  match (g.node id).content with
  | .scalar _ => []
  | .sequence items => items.zipIdx.map fun (item, i) => (.place i, item)
  | .mapping entries => entries.filterMap fun (key, value) =>
    match (g.node key).content with
    | .scalar text => if (g.node key).tag = .merge then none else some (.name text, value)
    | _ => none

def recordChildren (g : Graph) (location : Location) (id : Nat) (positions : Positions) :
    Positions :=
  (g.steps id).foldl
    (fun positions s => positions.record (location ++ [s.1]) (g.node s.2).start) positions

/-- Takes the nodes of a work list in turn.  A node that was visited before or that lies
deeper than the limit is passed over, and the last of its children is visited first. -/
def index (g : Graph) (limit : Int) :
    Nat → List (Nat × Location) → List Nat → Positions → Positions
  | 0, _, _, positions => positions
  | _ + 1, [], _, positions => positions
  | fuel + 1, (id, location) :: work, visited, positions =>
    if visited.contains id || limit < location.length then index g limit fuel work visited positions
    else
      let children := (g.steps id).map fun s => (s.2, location ++ [s.1])
      index g limit fuel (children.reverse ++ work) (id :: visited)
        (g.recordChildren location id positions)

/-- The number of nodes that a walk meets at most, each node once for every node above it. -/
def walkBound (g : Graph) : Nat :=
  ((List.range g.nodes.size).flatMap g.steps).length + 2

def positions (g : Graph) (limit : Int) : Positions :=
  g.index limit g.walkBound [(g.root, [])] [] [([], (g.node g.root).start)]

end Wireframe.Yaml.Graph
