import Wireframe.Value.Measure

/-!
# Shared trees

What is made of a node graph shares the containers that the graph shares, so it can be much
smaller than its tree of values, and it can hold itself.  It is measured without being
unfolded.  Unfolding stops at a container that is its own ancestor.
-/

namespace Wireframe.Yaml

/-- A part of a shared tree: a scalar, a container by its number, or a pair. -/
inductive Part
  | scalar (s : Scalar)
  | container (id : Nat)
  | pair (first second : Part)
  deriving Repr

inductive Container
  | list (items : List Part)
  | set (items : List Key)
  | map (entries : List (Key × Part))
  deriving Repr

structure SharedTree where
  root : Part
  containers : Array Container
  deriving Repr

namespace SharedTree

def container (t : SharedTree) (id : Nat) : Container := t.containers.getD id (.list [])

def children (t : SharedTree) : Part → List Part
  | .scalar _ => []
  | .pair a b => [a, b]
  | .container id =>
    match t.container id with
    | .list items => items
    | .set _ => []
    | .map entries => entries.map Prod.snd

/-- The number of values of the unfolded tree, or one more than the limit if it has more. -/
def count (t : SharedTree) (limit : Int) : Nat :=
  countNodes t.children (limit + 1).toNat 0 [t.root]

/-- Unfolds a part.  The path lists the containers around it, the nearest first, with nothing
in the place of a pair. -/
def unfold (t : SharedTree) : Nat → List (Option Nat) → Part → Value
  | _, _, .scalar s => .scalar s
  | 0, _, _ => .back 0
  | fuel + 1, path, .pair a b =>
    .tuple [unfold t fuel (none :: path) a, unfold t fuel (none :: path) b]
  | fuel + 1, path, .container id =>
    match path.idxOf? (some id) with
    | some i => .back (i + 1)
    | none =>
      let below := unfold t fuel (some id :: path)
      match t.container id with
      | .list items => .list (items.map below)
      | .set keys => .set keys
      | .map entries => .map (entries.map fun e => (e.1, below e.2))

/-- The tree of values.  No container is its own ancestor, and a pair is in a container. -/
def toValue (t : SharedTree) : Value := t.unfold (2 * t.containers.size + 2) [] t.root

end SharedTree

end Wireframe.Yaml
