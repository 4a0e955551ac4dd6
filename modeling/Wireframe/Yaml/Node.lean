import Wireframe.Diagnostic
import Wireframe.Yaml.Tag

/-!
# Node graphs

The nodes of a document are numbered.  A node lists the numbers of the nodes below it, so
an alias shares a node, and a node can be below itself.
-/

namespace Wireframe.Yaml

inductive Content
  | scalar (text : String)
  | sequence (items : List Nat)
  | mapping (entries : List (Nat × Nat))
  deriving DecidableEq, Repr

/-- The entries of a mapping; nothing else has entries. -/
def Content.entries : Content → List (Nat × Nat)
  | mapping entries => entries
  | _ => []

def Content.isScalar : Content → Bool
  | scalar _ => true
  | _ => false

structure Node where
  tag : Tag
  start : Position
  content : Content
  deriving DecidableEq, Repr

def Content.name : Content → String
  | scalar _ => "scalar"
  | sequence _ => "sequence"
  | mapping _ => "mapping"

instance : Inhabited Node := ⟨⟨.null, ⟨0, 0⟩, .scalar ""⟩⟩

structure Graph where
  nodes : Array Node
  root : Nat
  deriving DecidableEq, Repr

namespace Graph

def node (g : Graph) (id : Nat) : Node := g.nodes.getD id default

end Graph

end Wireframe.Yaml
