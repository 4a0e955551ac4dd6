import Wireframe.Yaml.Node.Grammar
import Wireframe.Yaml.Node.Positions
import Wireframe.Yaml.Shared.Build

/-!
# Reading documents

An input holds one document, or none, which reads as null.  The positions are taken from the
node graph before its merge keys are replaced.
-/

namespace Wireframe.Yaml

/-- A document that was read, with the positions of its nodes. -/
structure Reading where
  tree : SharedTree
  positions : Positions
  deriving Repr

namespace Reading

def empty : Reading := ⟨⟨.scalar .null, #[]⟩, []⟩

def graph (dialect : Dialect) (input : Input) : Except Failure (Option Graph) :=
  match Source.ofInput input with
  | .error e => .error (.source e)
  | .ok source => Graph.ofLexemes dialect (Lexemes.ofSource source)

/-- Reads an input; nodes below a limit of steps have no position. -/
def ofInput (dialect : Dialect) (limit : Int) (input : Input) : Except Failure Reading := do
  match ← graph dialect input with
  | none => return empty
  | some g => return ⟨← SharedTree.ofGraph dialect g, g.positions limit⟩

end Reading

end Wireframe.Yaml
