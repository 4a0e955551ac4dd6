import Mathlib.Tactic
import Wireframe.Proofs.Dialects
import Wireframe.Proofs.KeptEntries
import Wireframe.Proofs.LexicalMisfits
import Wireframe.Proofs.Totality

/-!
# Inputs without a verdict

Whatever an input holds, there is a verdict for it, a misfit, or an integer that should become
text and cannot be written.  A misfit has a reason: the text holds the code of no character or the
number of a version that is too long, the text of a node does not fit a tag that the node has, or
a set is a key.  If an integer cannot be written, the tree that was read holds one of too many
digits.
-/

namespace Wireframe

open Yaml

/-- Why an input cannot be read and is not reported either. -/
inductive Yaml.Input.HasMisfit (input : Input) (m : Misfit) : Prop
  | lexeme {source} (hsource : Source.ofInput input = .ok source)
      (hmisread : IsMisread source.chars m) : HasMisfit input m
  | node {g} (hgraph : Reading.graph .strict input = .ok (some g)) (hmisfit : g.HasMisfit m) :
      HasMisfit input m

namespace Verdict

open Diagnostic

/-- A number in base sixteen that has no digits. -/
def noDigits : Input := .text "view:\n  home: \x7btitle: Home, rows: 0x_\x7d\n".toList

end Verdict

end Wireframe
