import Wireframe.Canonical.Document
import Wireframe.Grammar.Check
import Wireframe.Yaml.Reading

/-!
# Verdicts

A text is read, checked, brought into canonical form and built.  The first stage that finds
faults ends the work with a report of all faults that it found.
-/

namespace Wireframe

inductive Verdict
  | accepted (d : Document)
  | rejected (diagnostics : List Diagnostic)
  deriving Repr

/-- What ends the work without a verdict: a scalar that does not fit its tag, a tree that cannot
be brought into canonical form, or a value that cannot be written. -/
inductive Mishap
  | misfit (m : Yaml.Misfit)
  | obstacle (o : Obstacle)
  | notWritten (cause : NoText)
  deriving Repr

namespace Verdict

/-- The verdict for a tree in canonical form, none if there is an abrupt fault. -/
def ofCanonical (tree : Value) : Except Mishap Verdict :=
  match Document.build tree with
  | .ok d => .ok (accepted d)
  | .error faults =>
    match faults.findSome? fun f => f.cause.abrupt? with
    | some cause => .error (.notWritten cause)
    | none => .ok (rejected (faults.map (Fault.diagnose tree)))

/-- The verdict for a tree that was checked, and the keys that were renamed. -/
def ofTree (settings : Settings) (tree : Value) : Except Mishap (Verdict × List Renaming) := do
  let (tree, renamings) ← (Canonical.restructure settings tree).mapError Mishap.obstacle
  return (← ofCanonical tree, renamings)

/-- The reports about what was read.  A tree that is too large is not unfolded. -/
def check (settings : Settings) (reading : Yaml.Reading) : Except NoText (List Diagnostic) :=
  if settings.maxNodes < reading.tree.count settings.maxNodes then
    Value.reportAll reading.positions (Rules.report (.tooManyValues settings.maxNodes) [])
  else reading.tree.toValue.check settings reading.positions

/-- The verdict for an input, and the keys that were renamed. -/
def ofInput (settings : Settings) (input : Yaml.Input) :
    Except Mishap (Verdict × List Renaming) :=
  match Yaml.Reading.ofInput .strict settings.maxDepth input with
  | .error (.misfit m) => .error (.misfit m)
  | .error f => .ok (rejected f.diagnose?.toList, [])
  | .ok reading =>
    match check settings reading with
    | .error cause => .error (.notWritten cause)
    | .ok [] => ofTree settings reading.tree.toValue
    | .ok diagnostics => .ok (rejected diagnostics, [])

end Verdict

end Wireframe
