import Wireframe.Grammar.Rules
import Wireframe.Value.Measure

/-!
# Checking documents

A tree that is larger or deeper than the settings allow is reported with a single
finding and not looked at further.  Otherwise every finding is reported.
-/

namespace Wireframe

namespace Value

def isTooLarge (settings : Settings) (tree : Value) : Bool :=
  settings.maxNodes < tree.count settings.maxNodes

/-- The findings of a tree in written order.  There are none if it can be brought into
canonical form.  The rules are for trees whose keys can be written. -/
def findings (settings : Settings) (tree : Value) : Except NoText (List Finding) :=
  if tree.isTooLarge settings then .ok (Rules.report (.tooManyValues settings.maxNodes) [])
  else
    (tree.depthExcess? settings.maxDepth).map fun
      | some location => Rules.report (.tooDeep settings.maxDepth) location
      | none => Rules.root settings tree

/-- The reports of findings, if all that they tell can be written. -/
def reportAll (positions : Positions) (findings : List Finding) :
    Except NoText (List Diagnostic) :=
  if findings.all fun f => f.problem.hasText then .ok (findings.map (Finding.diagnose positions))
  else .error .longInteger

def check (settings : Settings) (positions : Positions) (tree : Value) :
    Except NoText (List Diagnostic) :=
  tree.findings settings >>= reportAll positions

end Value

end Wireframe
