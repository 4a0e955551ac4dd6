import Mathlib.Tactic
import Wireframe.Grammar.Check

/-!
# Reports of findings

A tree is checked by making a report of each of its findings.  There are no reports at all if the
keys of the tree cannot be written where its depth is measured, or if a type that is told cannot be.
-/

namespace Wireframe

namespace Value

variable {settings : Settings} {positions : Positions} {tree : Value} {ds : List Diagnostic}

theorem reportAll_eq_ok_iff {fs : List Finding} :
    reportAll positions fs = .ok ds ↔
      (∀ f ∈ fs, f.problem.hasText = true) ∧ ds = fs.map (Finding.diagnose positions) := by
  rw [reportAll, ← List.all_eq_true]
  split_ifs with htext <;> simp [htext, eq_comm]

theorem check_eq_ok_iff :
    tree.check settings positions = .ok ds ↔
      ∃ fs, tree.findings settings = .ok fs ∧ (∀ f ∈ fs, f.problem.hasText = true) ∧
        ds = fs.map (Finding.diagnose positions) := by
  rw [check]
  cases tree.findings settings with
  | error cause => simp [bind, Except.bind]
  | ok fs => simp [bind, Except.bind, reportAll_eq_ok_iff]

theorem check_eq_ok_nil_iff :
    tree.check settings positions = .ok [] ↔ tree.findings settings = .ok [] := by
  rw [check_eq_ok_iff]
  constructor
  · rintro ⟨fs, hfindings, -, hds⟩
    rw [hfindings, List.map_eq_nil_iff.mp hds.symm]
  · exact fun hfindings => ⟨[], hfindings, nofun, rfl⟩

/-- A tree that is neither too large nor too deep has the findings of the rules. -/
theorem findings_eq_root
    (hsize : tree.isTooLarge settings = false)
    (hdepth : tree.depthExcess? settings.maxDepth = .ok none) :
    tree.findings settings = .ok (Rules.root settings tree) := by
  simp [findings, hsize, hdepth, Except.map]

/-- What the findings of a tree are, unless its keys cannot be written. -/
theorem findings_eq_ok_iff {fs : List Finding} :
    tree.findings settings = .ok fs ↔
      tree.isTooLarge settings = true ∧
          fs = Rules.report (.tooManyValues settings.maxNodes) [] ∨
        tree.isTooLarge settings = false ∧
          ((∃ location, tree.depthExcess? settings.maxDepth = .ok (some location) ∧
              fs = Rules.report (.tooDeep settings.maxDepth) location) ∨
            tree.depthExcess? settings.maxDepth = .ok none ∧ fs = Rules.root settings tree) := by
  unfold findings
  split_ifs with hsize
  · simp [hsize, eq_comm]
  · cases tree.depthExcess? settings.maxDepth with
    | error cause => simp [hsize, Except.map]
    | ok found => cases found <;> simp [hsize, Except.map, eq_comm]

end Value

end Wireframe
