import Mathlib.Tactic
import Wireframe.Proofs.DepthReports
import Wireframe.Proofs.ReorderedTrees
import Wireframe.Verdict

/-!
# Reports of the size

Counting tells the number of all values of a tree or one more than the limit, whichever is less,
and it visits no more values than it tells.  So the size of a tree is reported if, and only if,
the tree has more values than allowed, and then nothing else is reported.  The order in which
the entries of mappings are written plays no part in it.
-/

namespace Wireframe

/-- Nothing else is worded like the report that a tree is too large. -/
theorem Problem.eq_tooManyValues_of_message
    {problem : Problem} {limit : Int} (hmessage : problem.message = (tooManyValues limit).message) :
    ∃ n, problem = .tooManyValues n := by
  have hlast : problem.message.toList.getLast? = some 's' := by
    rw [hmessage]
    exact getLast?_toList_append rfl
  rcases eq_tooManyValues_or_tooDeep hlast with hlarge | ⟨n, rfl⟩
  · exact hlarge
  · exact absurd hmessage.symm (append_values_ne_append_levels _ _)

/-- The report that a tree is too large, at its root. -/
def sizeReport (settings : Settings) (positions : Positions) : Diagnostic :=
  Finding.diagnose positions ⟨.tooManyValues settings.maxNodes, []⟩

/-- The size is reported under a condition only, and then it is all that is reported. -/
structure ReportsSize (settings : Settings) (positions : Positions)
    (answer : Except NoText (List Diagnostic)) (condition : Prop) : Prop where
  reported_iff : (∃ ds, answer = .ok ds ∧
    ∃ d ∈ ds, d.message = (sizeReport settings positions).message) ↔ condition
  alone_iff : answer = .ok [sizeReport settings positions] ↔ condition

section Reports

variable {settings : Settings} {positions : Positions} {answer : Except NoText (List Diagnostic)}
  {condition : Prop}

theorem reportsSize_of
    (hcondition : condition) (hanswer : answer = .ok [sizeReport settings positions]) :
    ReportsSize settings positions answer condition where
  reported_iff := iff_of_true ⟨_, hanswer, _, List.mem_singleton_self _, rfl⟩ hcondition
  alone_iff := iff_of_true hanswer hcondition

theorem reportsSize_of_not
    (hcondition : ¬ condition)
    (hnone : ∀ ds, answer = .ok ds →
      ∀ d ∈ ds, d.message ≠ (sizeReport settings positions).message) :
    ReportsSize settings positions answer condition where
  reported_iff :=
    iff_of_false (fun ⟨ds, hds, d, hd, hmessage⟩ => hnone ds hds d hd hmessage) hcondition
  alone_iff :=
    iff_of_false (fun hds => hnone _ hds _ (List.mem_singleton_self _) rfl) hcondition

end Reports

namespace Value

variable {settings : Settings} {tree : Value}

theorem ne_sizeReport_of_mem_check
    (hsize : tree.isTooLarge settings = false) {positions : Positions} {ds : List Diagnostic}
    (hcheck : tree.check settings positions = .ok ds) {d : Diagnostic} (hd : d ∈ ds) :
    d.message ≠ (sizeReport settings positions).message := by
  obtain ⟨fs, hfindings, -, rfl⟩ := check_eq_ok_iff.mp hcheck
  obtain ⟨f, hf, rfl⟩ := List.mem_map.mp hd
  intro hmessage
  obtain ⟨n, hproblem⟩ := Problem.eq_tooManyValues_of_message hmessage
  rcases findings_eq_ok_iff.mp hfindings with
    ⟨hlarge, -⟩ | ⟨-, ⟨location, -, rfl⟩ | ⟨-, rfl⟩⟩
  · cases hlarge.symm.trans hsize
  · rw [List.mem_singleton.mp hf] at hproblem
    cases hproblem
  · have hroot := eq_rootNotObject_of_mem_root hf (hproblem ▸ .tooManyValues n)
    rw [hproblem] at hroot
    cases hroot

theorem reportsSize_check (settings : Settings) (tree : Value) (positions : Positions) :
    ReportsSize settings positions (tree.check settings positions)
      (settings.maxNodes < tree.size) := by
  by_cases hsize : tree.isTooLarge settings = true
  · refine reportsSize_of (isTooLarge_iff.mp hsize) ?_
    rw [check, findings, if_pos hsize]
    rfl
  · refine reportsSize_of_not (mt isTooLarge_iff.mpr hsize) fun ds hcheck d hd => ?_
    exact ne_sizeReport_of_mem_check (Bool.eq_false_of_not_eq_true hsize) hcheck hd

end Value

namespace Verdict

/-- What is read may share values and hold itself, and it is measured before it is unfolded. -/
theorem reportsSize_check
    {settings : Settings} {limit : Nat} (hlimit : settings.maxNodes = limit)
    (reading : Yaml.Reading) :
    ReportsSize settings reading.positions (check settings reading)
      ((limit : ℕ∞) < extent reading.tree.children reading.tree.root) := by
  have hmany : (limit : ℕ∞) < extent reading.tree.children reading.tree.root ↔
      ∃ depth, settings.maxNodes < nodesWithin reading.tree.children depth reading.tree.root := by
    rw [lt_extent_iff, hlimit]
    simp only [Nat.cast_lt]
  have hcount := lt_countNodes_iff reading.tree.children settings.maxNodes reading.tree.root
  rw [hmany, ← hcount]
  by_cases hlarge : settings.maxNodes < reading.tree.count settings.maxNodes
  · refine reportsSize_of hlarge ?_
    rw [check, if_pos hlarge]
    rfl
  · refine reportsSize_of_not hlarge fun ds hcheck d hd => ?_
    rw [check, if_neg hlarge] at hcheck
    refine Value.ne_sizeReport_of_mem_check ?_ hcheck hd
    rw [← Bool.not_eq_true]
    intro hunfolded
    obtain ⟨depth, hdepth⟩ := (lt_countNodes_iff _ _ _).mp (of_decide_eq_true hunfolded)
    have hunfold := reading.tree.nodesWithin_unfold_le
      (2 * reading.tree.containers.size + 2) [] reading.tree.root depth
    unfold Yaml.SharedTree.toValue at hdepth
    exact hlarge (hcount.mpr ⟨depth, by omega⟩)

end Verdict

/-- Counting tells the size of a tree or one more than the limit, whichever is less, and this is
how many values it visits.  That goes for what shares values, where each reference to a value
counts, and for what holds itself, which has no end.  So the size is reported if and only if there
are more values than allowed, and it is reported alone and at the root.  A tree with its entries
in another order is counted alike and gets the same report. -/
theorem size_is_exact :
    (∀ (tree : Value) (limit : Nat),
      tree.count limit = min (limit + 1) tree.size ∧
        (visited Value.children (limit + 1) [tree]).length = tree.count limit) ∧
      (∀ (t : Yaml.SharedTree) (limit : Nat),
        (t.count limit : ℕ∞) = min ((limit + 1 : Nat) : ℕ∞) (extent t.children t.root) ∧
          (visited t.children (limit + 1) [t.root]).length = t.count limit) ∧
      (∀ (settings : Settings) (tree : Value) (positions : Positions),
        ReportsSize settings positions (tree.check settings positions)
          (settings.maxNodes < tree.size)) ∧
      (∀ (settings : Settings) (limit : Nat) (reading : Yaml.Reading),
        settings.maxNodes = limit →
          ReportsSize settings reading.positions (Verdict.check settings reading)
            ((limit : ℕ∞) < extent reading.tree.children reading.tree.root)) ∧
      ∀ tree other : Value, tree.Reordered other →
        (∀ limit : Int, tree.count limit = other.count limit) ∧
          ∀ (settings : Settings) (positions others : Positions),
            (tree.check settings positions = .ok [sizeReport settings positions] ↔
              other.check settings others = .ok [sizeReport settings others]) := by
  have hvisited {α : Type} (children : α → List α) (budget : Nat) (root : α) :
      (visited children budget [root]).length = countNodes children budget 0 [root] := by
    rw [countNodes_eq_length_visited, Nat.zero_add]
  refine ⟨fun tree limit => ⟨tree.count_eq limit, hvisited _ _ _⟩, fun t limit => ?_,
    Value.reportsSize_check, fun settings limit reading hlimit =>
      Verdict.reportsSize_check hlimit reading, fun tree other hreordered => ?_⟩
  · exact ⟨countNodes_eq_extent t.children (limit + 1) t.root, hvisited _ _ _⟩
  · have hsize := hreordered.size_eq
    refine ⟨fun limit => ?_, fun settings positions others => ?_⟩
    · have hbudget := Nat.le_max_left (limit + 1).toNat tree.size
      rw [Value.count, Value.count, countNodes_root _ hbudget, countNodes_root _ hbudget,
        Value.nodesWithin_eq_size (Nat.le_max_right _ _),
        Value.nodesWithin_eq_size (hsize ▸ Nat.le_max_right _ _), hsize]
    · rw [(Value.reportsSize_check settings tree positions).alone_iff, hsize,
        (Value.reportsSize_check settings other others).alone_iff]

/-- A mapping that has five values with itself. -/
def fivefold : Value :=
  .map [(.text "title", .text "Home"), (.text "rows", .list [.integer 1, .integer 2])]

/-- The same mapping with its entries the other way round. -/
def fivefoldTurned : Value :=
  .map [(.text "rows", .list [.integer 1, .integer 2]), (.text "title", .text "Home")]

theorem reordered_fivefold : fivefold.Reordered fivefoldTurned :=
  .map rfl (Value.forall₂_reordered_refl _) (.swap _ _ _)

/-- A list that holds itself. -/
def selfHolding : Yaml.Reading := ⟨⟨.container 0, #[.list [.container 0]]⟩, []⟩

/-- Settings that allow four values. -/
def fourValues : Settings := { Settings.default with maxNodes := 4 }

/-- Each order of the mapping has one value too many, and the list has no end. -/
theorem size_is_exact_fivefold :
    fivefold.count 9 = 5 ∧ fivefold.count 3 = 4 ∧ fourValues.maxNodes < fivefold.size ∧
      fivefold.Reordered fivefoldTurned ∧
      fivefoldTurned.check fourValues [] = .ok [sizeReport fourValues []] ∧
      fourValues.maxNodes = (4 : Nat) ∧
      ((4 : Nat) : ℕ∞) < extent selfHolding.tree.children selfHolding.tree.root ∧
      Verdict.check fourValues selfHolding = .ok [sizeReport fourValues []] := by
  obtain ⟨hcount, -, hchecked, hread, hturned⟩ := size_is_exact
  have hsize : fourValues.maxNodes < fivefold.size := by decide
  have hendless :
      ((4 : Nat) : ℕ∞) < extent selfHolding.tree.children selfHolding.tree.root :=
    (lt_extent_iff _ _ _).mpr ⟨5, by decide⟩
  have halone := (hchecked fourValues fivefold []).alone_iff.mpr hsize
  refine ⟨(hcount fivefold 9).1, (hcount fivefold 3).1, hsize, reordered_fivefold, ?_, rfl,
    hendless, ?_⟩
  · exact ((hturned _ _ reordered_fivefold).2 fourValues [] []).mp halone
  · exact (hread fourValues 4 selfHolding rfl).alone_iff.mpr hendless

end Wireframe
