import Mathlib.Tactic
import Wireframe.Grammar.Check
import Wireframe.Proofs.Nesting
import Wireframe.Proofs.Nodes
import Wireframe.Proofs.Reports
import Wireframe.Yaml.Shared

/-!
# What the ceilings measure

Counting stops at its budget.  As long as it goes on, what was met and what is on the stack or
below it make up the nodes of the tree, and nodes that are deeper than the budget play no part.
So the count is the number of all nodes or the budget, whichever is less, even if the tree holds
itself.  A tree that does not is too large if and only if its size is beyond the limit.

A tree is looked at by the rules if it is within both ceilings, that of its size and that of how
deep its containers are nested.
-/

namespace Wireframe

/-! ## Counting nodes -/

section Counting

variable {α : Type} (children : α → List α)

/-- The number of nodes of a tree that are less than a number of steps below its root. -/
def nodesWithin : (depth : Nat) → α → Nat
  | 0, _ => 0
  | depth + 1, node => 1 + ((children node).map (nodesWithin depth)).sum

/-- The number of nodes of several trees down to a depth. -/
def nodesOfAll (depth : Nat) (work : List α) : Nat := (work.map (nodesWithin children depth)).sum

@[simp] theorem nodesOfAll_nil (depth : Nat) : nodesOfAll children depth [] = 0 := rfl

@[simp] theorem nodesOfAll_zero (work : List α) : nodesOfAll children 0 work = 0 := by
  simp [nodesOfAll, nodesWithin]

theorem nodesOfAll_cons (depth : Nat) (node : α) (work : List α) :
    nodesOfAll children (depth + 1) (node :: work) =
      1 + nodesOfAll children depth (children node) + nodesOfAll children (depth + 1) work :=
  rfl

theorem nodesOfAll_append (depth : Nat) (work more : List α) :
    nodesOfAll children depth (work ++ more) =
      nodesOfAll children depth work + nodesOfAll children depth more := by
  simp [nodesOfAll]

/-- Nodes of several trees are these trees and the nodes below them. -/
theorem nodesOfAll_succ (depth : Nat) (work : List α) :
    nodesOfAll children (depth + 1) work =
      work.length + nodesOfAll children depth (work.flatMap children) := by
  induction work with
  | nil => simp
  | cons node rest ih =>
      rw [nodesOfAll_cons, ih, List.flatMap_cons, nodesOfAll_append, List.length_cons]
      omega

theorem nodesOfAll_le_succ (depth : Nat) (work : List α) :
    nodesOfAll children depth work ≤ nodesOfAll children (depth + 1) work := by
  induction depth generalizing work with
  | zero => simp
  | succ depth ih =>
      have hbelow := ih (work.flatMap children)
      rw [nodesOfAll_succ, nodesOfAll_succ]
      omega

theorem nodesOfAll_reverse (depth : Nat) (work : List α) :
    nodesOfAll children depth work.reverse = nodesOfAll children depth work := by
  rw [nodesOfAll, List.map_reverse, List.sum_reverse, nodesOfAll]

theorem nodesWithin_mono (node : α) : Monotone fun depth => nodesWithin children depth node :=
  monotone_nat_of_le_succ fun depth => by
    have hle := nodesOfAll_le_succ children depth [node]
    simpa [nodesOfAll] using hle

/-- Where there are nodes on every level down to a depth there are as many nodes, and else there
are none further down. -/
theorem le_nodesOfAll_or_eq (depth : Nat) (work : List α) :
    depth ≤ nodesOfAll children depth work ∨
      nodesOfAll children (depth + 1) work = nodesOfAll children depth work := by
  induction depth generalizing work with
  | zero => exact .inl (Nat.zero_le _)
  | succ depth ih =>
      cases work with
      | nil => exact .inr rfl
      | cons node rest =>
          have hbelow := ih ((node :: rest).flatMap children)
          rw [nodesOfAll_succ children (depth + 1), nodesOfAll_succ children depth,
            List.length_cons]
          omega

/-! ## The loop -/

/-- Counting meets the nodes on the stack and those below them, as far as the budget goes.  No
node within the budget has more nodes above it than the budget. -/
theorem countNodes_eq {budget depth : Nat} (hdepth : budget ≤ depth) (met : Nat)
    (stack : List α) :
    countNodes children budget met stack =
      met + min budget (nodesOfAll children depth stack) := by
  induction budget generalizing depth met stack with
  | zero => rw [countNodes, Nat.zero_min, Nat.add_zero]
  | succ budget ih =>
      cases stack with
      | nil => rw [countNodes, nodesOfAll_nil, Nat.min_zero, Nat.add_zero]
      | cons node stack =>
          obtain ⟨depth, rfl⟩ : ∃ n, depth = n + 1 := ⟨depth - 1, by omega⟩
          have hstack := le_nodesOfAll_or_eq children depth stack
          have hle := nodesOfAll_le_succ children depth stack
          rw [countNodes, ih (Nat.le_of_succ_le_succ hdepth), nodesOfAll_append,
            nodesOfAll_reverse, nodesOfAll_cons]
          omega

theorem countNodes_root {budget depth : Nat} (hdepth : budget ≤ depth) (root : α) :
    countNodes children budget 0 [root] = min budget (nodesWithin children depth root) := by
  rw [countNodes_eq children hdepth]
  simp [nodesOfAll]

/-- A tree has more nodes than a limit if and only if it has them down to some depth. -/
theorem lt_countNodes_iff (limit : Int) (root : α) :
    limit < countNodes children (limit + 1).toNat 0 [root] ↔
      ∃ depth, limit < nodesWithin children depth root := by
  constructor
  · intro hlimit
    rw [countNodes_root children (Nat.le_refl _)] at hlimit
    exact ⟨(limit + 1).toNat, by omega⟩
  · rintro ⟨depth, hlimit⟩
    have hmore := nodesWithin_mono children root (Nat.le_max_right (limit + 1).toNat depth)
    rw [countNodes_root children (Nat.le_max_left (limit + 1).toNat depth)]
    simp only at hmore
    omega

/-- The nodes that counting takes from the stack, one after the other. -/
def visited : (budget : Nat) → List α → List α
  | 0, _ => []
  | _ + 1, [] => []
  | budget + 1, node :: stack => node :: visited budget ((children node).reverse ++ stack)

theorem countNodes_eq_length_visited (budget met : Nat) (stack : List α) :
    countNodes children budget met stack = met + (visited children budget stack).length := by
  induction budget generalizing met stack with
  | zero => rfl
  | succ budget ih =>
      cases stack with
      | nil => rfl
      | cons node stack =>
          rw [countNodes, visited, ih, List.length_cons]
          omega

open Classical in
/-- The number of all nodes of a tree, which may have no end. -/
noncomputable def extent (root : α) : ℕ∞ :=
  if h : ∃ n, ∀ depth, nodesWithin children depth root ≤ n then (Nat.find h : ℕ∞) else ⊤

theorem lt_extent_iff (n : Nat) (root : α) :
    (n : ℕ∞) < extent children root ↔ ∃ depth, n < nodesWithin children depth root := by
  classical
  unfold extent
  split_ifs with hbound
  · rw [Nat.cast_lt, Nat.lt_find_iff]
    constructor
    · intro hnone
      simpa using hnone n (Nat.le_refl n)
    · rintro ⟨depth, hdepth⟩ m hm hall
      have hle := hall depth
      omega
  · simp only [not_exists, not_forall, not_le] at hbound
    exact iff_of_true (ENat.natCast_lt_top n) (hbound n)

theorem countNodes_eq_extent (budget : Nat) (root : α) :
    (countNodes children budget 0 [root] : ℕ∞) = min (budget : ℕ∞) (extent children root) := by
  have hcount {depth : Nat} (hdepth : budget ≤ depth) := countNodes_root children hdepth root
  refine eq_of_forall_lt_iff fun c => ?_
  induction c using ENat.recTopCoe with
  | top => exact iff_of_false not_top_lt not_top_lt
  | coe n =>
      rw [lt_min_iff, lt_extent_iff, Nat.cast_lt, Nat.cast_lt]
      constructor
      · intro hn
        rw [hcount (Nat.le_refl budget)] at hn
        exact ⟨by omega, budget, by omega⟩
      · rintro ⟨hbudget, depth, hdepth⟩
        have hmore := nodesWithin_mono children root (Nat.le_max_right budget depth)
        rw [hcount (Nat.le_max_left budget depth)]
        simp only at hmore
        omega

end Counting

/-- What is unfolded has no more nodes than what it is unfolded from. -/
theorem Yaml.SharedTree.nodesWithin_unfold_le
    (t : SharedTree) (fuel : Nat) (path : List (Option Nat)) (part : Part) (depth : Nat) :
    nodesWithin Value.children depth (t.unfold fuel path part) ≤
      nodesWithin t.children depth part := by
  induction depth generalizing fuel path part with
  | zero => exact Nat.le_refl 0
  | succ depth ih =>
      have hitems (fuel : Nat) (path : List (Option Nat)) (items : List Part) :
          ((items.map (t.unfold fuel path)).map (nodesWithin Value.children depth)).sum ≤
            (items.map (nodesWithin t.children depth)).sum := by
        rw [List.map_map]
        exact List.sum_le_sum fun item _ => ih fuel path item
      have hleaf (v : Value) (hv : v.children = []) :
          nodesWithin Value.children (depth + 1) v ≤ nodesWithin t.children (depth + 1) part := by
        simp [nodesWithin, hv]
      match part, fuel with
      | .scalar s, 0 | .scalar s, _ + 1 => exact hleaf _ rfl
      | .pair a b, 0 | .container id, 0 => exact hleaf _ rfl
      | .pair a b, fuel + 1 => exact Nat.add_le_add_left (hitems fuel (none :: path) [a, b]) 1
      | .container id, fuel + 1 =>
          unfold unfold
          split
          next => exact hleaf _ rfl
          next =>
            simp only
            split
            next items hcontainer =>
              have hbelow := hitems fuel (some id :: path) items
              simp only [nodesWithin, Value.children, children, hcontainer]
              omega
            next => exact hleaf _ rfl
            next entries hcontainer =>
              have hbelow := hitems fuel (some id :: path) (entries.map Prod.snd)
              simp only [nodesWithin, Value.children, children, hcontainer]
              simp only [List.map_map] at hbelow ⊢
              exact Nat.add_le_add_left hbelow 1

namespace Value

/-! ## Size -/

/-- The number of values of a tree, the tree itself included. -/
def size (v : Value) : Nat := v.locations.length

theorem size_eq (v : Value) : v.size = 1 + (v.children.map size).sum := by
  have hitems (items : List Value) (i : Nat) :
      (locationsOfItems items i).length = (items.map size).sum := by
    induction items generalizing i with
    | nil => rfl
    | cons w rest ih =>
        rw [locationsOfItems, List.length_append, List.length_map, ih, List.map_cons,
          List.sum_cons, size]
  have hentries (entries : Entries) :
      (locationsOfEntries entries).length = ((entries.map Prod.snd).map size).sum := by
    induction entries with
    | nil => rfl
    | cons e rest ih =>
        rw [locationsOfEntries, List.length_append, List.length_map, ih, List.map_cons,
          List.map_cons, List.sum_cons, size]
  unfold size
  cases v with
  | list items => rw [locations, List.length_cons, hitems, Nat.add_comm]; rfl
  | tuple items => rw [locations, List.length_cons, hitems, Nat.add_comm]; rfl
  | map entries => rw [locations, List.length_cons, hentries, Nat.add_comm]; rfl
  | _ => rfl

theorem nodesWithin_le_size (depth : Nat) (v : Value) : nodesWithin children depth v ≤ v.size := by
  induction depth generalizing v with
  | zero => exact Nat.zero_le _
  | succ depth ih =>
      rw [nodesWithin, size_eq]
      exact Nat.add_le_add_left (List.sum_le_sum fun w _ => ih w) 1

theorem nodesWithin_eq_size {depth : Nat} (hdepth : v.size ≤ depth) :
    nodesWithin children depth v = v.size := by
  induction v using inductionOnChildren generalizing depth with
  | hchildren v ih =>
      have hsize := v.size_eq
      cases depth with
      | zero => omega
      | succ depth =>
          have hbelow : v.children.map (nodesWithin children depth) = v.children.map size := by
            refine List.map_congr_left fun w hw => ih w hw ?_
            have hle : w.size ≤ (v.children.map size).sum :=
              List.single_le_sum (by simp) _ (List.mem_map_of_mem hw)
            omega
          rw [nodesWithin, hbelow, ← hsize]

theorem isTooLarge_iff {settings : Settings} {tree : Value} :
    tree.isTooLarge settings = true ↔ settings.maxNodes < tree.size := by
  rw [isTooLarge, decide_eq_true_iff, count, lt_countNodes_iff]
  constructor
  · rintro ⟨depth, hdepth⟩
    have hle := tree.nodesWithin_le_size depth
    omega
  · intro hsize
    exact ⟨tree.size, by rwa [nodesWithin_eq_size (Nat.le_refl _)]⟩

theorem extent_eq (tree : Value) : extent children tree = tree.size := by
  refine eq_of_forall_lt_iff fun c => ?_
  induction c using ENat.recTopCoe with
  | top => exact iff_of_false not_top_lt not_top_lt
  | coe n =>
      rw [lt_extent_iff, Nat.cast_lt]
      constructor
      · rintro ⟨depth, hdepth⟩
        exact hdepth.trans_le (tree.nodesWithin_le_size depth)
      · intro hn
        exact ⟨tree.size, by rwa [nodesWithin_eq_size (Nat.le_refl _)]⟩

theorem count_eq (tree : Value) (limit : Nat) : tree.count limit = min (limit + 1) tree.size := by
  have hcount := countNodes_root children (Nat.le_max_left (limit + 1) tree.size) tree
  rwa [nodesWithin_eq_size (Nat.le_max_right _ _)] at hcount

/-! ## Both ceilings -/

/-- The tree is neither larger nor nested deeper than the settings allow. -/
structure IsWithin (settings : Settings) (tree : Value) : Prop where
  size : tree.size ≤ settings.maxNodes
  depth : ∀ place, tree.IsContainerAt place → (place.length : Int) < settings.maxDepth

variable {settings : Settings} {tree : Value}

theorem isTooLarge_eq_false_iff :
    tree.isTooLarge settings = false ↔ tree.size ≤ settings.maxNodes := by
  rw [← not_lt, ← isTooLarge_iff, Bool.not_eq_true]

/-- A tree whose nodes can be located is within both ceilings if neither is found to be
exceeded. -/
theorem isWithin_and_isLocatable_iff :
    tree.IsWithin settings ∧ tree.IsLocatable ↔
      tree.isTooLarge settings = false ∧ tree.depthExcess? settings.maxDepth = .ok none := by
  have hdepth : tree.depthExcess? settings.maxDepth = .ok none ↔ tree.IsLocatable ∧
      ∀ place, tree.IsContainerAt place → (place.length : Int) < settings.maxDepth := by
    rw [depthExcess?_eq, tooDeep?_eq_none_iff_place]
    simp
  rw [isTooLarge_eq_false_iff, hdepth]
  exact ⟨fun ⟨h, hlocatable⟩ => ⟨h.size, hlocatable, h.depth⟩,
    fun ⟨hsize, hlocatable, hall⟩ => ⟨⟨hsize, hall⟩, hlocatable⟩⟩

theorem isWithin_of_depthExcess?
    (hsize : tree.isTooLarge settings = false)
    (hdepth : tree.depthExcess? settings.maxDepth = .ok none) :
    tree.IsWithin settings :=
  (isWithin_and_isLocatable_iff.mpr ⟨hsize, hdepth⟩).1

/-- A tree within the ceilings has the findings of the rules if its nodes can be located, and
else it has none. -/
theorem IsWithin.findings_eq_ok_iff (hwithin : tree.IsWithin settings) {fs : List Finding} :
    tree.findings settings = .ok fs ↔ tree.IsLocatable ∧ fs = Rules.root settings tree := by
  have hsize := isTooLarge_eq_false_iff.mpr hwithin.size
  constructor
  · intro hfindings
    rcases Value.findings_eq_ok_iff.mp hfindings with
      ⟨hlarge, -⟩ | ⟨-, ⟨l, hdeep, -⟩ | ⟨hdepth, hroot⟩⟩
    · cases hsize.symm.trans hlarge
    · obtain ⟨place, ⟨l, x, hnode, hx, -⟩, hpast, -⟩ := exists_isFirstAt hdeep
      have hshort := hwithin.depth place ⟨l, x, hnode, hx⟩
      simp only [List.length_nil] at hpast
      omega
    · exact ⟨(isWithin_and_isLocatable_iff.mpr ⟨hsize, hdepth⟩).2, hroot⟩
  · rintro ⟨hlocatable, rfl⟩
    exact findings_eq_root hsize (isWithin_and_isLocatable_iff.mp ⟨hwithin, hlocatable⟩).2

theorem isWithin_of_findings_eq_nil (hnone : tree.findings settings = .ok []) :
    tree.IsWithin settings := by
  rcases findings_eq_ok_iff.mp hnone with ⟨-, hreport⟩ | ⟨hsize, ⟨l, -, hreport⟩ | ⟨hdepth, -⟩⟩
  · cases hreport
  · cases hreport
  · exact isWithin_of_depthExcess? hsize hdepth

theorem isWithin_of_check_eq_nil
    {positions : Positions} (hnone : tree.check settings positions = .ok []) :
    tree.IsWithin settings :=
  isWithin_of_findings_eq_nil (check_eq_ok_nil_iff.mp hnone)

end Value

end Wireframe
