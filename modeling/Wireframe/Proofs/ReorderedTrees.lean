import Mathlib.Data.List.Perm.Basic
import Mathlib.Tactic
import Wireframe.Proofs.Ceilings
import Wireframe.Proofs.Nesting
import Wireframe.Proofs.WrittenValues

/-!
# Trees with entries in another order

A tree is reordered by permuting the entries of any of its mappings, at any depths.  The values
directly below a reordered tree are reordered ones of those below the tree, in another order, and
from this it follows that a reordered tree has the same size, is nested as deeply and can be
written if the tree can be.
-/

namespace Wireframe

namespace Value

/-- The second tree is the first one with the entries of mappings in another order, while
sequences keep theirs. -/
inductive Reordered : Value → Value → Prop
  | refl (v : Value) : Reordered v v
  | list {xs ys} (items : List.Forall₂ Reordered xs ys) : Reordered (.list xs) (.list ys)
  | tuple {xs ys} (items : List.Forall₂ Reordered xs ys) : Reordered (.tuple xs) (.tuple ys)
  | map {es fs gs : Entries} (keys : es.map Prod.fst = gs.map Prod.fst)
      (values : List.Forall₂ Reordered (es.map Prod.snd) (gs.map Prod.snd)) (order : gs.Perm fs) :
      Reordered (.map es) (.map fs)

variable {v w tree other : Value}

theorem forall₂_reordered_refl (vs : List Value) : List.Forall₂ Reordered vs vs :=
  List.forall₂_same.mpr fun v _ => .refl v

theorem Reordered.exists_children (hreordered : v.Reordered w) :
    ∃ between, List.Forall₂ Reordered v.children between ∧ between.Perm w.children := by
  cases hreordered with
  | refl => exact ⟨_, forall₂_reordered_refl _, .refl _⟩
  | list items => exact ⟨_, items, .refl _⟩
  | tuple items => exact ⟨_, items, .refl _⟩
  | map _ values order => exact ⟨_, values, order.map _⟩

theorem Reordered.isContainer_iff (hreordered : v.Reordered w) :
    v.IsContainer ↔ w.IsContainer := by
  cases hreordered with
  | refl => rfl
  | list | tuple => exact iff_of_true (.inr rfl) (.inr rfl)
  | map => exact iff_of_true (.inl rfl) (.inl rfl)

theorem Reordered.size_eq (hreordered : v.Reordered w) : v.size = w.size := by
  induction v using inductionOnChildren generalizing w with
  | hchildren v ih =>
      obtain ⟨between, hvalues, horder⟩ := hreordered.exists_children
      have hsizes : between.map size = v.children.map size :=
        map_eq_map_of_forall₂ ((List.forall₂_and_left _ _).mpr ⟨ih, hvalues⟩)
          fun _ _ h => (h.1 h.2).symm
      rw [v.size_eq, w.size_eq, ← hsizes, (horder.map size).sum_eq]

theorem IsContainer.forall_length_iff_children (hcontainer : v.IsContainer) (p : Nat → Prop) :
    (∀ place, v.IsContainerAt place → p place.length) ↔
      p 0 ∧ ∀ x ∈ v.children, ∀ place, x.IsContainerAt place → p (place.length + 1) := by
  rw [hcontainer.forall_length_iff, ← map_snd_parts? hcontainer.parts?_eq, List.forall_mem_map]

/-- What is true of how deep the containers of a tree are is true of a reordered tree. -/
theorem Reordered.forall_length_iff (hreordered : v.Reordered w) (p : Nat → Prop) :
    (∀ place, v.IsContainerAt place → p place.length) ↔
      ∀ place, w.IsContainerAt place → p place.length := by
  induction v using inductionOnChildren generalizing w p with
  | hchildren v ih =>
      by_cases hcontainer : v.IsContainer
      · have hother := hreordered.isContainer_iff.mp hcontainer
        obtain ⟨between, hvalues, horder⟩ := hreordered.exists_children
        rw [hcontainer.forall_length_iff_children, hother.forall_length_iff_children]
        refine and_congr_right fun _ => ?_
        constructor
        · intro hall y hy
          obtain ⟨x, hx, hxy⟩ := exists_of_mem_right hvalues (horder.mem_iff.mpr hy)
          exact (ih x hx hxy fun n => p (n + 1)).mp (hall x hx)
        · intro hall x hx
          obtain ⟨y, hy, hxy⟩ := exists_of_mem_left hvalues hx
          have hmem := horder.mem_iff.mp (List.of_mem_zip hy).2
          exact (ih x hx hxy fun n => p (n + 1)).mpr (hall y hmem)
      · have hother := mt hreordered.isContainer_iff.mpr hcontainer
        exact iff_of_true (fun _ hplace => absurd hplace.isContainer hcontainer)
          fun _ hplace => absurd hplace.isContainer hother

/-! ## What can be written -/

theorem hasText_map_iff_children {es : Entries} :
    (Value.map es).hasText = true ↔ (∀ k ∈ es.map Prod.fst, k.hasText = true) ∧
      ∀ x ∈ es.map Prod.snd, x.hasText = true := by
  rw [hasText_map, List.forall_mem_map, List.forall_mem_map, ← forall₂_and]

theorem forall_iff_of_forall₂
    {p : Value → Prop} {xs ys : List Value} (hvalues : List.Forall₂ (fun x y => p x ↔ p y) xs ys) :
    (∀ x ∈ xs, p x) ↔ ∀ y ∈ ys, p y := by
  induction hvalues with
  | nil => rfl
  | cons hhead _ ih => rw [List.forall_mem_cons, List.forall_mem_cons, hhead, ih]

theorem Reordered.hasText_iff (hreordered : v.Reordered w) :
    v.hasText = true ↔ w.hasText = true := by
  induction v using inductionOnChildren generalizing w with
  | hchildren v ih =>
      have hvalues {xs ys : List Value} (hxs : xs = v.children)
          (hrelated : List.Forall₂ Reordered xs ys) :
          (∀ x ∈ xs, x.hasText = true) ↔ ∀ y ∈ ys, y.hasText = true := by
        subst hxs
        exact forall_iff_of_forall₂ (((List.forall₂_and_left _ _).mpr ⟨ih, hrelated⟩).imp
          fun x y h => h.1 h.2)
      cases hreordered with
      | refl => rfl
      | list items =>
          rw [hasText_list, hasText_list]
          exact hvalues rfl items
      | tuple items =>
          rw [hasText_tuple, hasText_tuple]
          exact hvalues rfl items
      | map keys values order =>
          rw [hasText_map_iff_children, hasText_map_iff_children, keys]
          refine and_congr ?_ ((hvalues rfl values).trans ?_)
          · simp only [(order.map Prod.fst).mem_iff]
          · simp only [(order.map Prod.snd).mem_iff]

theorem Reordered.hasStepTexts_eq (hreordered : v.Reordered w) :
    v.hasStepTexts = w.hasStepTexts := by
  cases hreordered with
  | refl | list | tuple => rfl
  | @map es fs gs keys values order =>
      have hsame : (es.map Prod.fst).all Key.hasText = (fs.map Prod.fst).all Key.hasText := by
        rw [keys, (order.map Prod.fst).all_eq]
      rwa [List.all_map, List.all_map] at hsame

/-- The nodes of a reordered tree can be located if those of the tree can be. -/
theorem Reordered.isLocatable_iff (hreordered : v.Reordered w) :
    v.IsLocatable ↔ w.IsLocatable := by
  induction v using inductionOnChildren generalizing w with
  | hchildren v ih =>
      obtain ⟨between, hvalues, horder⟩ := hreordered.exists_children
      rw [isLocatable_iff_children, isLocatable_iff_children, hreordered.hasStepTexts_eq,
        forall_iff_of_forall₂ (((List.forall₂_and_left _ _).mpr ⟨ih, hvalues⟩).imp
          fun _ _ h => h.1 h.2)]
      simp only [horder.mem_iff]

end Value

end Wireframe
