import Wireframe.Location
import Wireframe.Value.Text

/-!
# Size and depth

The size of a tree is the number of its values, where a value that is shared
counts at every place that refers to it.  Counting visits no more nodes than its
limit asks for, so it ends on trees that hold themselves as well.  The depth is
the number of containers around a container; to tell where it is, the keys on the
way are written.  Both measures keep what they have not yet looked at on a stack.
-/

namespace Wireframe

/-- The number of nodes that are taken from the top of a stack, up to a budget, and of those that
were met before.  The children of a node are put in its place, the last of them on top. -/
def countNodes {α : Type} (children : α → List α) : (budget met : Nat) → List α → Nat
  | 0, met, _ => met
  | _ + 1, met, [] => met
  | budget + 1, met, node :: stack =>
    countNodes children budget (met + 1) ((children node).reverse ++ stack)

namespace Value

/-- The number of values of a tree, or one more than the limit if it has more. -/
def count (tree : Value) (limit : Int) : Nat :=
  countNodes children (limit + 1).toNat 0 [tree]

/-- The parts of a container in written order, with the steps that lead to them. -/
def parts? : Value → Option (List (Step × Value))
  | list xs => some (xs.zipIdx.map fun x => (.place x.2, x.1))
  | tuple xs => some (xs.zipIdx.map fun x => (.place x.2, x.1))
  | map es => some (es.map fun e => (.name e.1.render, e.2))
  | _ => none

/-- Whether the steps to the parts of a container can be written. -/
def hasStepTexts : Value → Bool
  | map es => es.all fun e => e.1.hasText
  | _ => true

theorem map_snd_parts?
    {v : Value} {parts : List (Step × Value)} (hparts : v.parts? = some parts) :
    parts.map Prod.snd = v.children := by
  cases v with
  | list xs | tuple xs =>
      cases hparts
      rw [List.map_map]
      exact List.zipIdx_map_fst 0 xs
  | map es =>
      cases hparts
      exact List.map_map
  | _ => cases hparts

theorem sizeOf_children_le (v : Value) : sizeOf v.children ≤ sizeOf v := by
  have hentries (es : List (Key × Value)) : sizeOf (es.map Prod.snd) ≤ sizeOf es := by
    induction es with
    | nil => exact Nat.le_refl _
    | cons e rest ih =>
        rw [List.map_cons, List.cons.sizeOf_spec, List.cons.sizeOf_spec, Prod.mk.sizeOf_spec]
        omega
  cases v with
  | list xs =>
      rw [children, list.sizeOf_spec]
      omega
  | tuple xs =>
      rw [children, tuple.sizeOf_spec]
      omega
  | map es =>
      have hes := hentries es
      rw [children, map.sizeOf_spec]
      omega
  | _ => simp [children]

section Stacks

variable {values : List Value} {stack : Array (Value × Location)} {v : Value} {here : Location}

theorem sizeOf_append (values more : List Value) :
    sizeOf (values ++ more) + 1 = sizeOf values + sizeOf more := by
  induction values with
  | nil => exact Nat.add_comm _ _
  | cons v rest ih =>
      rw [List.cons_append, List.cons.sizeOf_spec, List.cons.sizeOf_spec]
      omega

theorem sizeOf_reverse (values : List Value) : sizeOf values.reverse = sizeOf values := by
  induction values with
  | nil => rfl
  | cons v rest ih =>
      have hadd := sizeOf_append rest.reverse [v]
      rw [List.cons.sizeOf_spec, List.nil.sizeOf_spec, ih] at hadd
      rw [List.reverse_cons, List.cons.sizeOf_spec]
      omega

theorem sizeOf_pop_lt (hback : stack.back? = some (v, here)) :
    sizeOf (stack.pop.toList.map Prod.fst) < sizeOf (stack.toList.map Prod.fst) := by
  obtain ⟨below, rfl⟩ := Array.back?_eq_some_iff.mp hback
  have hadd := sizeOf_append (below.toList.map Prod.fst) [v]
  rw [List.cons.sizeOf_spec, List.nil.sizeOf_spec] at hadd
  simp only [Array.pop_push, Array.toList_push, List.map_append, List.map_cons, List.map_nil]
  omega

/-- The parts of a container are less than the container. -/
theorem sizeOf_expand_lt
    {parts : List (Step × Value)} (hback : stack.back? = some (v, here))
    (hparts : v.parts? = some parts) :
    sizeOf ((stack.pop ++
      (parts.map fun part => (part.2, here ++ [part.1])).reverse.toArray).toList.map Prod.fst) <
        sizeOf (stack.toList.map Prod.fst) := by
  obtain ⟨below, rfl⟩ := Array.back?_eq_some_iff.mp hback
  have hvalues : (parts.map fun part => (part.2, here ++ [part.1])).map Prod.fst = v.children := by
    rw [List.map_map, ← map_snd_parts? hparts]
    rfl
  have htop := sizeOf_append (below.toList.map Prod.fst) [v]
  have hexpand := sizeOf_append (below.toList.map Prod.fst) v.children.reverse
  have hchildren := sizeOf_children_le v
  rw [List.cons.sizeOf_spec, List.nil.sizeOf_spec] at htop
  rw [sizeOf_reverse] at hexpand
  simp only [Array.pop_push, Array.toList_push, Array.toList_append, List.map_append,
    List.map_reverse, hvalues, List.map_cons, List.map_nil]
  omega

end Stacks

/-- Takes values from the end of a stack until one is a container that has at least as many steps
above it as the limit.  In place of any other container its parts are put there, the last of them
first.  A container with a key that cannot be written ends the search. -/
@[semireducible]
def searchStack (limit : Int) (stack : Array (Value × Location)) :
    Except NoText (Option Location) :=
  match hback : stack.back? with
  | none => .ok none
  | some (v, here) =>
    match hparts : v.parts? with
    | none =>
      have := sizeOf_pop_lt hback
      searchStack limit stack.pop
    | some parts =>
      have := sizeOf_expand_lt hback hparts
      if !v.hasStepTexts then .error .longInteger
      else if limit ≤ here.length then .ok (some here)
      else
        searchStack limit
          (stack.pop ++ (parts.map fun part => (part.2, here ++ [part.1])).reverse.toArray)
termination_by sizeOf (stack.toList.map Prod.fst)
decreasing_by all_goals assumption

/-- The location of the first container that is nested deeper than the limit. -/
def depthExcess? (tree : Value) (limit : Int) : Except NoText (Option Location) :=
  searchStack limit #[(tree, [])]

end Value

end Wireframe
