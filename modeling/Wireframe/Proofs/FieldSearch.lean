import Mathlib.Tactic
import Wireframe.Canonical.Document

/-!
# Searching fields

A search takes one field after the other from the end of a stack and puts there what the field
repeats.  Read from its end, a stack lists the fields that are still to be met, and taking one
leaves the rest of that list.  So a search finds the first field of the walk that meets every
field before those that it repeats.
-/

namespace Wireframe

namespace Element

/-- The steps of the wizard of a screen, none if it has no wizard. -/
def wizardSteps (screen : Element) : List Element :=
  match screen.attribute? "wizard" with
  | some wizard => wizard.itemsOf "steps"
  | none => []

/-- The field has the identifier, and none of those before it has. -/
def IsFirst (id : String) (fields : List Element) (field : Element) : Prop :=
  ∃ before after, fields = before ++ field :: after ∧ field.id? = some id ∧
    ∀ f ∈ before, f.id? ≠ some id

/-! ## Walks -/

theorem fieldsOfItems_cons (field : Element) (rest : List Element) :
    fieldsOfItems (field :: rest) =
      field :: (fieldsOfItems field.repeated ++ fieldsOfItems rest) := by
  rw [fieldsOfItems, fieldsBelow_eq, List.cons_append]

theorem fieldsOfItems_flatMap {α : Type} (parts : List α) (fields : α → List Element) :
    fieldsOfItems (parts.flatMap fields) = parts.flatMap fun x => fieldsOfItems (fields x) := by
  induction parts with
  | nil => rfl
  | cons x rest ih => rw [List.flatMap_cons, fieldsOfItems_append, ih, List.flatMap_cons]

theorem allFields_eq (screen : Element) :
    screen.allFields = screen.screenFields ++ screen.wizardSteps.flatMap (itemsOf "fields") := by
  unfold allFields wizardSteps
  cases screen.attribute? "wizard" <;> rfl

/-! ## Stacks -/

/-- The fields that a search has yet to meet, in the order in which it meets them. -/
def ahead (stack : Array Element) : List Element := fieldsOfItems stack.toList.reverse

/-- A step of the search meets the first field that is ahead and leaves the others ahead. -/
theorem ahead_of_back?
    {stack : Array Element} {field : Element} (hback : stack.back? = some field) :
    ahead stack = field :: ahead (stack.pop ++ field.repeated.reverse) := by
  obtain ⟨below, rfl⟩ := Array.back?_eq_some_iff.mp hback
  have htop : (below.push field).toList.reverse = field :: below.toList.reverse := by simp
  have hexpand : ((below.push field).pop ++ field.repeated.reverse).toList.reverse =
      field.repeated ++ below.toList.reverse := by simp
  rw [ahead, ahead, htop, hexpand, fieldsOfItems_cons, fieldsOfItems_append]

theorem searchStack_eq (id : String) (stack : Array Element) :
    searchStack id stack = (ahead stack).find? fun f => f.id? == some id := by
  fun_induction searchStack id stack with
  | case1 stack hback =>
      obtain rfl := Array.back?_eq_none_iff.mp hback
      rfl
  | case2 stack field hback _ hid => rw [ahead_of_back? hback, List.find?_cons, hid]
  | case3 stack field hback _ hid ih =>
      rw [ahead_of_back? hback, List.find?_cons, Bool.eq_false_of_not_eq_true hid, ih]

theorem findField?_eq (fields : List Element) (id : String) :
    findField? fields id = (fieldsOfItems fields).find? fun f => f.id? == some id := by
  rw [findField?, searchStack_eq, ahead, List.toList_toArray, List.reverse_reverse]

theorem findField?_append (fields more : List Element) (id : String) :
    findField? (fields ++ more) id = (findField? fields id).or (findField? more id) := by
  simp only [findField?_eq, fieldsOfItems_append, List.find?_append]

theorem findField?_flatMap {α : Type} (parts : List α) (fields : α → List Element) (id : String) :
    findField? (parts.flatMap fields) id =
      parts.findSome? fun x => findField? (fields x) id := by
  simp only [findField?_eq, fieldsOfItems_flatMap, List.find?_flatMap]

theorem findField?_eq_some_iff {fields : List Element} {id : String} {field : Element} :
    findField? fields id = some field ↔ IsFirst id (fieldsOfItems fields) field := by
  rw [findField?_eq, List.find?_eq_some_iff_append]
  constructor
  · rintro ⟨hid, before, after, hwalk, hbefore⟩
    exact ⟨before, after, hwalk, by simpa using hid, fun f hf => by simpa using hbefore f hf⟩
  · rintro ⟨before, after, hwalk, hid, hbefore⟩
    exact ⟨by simpa using hid, before, after, hwalk, fun f hf => by simpa using hbefore f hf⟩

theorem findField?_eq_none_iff {fields : List Element} {id : String} :
    findField? fields id = none ↔ ∀ f ∈ fieldsOfItems fields, f.id? ≠ some id := by
  rw [findField?_eq, List.find?_eq_none]
  simp

theorem isSome_findField?_iff {fields : List Element} {id : String} :
    (findField? fields id).isSome ↔ ∃ f ∈ fieldsOfItems fields, f.id? = some id := by
  rw [findField?_eq, List.find?_isSome]
  simp only [beq_iff_eq]

/-- The search finds the first field with the identifier in the order in which a field comes
before what it repeats, and nothing only if there is none.  On all fields of a screen it looks
through those of the screen and then through those of one wizard step after the other. -/
theorem findField?_isFirst (id : String) :
    (∀ fields : List Element,
      (∀ field, findField? fields id = some field ↔ IsFirst id (fieldsOfItems fields) field) ∧
        (findField? fields id = none ↔ ∀ f ∈ fieldsOfItems fields, f.id? ≠ some id)) ∧
      ∀ screen : Element,
        ((findField? screen.allFields id).isSome ↔
          (∃ f ∈ fieldsOfItems screen.screenFields, f.id? = some id) ∨
            ∃ step ∈ screen.wizardSteps,
              ∃ f ∈ fieldsOfItems (step.itemsOf "fields"), f.id? = some id) ∧
          findField? screen.allFields id = (findField? screen.screenFields id).or
            (screen.wizardSteps.findSome? fun step => findField? (step.itemsOf "fields") id) := by
  refine ⟨fun fields => ⟨fun field => findField?_eq_some_iff, findField?_eq_none_iff⟩, ?_⟩
  intro screen
  constructor
  · rw [allFields_eq, findField?_append, Option.isSome_or, Bool.or_eq_true, findField?_flatMap,
      List.findSome?_isSome_iff, isSome_findField?_iff]
    simp only [isSome_findField?_iff]
  · rw [allFields_eq, findField?_append, findField?_flatMap]

end Element

end Wireframe
