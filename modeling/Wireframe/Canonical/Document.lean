import Wireframe.Canonical.Restructure
import Wireframe.Element.Reading

/-!
# Documents

A finished document holds its screens, components and rules by name.  Its fields
are found by walking lists of fields in written order, where a repeater comes
before the fields that it repeats.  A search for a field keeps those that it has
yet to look at in a stack.
-/

namespace Wireframe

structure Document where
  root : Element
  deriving Repr

namespace Document

def build (tree : Value) : Except (List Fault) Document :=
  (tree.readAs (.record .document)).map Document.mk

/-- The plain tree of a document.  Attributes that are null may be left out. -/
def toValue (nulls : Bool) (d : Document) : Value := d.root.toValue nulls

/-- Whether two documents are the same, where `shared` tells if undefined numbers may be. -/
def same (shared : Bool) (d e : Document) : Bool := d.root.same shared e.root

/-- The entries of a collection, none if the document does not have it. -/
def collection (d : Document) (kind : CollectionKind) : List (String × Element) :=
  ((d.root.attribute? kind.name).map Element.entries).getD []

def find? (d : Document) (kind : CollectionKind) (name : String) : Option Element :=
  ((d.collection kind).find? fun e => e.1 == name).map Prod.snd

/-- The names of the screens in written order. -/
def screenNames (d : Document) : List String := (d.collection .screens).map Prod.fst

end Document

namespace Element

/-- The items of a list attribute, none if it is absent. -/
def itemsOf (name : String) (e : Element) : List Element :=
  ((e.attribute? name).map items).getD []

def screenFields (screen : Element) : List Element := screen.itemsOf "fields"

def allFields (screen : Element) : List Element :=
  screen.screenFields ++
    match screen.attribute? "wizard" with
    | some wizard => (wizard.itemsOf "steps").flatMap (itemsOf "fields")
    | none => []

mutual

/-- A field and the fields that it repeats at any depth, each before those below it. -/
def fieldsBelow : Element → List Element
  | record type attributes extras =>
    record type attributes extras ::
      (if type = .field .repeater then fieldsOfAttributes attributes else [])
  | e => [e]

def fieldsOfAttributes : List (String × Element) → List Element
  | [] => []
  | (name, e) :: rest =>
    if name == "item_fields" then
      match e with
      | list items => fieldsOfItems items
      | _ => []
    else fieldsOfAttributes rest

def fieldsOfItems : List Element → List Element
  | [] => []
  | e :: es => fieldsBelow e ++ fieldsOfItems es

end

def id? (field : Element) : Option String := (field.attribute? "id").bind text?

/-! ## Searching fields -/

/-- The fields that a field repeats.  Only a repeater repeats any. -/
def repeated (field : Element) : List Element :=
  if field.type? = some (.field .repeater) then field.itemsOf "item_fields" else []

theorem fieldsOfAttributes_eq
    (attributes : List (String × Element)) :
    fieldsOfAttributes attributes =
      match (attributes.find? fun a => a.1 == "item_fields").map Prod.snd with
      | some (.list items) => fieldsOfItems items
      | _ => [] := by
  induction attributes with
  | nil => rfl
  | cons a rest ih =>
      obtain ⟨name, e⟩ := a
      by_cases hname : name = "item_fields"
      · subst hname
        cases e <;> simp [fieldsOfAttributes]
      · have hne : (name == "item_fields") = false := by simpa using hname
        rw [List.find?_cons, hne, ← ih]
        cases e <;> simp only [fieldsOfAttributes, hne, Bool.false_eq_true, if_false]

/-- A walk meets a field and then what the field repeats. -/
theorem fieldsBelow_eq (field : Element) :
    fieldsBelow field = field :: fieldsOfItems field.repeated := by
  cases field with
  | record type attributes extras =>
      by_cases htype : type = .field .repeater
      · simp only [fieldsBelow, htype, if_true, fieldsOfAttributes_eq, repeated, type?, itemsOf,
          attribute?]
        cases (attributes.find? fun a => a.1 == "item_fields").map Prod.snd with
        | none => rfl
        | some e => cases e <;> rfl
      · simp [fieldsBelow, repeated, type?, htype, fieldsOfItems]
  | _ => simp [fieldsBelow, repeated, type?, fieldsOfItems]

theorem fieldsOfItems_append (fields more : List Element) :
    fieldsOfItems (fields ++ more) = fieldsOfItems fields ++ fieldsOfItems more := by
  induction fields with
  | nil => rfl
  | cons field rest ih => rw [List.cons_append, fieldsOfItems, ih, fieldsOfItems, List.append_assoc]

theorem length_fieldsOfItems_reverse (fields : List Element) :
    (fieldsOfItems fields.reverse).length = (fieldsOfItems fields).length := by
  induction fields with
  | nil => rfl
  | cons field rest ih =>
      rw [List.reverse_cons, fieldsOfItems_append, List.length_append, ih, Nat.add_comm,
        ← List.length_append]
      simp [fieldsOfItems]

/-- The number of fields that are in a stack or repeated by one that is. -/
def stackSize (stack : Array Element) : Nat := (fieldsOfItems stack.toList).length

/-- What a field repeats is less than the field with it. -/
theorem stackSize_expand_lt
    {stack : Array Element} {field : Element} (hback : stack.back? = some field) :
    stackSize (stack.pop ++ field.repeated.reverse) < stackSize stack := by
  obtain ⟨below, rfl⟩ := Array.back?_eq_some_iff.mp hback
  have hsize : stackSize (below.push field) =
      stackSize below + (1 + (fieldsOfItems field.repeated).length) := by
    simp [stackSize, fieldsOfItems_append, fieldsOfItems, fieldsBelow_eq, Nat.add_comm]
  have hexpand : stackSize ((below.push field).pop ++ field.repeated.reverse) =
      stackSize below + (fieldsOfItems field.repeated).length := by
    simp [stackSize, fieldsOfItems_append, length_fieldsOfItems_reverse]
  omega

/-- Takes fields from the end of a stack until one has the identifier.  In place of any other
field, what it repeats is put there, the last of it first. -/
def searchStack (id : String) (stack : Array Element) : Option Element :=
  match hback : stack.back? with
  | none => none
  | some field =>
    have := stackSize_expand_lt hback
    if field.id? == some id then some field
    else searchStack id (stack.pop ++ field.repeated.reverse)
termination_by stackSize stack

/-- The first field with an identifier among fields and what they repeat. -/
def findField? (fields : List Element) (id : String) : Option Element :=
  searchStack id fields.reverse.toArray

/-- The type that a field shows, which is that of its tag if the tag is known. -/
def shownType (field : Element) : FieldType :=
  match field.attribute? "type" with
  | some (.text tag) => FieldType.ofTag tag
  | _ => .unrecognized

end Element

end Wireframe
