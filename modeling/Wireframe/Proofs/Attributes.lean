import Mathlib.Tactic
import Wireframe.Element.Basic
import Wireframe.Element.Coercion

/-!
# Regular attributes

What the tables of attributes have in common, whatever the record.  Names are different.
Of the spellings of an attribute its name is the only one that is the name of any attribute.
The alternatives of a shape keep values of different forms, so at most one of them takes a
value as it is.  A default is what the shape admits, and it is null where null is admitted.
-/

namespace Wireframe

/-- The forms of values that a record can be made of. -/
inductive Form
  | text
  | flag
  | integer
  | real
  | list
  | map
  deriving DecidableEq, Repr

/-- The form of the values that a kind takes as they are, if it is one form only. -/
def Kind.form? : Kind → Option Form
  | .text | .word _ => some .text
  | .flag => some .flag
  | .integer _ => some .integer
  | .number => some .real
  | .listOf _ | .optionList => some .list
  | .tableOf _ | .row | .record _ | .action | .field => some .map
  | .anything | .oneOf _ | .commaList => none

/-- Whether a kind stands for choices that are told apart from larger integers. -/
def Kind.hasSmallChoices : Kind → Bool
  | .oneOf choices => choices.all Coercion.isSmall
  | .listOf k | .tableOf k => k.hasSmallChoices
  | _ => true

namespace Shape

/-- Whether there is one alternative, or each takes values of a form of its own. -/
def isSeparated (s : Shape) : Bool :=
  s.kinds.length == 1 ||
    (s.kinds.all (fun k => k.form?.isSome) && decide ((s.kinds.map Kind.form?).Nodup))

/-- Whether text is tried before integers are, so that an integer is written. -/
def writesIntegers (s : Shape) : Bool :=
  (s.kinds.takeWhile fun k => k.form? != some .integer).contains .text

/-- Integers are written where text is tried before the only alternative for integers. -/
theorem writesIntegers_of_text_mem
    {s : Shape} (hnodup : (s.kinds.map Kind.form?).Nodup) {before after : List Kind} {k : Kind}
    (hkinds : s.kinds = before ++ k :: after) (hk : k.form? = some .integer)
    (htext : .text ∈ before) :
    s.writesIntegers = true := by
  have hbefore : ∀ j ∈ before, (j.form? != some .integer) = true := by
    intro j hj
    rw [hkinds, List.map_append, List.map_cons] at hnodup
    have hother : j.form? ∉ k.form? :: after.map Kind.form? :=
      fun hsame => List.disjoint_of_nodup_append hnodup (List.mem_map_of_mem hj) hsame
    rw [hk, List.mem_cons, not_or] at hother
    simpa using hother.1
  rw [writesIntegers, hkinds, List.takeWhile_append_of_pos hbefore]
  simp [htext]

/-- What is tried before an integer where integers are written. -/
theorem text_mem_of_writesIntegers
    {s : Shape} (hwrites : s.writesIntegers = true) {before after : List Kind} {k : Kind}
    (hkinds : s.kinds = before ++ k :: after) (hk : k.form? = some .integer) :
    .text ∈ before := by
  have htext := List.contains_iff_mem.mp hwrites
  rw [hkinds, List.takeWhile_append] at htext
  split_ifs at htext with hall
  · rw [List.takeWhile_cons_of_neg (by simp [hk]), List.append_nil] at htext
    exact htext
  · exact (List.takeWhile_sublist _).mem htext

/-- Whether a default that is no record is admitted. -/
def admitsSimple (s : Shape) : Default → Bool
  | .null => s.nullable || s.kinds == [.anything]
  | .text x =>
    s.kinds.any fun k =>
      match k with
      | .text => true
      | .word choices => choices.contains x
      | _ => false
  | .integer i =>
    s.kinds.any fun k =>
      match k with
      | .integer none => (Scalar.integer i).hasText
      | .oneOf choices => choices.contains i
      | _ => false
  | .noItems =>
    s.kinds.any fun k =>
      match k with
      | .listOf _ | .optionList | .commaList => true
      | _ => false
  | .required | .blank _ => false

/-- Whether null is admitted, on its own or like any other value. -/
def admitsNull (s : Shape) : Bool := s.nullable || s.kinds.contains .anything

/-- Whether what stands in for an attribute that is not written is admitted. -/
def admitsDefault (s : Shape) : Default → Bool
  | .required => true
  | .blank t =>
    s.kinds.contains (.record t) && decide (t ≠ .field .unrecognized) &&
      t.attributes.all fun a => a.shape.admitsSimple a.default
  | d => s.admitsSimple d

end Shape

namespace Attribute

def isRegular (names : List String) (a : Attribute) : Bool :=
  a.spellings.filter names.contains == [a.name] && a.shape.isSeparated &&
    a.shape.kinds.all Kind.hasSmallChoices && a.shape.admitsDefault a.default &&
    (!a.shape.admitsNull || decide (a.default = .null)) && !a.shape.kinds.isEmpty

end Attribute

namespace RecordType

def names (t : RecordType) : List String := t.attributes.map Attribute.name

def isRegular (t : RecordType) : Bool :=
  decide t.names.Nodup && t.attributes.all (Attribute.isRegular t.names)

theorem isRegular_eq_true (t : RecordType) : t.isRegular = true := by
  cases t with
  | action t => cases t <;> decide +kernel
  | field t => cases t <;> decide +kernel
  | _ => decide +kernel

theorem nodup_names (t : RecordType) : t.names.Nodup := by
  have hregular := t.isRegular_eq_true
  simp only [isRegular, Bool.and_eq_true, decide_eq_true_eq] at hregular
  exact hregular.1

section

variable {t : RecordType} {a : Attribute}

theorem isRegular_of_mem (ha : a ∈ t.attributes) : a.isRegular t.names = true := by
  have hregular := t.isRegular_eq_true
  simp only [isRegular, Bool.and_eq_true, List.all_eq_true] at hregular
  exact hregular.2 a ha

theorem name_mem (ha : a ∈ t.attributes) : a.name ∈ t.names :=
  List.mem_map_of_mem ha

/-- The name of an attribute is the only one of its spellings that names an attribute. -/
theorem filter_spellings (ha : a ∈ t.attributes) :
    a.spellings.filter t.names.contains = [a.name] := by
  have hregular := isRegular_of_mem ha
  simp only [Attribute.isRegular, Bool.and_eq_true, beq_iff_eq] at hregular
  exact hregular.1.1.1.1.1

theorem find?_spellings (ha : a ∈ t.attributes) :
    a.spellings.find? t.names.contains = some a.name := by
  rw [← List.head?_filter, filter_spellings ha]
  rfl

theorem eq_name_of_mem_names
    (ha : a ∈ t.attributes) {s : String} (hs : s ∈ a.spellings) (hname : s ∈ t.names) :
    s = a.name := by
  have hmem : s ∈ a.spellings.filter t.names.contains :=
    List.mem_filter.mpr ⟨hs, List.contains_iff_mem.mpr hname⟩
  rw [filter_spellings ha] at hmem
  exact List.mem_singleton.mp hmem

theorem shape_isSeparated (ha : a ∈ t.attributes) : a.shape.isSeparated = true := by
  have hregular := isRegular_of_mem ha
  simp only [Attribute.isRegular, Bool.and_eq_true] at hregular
  exact hregular.1.1.1.1.2

theorem hasSmallChoices_of_mem
    (ha : a ∈ t.attributes) {k : Kind} (hk : k ∈ a.shape.kinds) :
    k.hasSmallChoices = true := by
  have hregular := isRegular_of_mem ha
  simp only [Attribute.isRegular, Bool.and_eq_true, List.all_eq_true] at hregular
  exact hregular.1.1.1.2 k hk

theorem admitsDefault_of_mem (ha : a ∈ t.attributes) :
    a.shape.admitsDefault a.default = true := by
  have hregular := isRegular_of_mem ha
  simp only [Attribute.isRegular, Bool.and_eq_true] at hregular
  exact hregular.1.1.2

/-- What admits null is null where it is not written. -/
theorem default_of_admitsNull
    (ha : a ∈ t.attributes) (hnull : a.shape.admitsNull = true) :
    a.default = .null := by
  have hregular := isRegular_of_mem ha
  simp only [Attribute.isRegular, Bool.and_eq_true] at hregular
  simpa [hnull] using hregular.1.2

theorem kinds_ne_nil (ha : a ∈ t.attributes) : a.shape.kinds ≠ [] := by
  have hregular := isRegular_of_mem ha
  simp only [Attribute.isRegular, Bool.and_eq_true] at hregular
  simpa using hregular.2

end

/-- The attribute of that name is never null. -/
def Needs (t : RecordType) (name : String) : Prop :=
  ∃ a ∈ t.attributes, a.name = name ∧ a.shape.admitsNull = false

instance (t : RecordType) (name : String) : Decidable (t.Needs name) :=
  inferInstanceAs (Decidable (∃ a ∈ t.attributes, a.name = name ∧ a.shape.admitsNull = false))

theorem needs_id (f : FieldType) : (field f).Needs "id" :=
  ⟨_, List.mem_append_left _ (List.mem_append_left _ (.tail _ (.head _))), rfl, rfl⟩

theorem needs_label (f : FieldType) : (field f).Needs "label" :=
  ⟨_, List.mem_append_left _ (List.mem_append_left _ (.tail _ (.tail _ (.head _)))), rfl, rfl⟩

end RecordType

end Wireframe
