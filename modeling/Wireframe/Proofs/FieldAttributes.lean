import Mathlib.Tactic
import Wireframe.Proofs.PartFaults

/-!
# Attributes of fields

Each attribute of a field is read on its own.  If what an attribute is written as is of its shape,
the field has what is read from it, and where another attribute is refused, nothing is told below
a spelling of this one.
-/

namespace Wireframe

/-- The mapping is read as a field that has this element as an attribute.  If it is refused, the
attribute is not what is at fault. -/
def Entries.Yields (entries : Entries) (a : Attribute) (e : Element) : Prop :=
  match (Value.map entries).readAs .field with
  | .ok field => field.attribute? a.name = some e
  | .error faults =>
    ∀ f ∈ faults, ∀ tag, ∀ s ∈ a.spellings, ∀ below, f.location ≠ .name tag :: .name s :: below

namespace Reading

/-- An attribute that is written as something of its shape is not what is at fault. -/
theorem yields_of_written
    {f : FieldType} (hf : f ≠ .unrecognized) {a : Attribute}
    (ha : a ∈ (RecordType.field f).attributes) {entries : Entries}
    (htype : entries.getD "type" = .text f.tag) {s : String} {o : Offer}
    (hwritten : written? a (expand (.field f) entries.offers) = some (s, o)) {r : Reading}
    (hread : o.read a.shape = .ok r) :
    entries.Yields a r.element := by
  have hfield : ofValue (.map entries) (.one .field) =
      under (.name f.tag) (readRecord (.field f) entries.offers) := by
    have hofTag : fieldType (entries.getD "type") = f := by
      rw [htype]
      exact FieldType.ofTag_tag f
    rw [ofValue_field entries rfl, hofTag]
  have hattribute : readAttribute (expand (.field f) entries.offers) a =
      .ok (a.name, r.element) := by
    rw [readAttribute_eq_ok_iff, hwritten]
    exact ⟨rfl, r.exact, hread⟩
  unfold Entries.Yields Value.readAs
  rw [hfield]
  cases hrecord : readRecord (.field f) entries.offers with
  | ok record =>
      obtain ⟨attributes, extras, hattributes, -, rfl⟩ := readRecord_eq_ok_iff.mp hrecord
      obtain ⟨x, hmem, hx⟩ := exists_of_mem_left hattributes ha
      have hnames : attributes.map Prod.fst = (RecordType.field f).names :=
        map_eq_map_of_forall₂ hattributes fun _ _ h => (readAttribute_eq_ok_iff.mp h).1
      cases hattribute.symm.trans hx
      exact Element.attribute?_of_mem (.field f) extras
        (hnames ▸ (RecordType.field f).nodup_names) (List.of_mem_zip hmem).2
  | error faults =>
      intro g hg tag spelling hspelling below hlocation
      obtain ⟨h, hh, rfl⟩ := List.mem_map.mp hg
      have hbelow : h = ⟨.name spelling :: below, h.cause⟩ := by
        rw [← (List.cons.inj hlocation).2]
      have hfault : HasFault (readRecord (.field f) entries.offers)
          ⟨.name spelling :: below, h.cause⟩ := hbelow ▸ ⟨faults, hrecord, hh⟩
      rw [hasFault_spelling_iff ha (by simpa using hf) hspelling, hattribute] at hfault
      exact not_hasFault_ok _ hfault

end Reading

end Wireframe
