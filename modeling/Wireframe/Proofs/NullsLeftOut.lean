import Mathlib.Tactic
import Wireframe.Proofs.RoundTrip

/-!
# Round trips without nulls

A plain tree without nulls makes its document again as far as nothing was null that only its
place in the tree could tell of.  Attributes that are null come back, since null is what they
are by default.  Extras that are null do not, and an extra may be taken for an attribute if it
is spelled like one that is null.
-/

namespace Wireframe

namespace Document

open Element Reading

/-- A document that was made from a raw tree without findings is made again, without renamings
and but for its null extras, from its plain tree without nulls, unless one of its extras is
spelled like an attribute that is null. -/
theorem round_trip_without_nulls
    {settings : Settings} {positions : Positions} {tree : Value} (hraw : tree.isRaw = true)
    (hcheck : tree.check settings positions = .ok [])
    {canonical : Value} {renamings : List Renaming}
    (hrestructure : Canonical.restructure settings tree = .ok (canonical, renamings))
    {d : Document} (hbuild : build canonical = .ok d)
    (hclear : d.root.everyRecord hasClearExtras = true) :
    ∃ again, Canonical.restructure settings (d.toValue false) = .ok (again, []) ∧
      build again = .ok ⟨d.root.kept false⟩ ∧
      (d.root.everyRecord hasFullExtras = true → build again = .ok d) := by
  have hroot := Value.root_eq_nil_of_check hcheck
  obtain ⟨document, rfl, -⟩ := Rules.root_eq_nil_iff.mp hroot
  obtain ⟨exact, hread⟩ := build_eq_ok_iff.mp hbuild
  have hfits := fits_of_ofValue (Canonical.isRaw_restructure hraw hroot hrestructure) hread
  have hflat := Canonical.hasFlatSections_of_build hrestructure hread
  have hall : IsClear false d.root := fun _ => hclear
  obtain ⟨again, hagain, hbuilt⟩ := Canonical.document_kept settings hfits hflat hall
  have hkept : build again = .ok ⟨d.root.kept false⟩ := build_eq_ok_iff.mpr ⟨true, hbuilt⟩
  refine ⟨again, hagain, hkept, fun hfull => ?_⟩
  rw [hkept, kept_eq_self fun _ => hfull]

/-- A document of one field, of a type that is not known and with other attributes. -/
def ofUnknownField (attributes : List (String × Value)) : Value :=
  Canonical.object [("view", Canonical.object [("home", Canonical.object [
    ("title", .text "Home"), ("fields", .list [
      Canonical.object ([("id", .text "a"), ("type", .text "gauge"), ("label", .text "A")] ++
        attributes)])])])]

/-- Nulls below an extra stay, and so does a class that is no extra. -/
theorem round_trip_without_nulls_gauge :
    ∃ canonical renamings d again, Canonical.restructure .default (ofUnknownField
        [("class", .text "wide"), ("range", Canonical.object [("least", .null)])]) =
          .ok (canonical, renamings) ∧
      build canonical = .ok d ∧
      Canonical.restructure .default (d.toValue false) = .ok (again, []) ∧
      build again = .ok d := by
  obtain ⟨again, hagain, -, hfull⟩ := @round_trip_without_nulls .default [] (ofUnknownField
    [("class", .text "wide"), ("range", Canonical.object [("least", .null)])]) rfl rfl _ _ rfl _ rfl
      rfl
  exact ⟨_, _, _, again, rfl, rfl, hagain, hfull rfl⟩

/-- A document is made from the tree, and another one from its plain tree without nulls. -/
def ChangesWithoutNulls (tree : Value) : Prop :=
  tree.isRaw = true ∧ tree.check .default [] = .ok [] ∧
    ∃ canonical d again e, Canonical.restructure .default tree = .ok (canonical, []) ∧
      build canonical = .ok d ∧
      Canonical.restructure .default (d.toValue false) = .ok (again, []) ∧
      build again = .ok e ∧ d.same true e = false

/-- An extra that is null is lost, and one that is spelled like an attribute that is null
becomes that attribute. -/
theorem exists_other_without_nulls :
    ChangesWithoutNulls (ofUnknownField [("note", .null)]) ∧
      ChangesWithoutNulls (ofUnknownField [("class_name", .null), ("class", .text "wide")]) := by
  constructor
  · exact ⟨rfl, rfl, _, _, _, _, rfl, rfl, rfl, rfl, rfl⟩
  · exact ⟨rfl, rfl, _, _, _, _, rfl, rfl, rfl, rfl, rfl⟩

end Document

end Wireframe
