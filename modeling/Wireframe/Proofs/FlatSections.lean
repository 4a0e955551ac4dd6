import Mathlib.Data.List.Forall2
import Mathlib.Tactic
import Wireframe.Proofs.Restructuring
import Wireframe.Proofs.Shapes

/-!
# Screens with sections

The fields of a screen with sections are written twice in its canonical form, once in their
sections and once in one list.  Both are read alike, so a screen that has been read has the
fields of its sections and no others.  Whatever a walk meets under the fields of a section is
read item by item or not at all, so nothing has to be known of the tree.
-/

namespace Wireframe

namespace Canonical

theorem screen_eq_ok_iff
    {settings : Settings} {v w : Value} :
    screen settings v = .ok w ↔
      ∃ raw parts, v = .map raw ∧ content settings raw = .ok parts ∧
        w = object (screenAttributes raw parts) := by
  cases v with
  | map raw =>
      cases hparts : content settings raw with
      | error o => simp [screen, mapping, hparts, bind, Except.bind]
      | ok parts =>
          simp [screen, mapping, hparts, bind, Except.bind, screenAttributes, screenNames, eq_comm]
  | _ => simp [screen, mapping, bind, Except.bind]

theorem withSections_eq_ok
    {items : List Value} {parts : List (String × Value)} (hparts : withSections items = .ok parts) :
    ∃ kept own, items.mapM formSection = .ok kept ∧
      List.Forall₂ (fun a vs => sectionFields a = .ok vs) kept own ∧
      parts = [("sections", .list (kept.map object)), ("fields", .list own.flatten)] := by
  unfold withSections at hparts
  cases hkept : items.mapM formSection with
  | error o => simp [hkept, bind, Except.bind] at hparts
  | ok kept =>
      cases hown : kept.mapM sectionFields with
      | error o => simp [hkept, hown, bind, Except.bind] at hparts
      | ok own =>
          simp only [hkept, hown, bind, Except.bind, Except.ok.injEq] at hparts
          exact ⟨kept, own, rfl, mapM_eq_ok_iff.mp hown, hparts.symm⟩

/-- Without a list of sections that is not empty there are no sections in canonical form. -/
theorem content_cases
    {settings : Settings} {raw : Entries} {parts : List (String × Value)}
    (hparts : content settings raw = .ok parts) :
    (∃ first rest, (raw.getD "sections").items? = some (first :: rest) ∧
        withSections (first :: rest) = .ok parts) ∨
      Entries.get? "sections" (Entries.named parts) = none := by
  unfold content at hparts
  split at hparts
  next first rest hsections => exact .inl ⟨first, rest, hsections, hparts⟩
  next =>
    right
    split_ifs at hparts
    · cases hfields : elements (raw.getD "fields") with
      | error o => simp [hfields, bind, Except.bind] at hparts
      | ok items =>
          simp only [hfields, bind, Except.bind, Except.ok.injEq] at hparts
          subst hparts
          rfl
    · split at hparts
      next names _ =>
        cases htable : table settings names (raw.getD "filters") (raw.getD "name") with
        | error cause => simp [htable, bind, Except.bind, Except.mapError] at hparts
        | ok t =>
            simp only [htable, bind, Except.bind, Except.mapError, Except.ok.injEq] at hparts
            subst hparts
            rfl
      next => split at hparts <;> cases hparts <;> rfl

end Canonical

namespace Element

open Reading

/-- The fields of a screen with sections are the fields of its sections. -/
def HasFlatSections (screen : Element) : Prop :=
  ∀ items, screen.attribute? "sections" = some (.list items) →
    items ≠ [] ∧
      screen.attribute? "fields" = some (.list (items.flatMap (itemsOf "input_fields")))

theorem forall₂_sectionFields
    {attributes : List (String × Value)} {own : List Value}
    (hown : Canonical.sectionFields attributes = .ok own) {e : Element}
    (hread : ReadsAs (.record .formSection) (Canonical.object attributes) e) :
    List.Forall₂ (ReadsAs .field) own (e.itemsOf "input_fields") := by
  obtain ⟨exact, hread⟩ := hread
  obtain ⟨f, hf, hreads⟩ := exists_attribute? (by simp) hread
    (a := .may "input_fields" (.listOf .field)) (by decide)
  have hattribute : e.attribute? "input_fields" = some f := hf
  rw [reads_iff_of_single rfl] at hreads
  simp only [Attribute.may, Attribute.of, Entries.get?_named] at hreads
  unfold Canonical.sectionFields at hown
  rw [itemsOf, hattribute]
  cases hfind : attributes.find? fun a => a.1 == "input_fields" with
  | none =>
      rw [hfind] at hown hreads
      cases hown
      cases hreads
      exact .nil
  | some a =>
      rw [hfind] at hown hreads
      obtain ⟨exact', hvalue⟩ := hreads
      obtain ⟨es, rfl, hes⟩ := forall₂_of_elements rfl hown hvalue
      exact hes

theorem forall₂_flatten_own
    {kept : List (List (String × Value))} {own : List (List Value)}
    (hown : List.Forall₂ (fun a vs => Canonical.sectionFields a = .ok vs) kept own)
    {items : List Element}
    (hread : List.Forall₂ (fun a e => ReadsAs (.record .formSection) (Canonical.object a) e)
      kept items) :
    List.Forall₂ (ReadsAs .field) own.flatten (items.flatMap (itemsOf "input_fields")) := by
  induction hown generalizing items with
  | nil =>
      cases hread
      exact .nil
  | cons hhead _ ih =>
      cases hread with
      | cons hfirst hrest =>
          rw [List.flatten_cons, List.flatMap_cons]
          exact List.rel_append (forall₂_sectionFields hhead hfirst) (ih hrest)

/-- The screens that are read from canonical forms have no fields beside their sections. -/
theorem hasFlatSections_of_screen
    {settings : Settings} {v w : Value} (hscreen : Canonical.screen settings v = .ok w)
    {e : Element} (hread : ReadsAs (.record .screen) w e) :
    e.HasFlatSections := by
  obtain ⟨raw, parts, rfl, hparts, rfl⟩ := Canonical.screen_eq_ok_iff.mp hscreen
  obtain ⟨exact, hread⟩ := hread
  obtain ⟨s, hs, hsections⟩ := exists_attribute? (by simp) hread
    (a := .may "sections" (.listOf (.record .formSection))) (by decide)
  obtain ⟨f, hf, hfields⟩ := exists_attribute? (by simp) hread
    (a := .may "fields" (.listOf .field)) (by decide)
  rw [reads_iff_of_single rfl] at hsections hfields
  have hgetSections := Canonical.get?_screenAttributes_content raw parts
    (.inl (Eq.refl "sections"))
  have hgetFields := Canonical.get?_screenAttributes_content raw parts
    (.inr (Eq.refl "fields"))
  intro items hitems
  have hlist : s = .list items := by
    have hboth : some s = some (.list items) := hs.symm.trans hitems
    simpa using hboth
  subst hlist
  simp only [Attribute.may, Attribute.of] at hsections hfields
  rw [hgetSections] at hsections
  rw [hgetFields] at hfields
  rcases Canonical.content_cases hparts with ⟨first, rest, -, hwith⟩ | hnone
  · obtain ⟨kept, own, hkept, hown, rfl⟩ := Canonical.withSections_eq_ok hwith
    have hget (x y : Value) : Entries.get? "sections"
        (Entries.named [("sections", x), ("fields", y)]) = some x := rfl
    have hgetFields (x y : Value) : Entries.get? "fields"
        (Entries.named [("sections", x), ("fields", y)]) = some y := rfl
    rw [hget] at hsections
    rw [hgetFields] at hfields
    obtain ⟨exact', hsections⟩ := hsections
    obtain ⟨exact'', hfields⟩ := hfields
    obtain ⟨-, es, heq, hes⟩ := (ofValue_list_eq_ok_iff rfl).mp hsections
    obtain ⟨-, fs, rfl, hfs⟩ := (ofValue_list_eq_ok_iff rfl).mp hfields
    cases heq
    rw [List.forall₂_map_left_iff] at hes
    have hflat := forall₂_flatten_own hown hes
    rw [(readsAs_rightUnique .field).forall₂ hfs hflat] at hf
    refine ⟨?_, hf⟩
    rintro rfl
    have hlength := (mapM_eq_ok_iff.mp hkept).length_eq.trans hes.length_eq
    cases hlength
  · rw [hnone] at hsections
    cases hsections

end Element

end Wireframe
