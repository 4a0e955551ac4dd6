import Mathlib.Tactic
import Wireframe.Canonical.Restructure
import Wireframe.Proofs.Trees
import Wireframe.Proofs.WrittenValues

/-!
# Names that can be written

A table is made from the texts of names, and a listed entry is keyed after the text of its name.
Both are there if and only if these names can be written, and a value that can be written holds no
other names.
-/

namespace Wireframe

namespace Canonical

/-- The text that a name stands for, if it can be written. -/
def nameOf (name : Value) : String := if name.isPresent then name.render else ""

/-- The names that a table is made from can be written. -/
structure HaveTexts (columns : List Value) (filterNames screenName : Value) : Prop where
  name : screenName.hasText = true
  columns : ∀ v ∈ columns, v.hasText = true
  filters : ∀ v ∈ filterNames.items?.getD [], v.hasText = true

theorem nameText_eq_ok_iff
    {name : Value} {s : String} :
    nameText name = .ok s ↔ name.hasText = true ∧ s = nameOf name := by
  unfold nameText nameOf
  split_ifs with hpresent
  · exact Value.write_eq_ok_iff
  · rw [Value.eq_null_of_not_isPresent hpresent]
    simp [Scalar.hasText, eq_comm]

theorem mapM_write_eq_ok_iff
    {names : List Value} {labels : List String} :
    names.mapM Value.write = .ok labels ↔
      (∀ v ∈ names, v.hasText = true) ∧ labels = names.map Value.render := by
  rw [mapM_eq_ok_iff]
  simp only [Value.write_eq_ok_iff]
  induction names generalizing labels with
  | nil => simp
  | cons v vs ih => cases labels <;> simp [ih, and_assoc, and_left_comm]

variable {settings : Settings} {columns : List Value} {filterNames screenName : Value}

/-- A table is made if its names can be written, and it is made from the texts of these names. -/
theorem table_eq_ok_iff
    {t : Value} :
    table settings columns filterNames screenName = .ok t ↔
      HaveTexts columns filterNames screenName ∧
        t = tableOf settings (columns.map Value.render)
          ((filterNames.items?.getD []).map Value.render) (nameOf screenName) := by
  constructor
  · intro hmade
    cases hname : nameText screenName with
    | error cause => simp [table, hname, bind, Except.bind] at hmade
    | ok name =>
        cases hlabels : columns.mapM Value.write with
        | error cause => simp [table, hname, hlabels, bind, Except.bind] at hmade
        | ok labels =>
            cases hfilters : (filterNames.items?.getD []).mapM Value.write with
            | error cause => simp [table, hname, hlabels, hfilters, bind, Except.bind] at hmade
            | ok filterLabels =>
                simp only [table, hname, hlabels, hfilters, bind, Except.bind,
                  Except.ok.injEq] at hmade
                obtain ⟨hnamed, rfl⟩ := nameText_eq_ok_iff.mp hname
                obtain ⟨hlabelled, rfl⟩ := mapM_write_eq_ok_iff.mp hlabels
                obtain ⟨hfiltered, rfl⟩ := mapM_write_eq_ok_iff.mp hfilters
                exact ⟨⟨hnamed, hlabelled, hfiltered⟩, hmade.symm⟩
  · rintro ⟨htexts, rfl⟩
    rw [table, nameText_eq_ok_iff.mpr ⟨htexts.name, rfl⟩,
      mapM_write_eq_ok_iff.mpr ⟨htexts.columns, rfl⟩,
      mapM_write_eq_ok_iff.mpr ⟨htexts.filters, rfl⟩]
    rfl

theorem table_eq_error_iff
    {cause : NoText} :
    table settings columns filterNames screenName = .error cause ↔
      ¬ HaveTexts columns filterNames screenName := by
  cases hmade : table settings columns filterNames screenName with
  | ok t => simp [(table_eq_ok_iff.mp hmade).1]
  | error other =>
      cases cause
      cases other
      refine iff_of_true rfl fun htexts => ?_
      cases hmade.symm.trans (table_eq_ok_iff.mpr ⟨htexts, rfl⟩)

/-- The names that a screen has for a table can be written if the screen can be. -/
theorem haveTexts_of_hasText
    {raw : Entries} (htext : (Value.map raw).hasText = true) {names : List Value}
    (hnames : (raw.getD "display_fields").items? = some names) :
    HaveTexts names (raw.getD "filters") (raw.getD "name") where
  name := Value.hasText_getD htext "name"
  columns := Value.hasText_items (Value.hasText_getD htext _) hnames
  filters := by
    cases hitems : (raw.getD "filters").items? with
    | none => simp
    | some items => exact Value.hasText_items (Value.hasText_getD htext _) hitems

/-- The name of a listed entry can be written. -/
def HasName (kind : CollectionKind) (entry : Entries) : Prop :=
  (entry.getD kind.nameKey).hasText = true

/-- The key that a listed entry asks for if its name can be written. -/
def askedKey (kind : CollectionKind) (entry : Entries) (place : Nat) : String :=
  let slug := Slug.ofName (nameOf (entry.getD kind.nameKey))
  if slug.isEmpty then numbered (fallbackStem kind) place else slug

/-- A listed entry is keyed after its name if the name can be written. -/
theorem wantedKey_eq_ok_iff
    {kind : CollectionKind} {entry : Entries} {place : Nat} {s : String} :
    wantedKey kind entry place = .ok s ↔ HasName kind entry ∧ s = askedKey kind entry place := by
  cases hname : nameText (entry.getD kind.nameKey) with
  | error cause =>
      have hnone : ¬ HasName kind entry := fun htext => by
        cases hname.symm.trans (nameText_eq_ok_iff.mpr ⟨htext, rfl⟩)
      rw [wantedKey, hname]
      exact iff_of_false nofun fun hwanted => hnone hwanted.1
  | ok name =>
      obtain ⟨htext, rfl⟩ := nameText_eq_ok_iff.mp hname
      have hnamed : HasName kind entry := htext
      simp only [wantedKey, hname, bind, Except.bind, Except.ok.injEq, hnamed, true_and]
      exact eq_comm

end Canonical

end Wireframe
