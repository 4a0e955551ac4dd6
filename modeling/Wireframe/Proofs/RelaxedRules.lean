import Mathlib.Data.List.Flatten
import Mathlib.Tactic
import Wireframe.Grammar.Rules

/-!
# Relaxed rules within strict rules

The two rules for screens are written apart and word their findings differently.  What the
relaxed rule reports, the strict rule reports too: findings of the same kinds at the same
locations, in the same order and as often.  The argument goes container by container, since
a sequence that both rules look into is walked by both in the same way.
-/

namespace Wireframe

/-- What a finding is and where, without its wording. -/
def Finding.site (f : Finding) : DiagnosticKind × Location := (f.kind, f.location)

namespace Rules

/-- The findings of one list are among those of another, up to their wording. -/
def Within (fs gs : List Finding) : Prop :=
  (fs.map Finding.site).Sublist (gs.map Finding.site)

section Within

variable {fs fs' gs gs' : List Finding} {rule other : Rule}

theorem Within.refl (fs : List Finding) : Within fs fs := List.Sublist.refl _

theorem nil_within (gs : List Finding) : Within [] gs := List.nil_sublist _

theorem Within.append (hfs : Within fs gs) (hfs' : Within fs' gs') :
    Within (fs ++ fs') (gs ++ gs') := by
  unfold Within
  rw [List.map_append, List.map_append]
  exact List.Sublist.append hfs hfs'

/-- The other list may have findings in front of what is found again. -/
theorem Within.append_left (gs : List Finding) (hfs : Within fs gs') :
    Within fs (gs ++ gs') :=
  (nil_within gs).append hfs

theorem report_within {p q : Problem} (hkind : p.kind = q.kind) (location : Location) :
    Within (report p location) (report q location) := by
  have hsite : Finding.site ⟨p, location⟩ = Finding.site ⟨q, location⟩ := by
    simp only [Finding.site, Finding.kind, hkind]
  simp only [Within, report, List.map_cons, List.map_nil, hsite, List.Sublist.refl]

variable (hrule : ∀ v location, Within (rule v location) (other v location))

include hrule

theorem each_within (items : List Value) (location : Location) :
    Within (each rule items location) (each other items location) := by
  unfold Within each
  rw [List.map_flatMap, List.map_flatMap]
  apply List.Sublist.flatMap_right
  intro item _
  exact hrule item.1 _

theorem sequence_within (subject subject' : String) (v : Value) (location : Location) :
    Within (sequence subject rule v location) (sequence subject' other v location) := by
  unfold sequence
  cases v.items? with
  | none => exact report_within rfl location
  | some items => exact each_within hrule items location

theorem optional_within
    (key subject subject' : String) (entries : Entries) (location : Location) :
    Within (optional key subject rule entries location)
      (optional key subject' other entries location) := by
  unfold optional
  by_cases hpresent : (entries.getD key).isPresent = true
  · simp only [hpresent, if_true]
    exact sequence_within hrule subject subject' _ _
  · simp only [hpresent]
    exact nil_within _

end Within

theorem onMap_within
    {subject : String} {inner outer : Entries → Location → List Finding}
    (hinner : ∀ entries location, Within (inner entries location) (outer entries location))
    (v : Value) (location : Location) :
    Within (onMap subject inner v location) (onMap subject outer v location) := by
  cases v with
  | map entries => exact hinner entries location
  | _ => exact Within.refl _

/-! ## The parts of a screen -/

theorem listedField_within (settings : Settings) (v : Value) (location : Location) :
    Within (listedField v location) (field settings v location) := by
  cases v with
  | map entries => exact nil_within _
  | _ =>
      simp only [field, fieldsBelow, List.flatMap_cons, List.flatMap_nil, List.append_nil]
      exact Within.refl _

theorem listedSection_within (settings : Settings) (v : Value) (location : Location) :
    Within (listedSection v location) (formSection settings v location) := by
  apply onMap_within
  intro entries location
  apply Within.append_left
  exact optional_within (listedField_within settings) _ _ _ entries location

/-- A label is reported by the strict rule alone. -/
theorem listedAction_within (v : Value) (location : Location) :
    Within (listedAction v location) (action v location) := by
  unfold listedAction
  split_ifs
  · exact nil_within _
  · exact Within.refl _

/-- A screen with neither a name nor a title lacks a title. -/
theorem screenName_within (entries : Entries) (location : Location) :
    Within
      (if (entries.getD "name").isPresent || (entries.getD "title").isPresent then []
        else report .noScreenName location)
      (require "Screen" ["title"] entries location) := by
  split_ifs with hnamed
  · exact nil_within _
  · have htitle : (entries.getD "title").isPresent = false := by simp_all
    simp only [require, List.flatMap_cons, List.flatMap_nil, List.append_nil, htitle,
      Bool.false_eq_true, if_false]
    exact report_within rfl location

/-- The relaxed rule for screens stays within the strict one: its findings are among those
of the strict rule, and it accepts every screen that the strict rule accepts. -/
theorem listedScreen_sublist_screen (settings : Settings) (v : Value) (location : Location) :
    ((listedScreen v location).map Finding.site).Sublist
        ((screen settings v location).map Finding.site) ∧
      (screen settings v location = [] → listedScreen v location = []) := by
  have hwithin : Within (listedScreen v location) (screen settings v location) := by
    apply onMap_within
    intro entries location
    have hfields (key subject subject' : String) :=
      optional_within (listedField_within settings) key subject subject' entries location
    have hnames (key subject subject' : String) :=
      optional_within (fun v location => Within.refl (columnName v location)) key subject
        subject' entries location
    have hsections (subject subject' : String) :=
      optional_within (listedSection_within settings) "sections" subject subject' entries location
    have hactions (subject subject' : String) :=
      optional_within listedAction_within "actions" subject subject' entries location
    -- Only the wizard has no counterpart.  It stands behind the title.
    have hhead : Within _
        (require "Screen" ["title"] entries location ++ optionalWizard settings entries location) :=
      (screenName_within entries location).append (nil_within _)
    rw [List.append_nil] at hhead
    exact hhead.append (hsections _ _) |>.append (hfields _ _ _) |>.append (hfields _ _ _)
      |>.append (hnames _ _ _) |>.append (hnames _ _ _) |>.append (hactions _ _)
  refine ⟨hwithin, ?_⟩
  intro haccepted
  unfold Within at hwithin
  rw [haccepted, List.map_nil, List.sublist_nil] at hwithin
  exact List.map_eq_nil_iff.mp hwithin

end Rules

end Wireframe
