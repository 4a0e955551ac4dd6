import Mathlib.Tactic
import Wireframe.Proofs.Ceilings
import Wireframe.Proofs.ComparedRules
import Wireframe.Verdict

/-!
# Looser settings

Settings are loosened by raising a ceiling or by making more types placeholders.  The rules ask
the settings about nothing but the type of a field, and a field of an exempt type is only spared
findings.  So every rule finds less under looser settings, in the same order, and a tree that is
within the ceilings stays within them.  What is accepted is accepted under looser settings too.
-/

namespace Wireframe

namespace Settings

/-- The other settings have no ceiling that is lower, and all the placeholder types. -/
structure IsLoosenedTo (s t : Settings) : Prop where
  maxDepth : s.maxDepth ≤ t.maxDepth
  maxNodes : s.maxNodes ≤ t.maxNodes
  placeholderTypes : s.placeholderTypes ⊆ t.placeholderTypes

variable {s t : Settings} (hloosened : s.IsLoosenedTo t)

include hloosened

theorem IsLoosenedTo.isPlaceholder {type : Value} (hplaceholder : s.isPlaceholder type = true) :
    t.isPlaceholder type = true := by
  unfold Settings.isPlaceholder at hplaceholder ⊢
  split at hplaceholder
  next tag =>
    rw [List.contains_iff_mem] at hplaceholder ⊢
    exact hloosened.placeholderTypes hplaceholder
  next => cases hplaceholder

theorem IsLoosenedTo.isDisplayOnly {type : Value} (hdisplay : s.isDisplayOnly type = true) :
    t.isDisplayOnly type = true := by
  unfold Settings.isDisplayOnly at hdisplay ⊢
  split at hdisplay
  next tag =>
    rw [Bool.or_eq_true] at hdisplay ⊢
    exact hdisplay.imp_right hloosened.isPlaceholder
  next => cases hdisplay

end Settings

namespace Rules

theorem sameParts_self (v : Value) : SameParts Eq v v := by
  cases v with
  | list items => exact .list (List.forall₂_same.mpr fun _ _ => rfl)
  | tuple items => exact .tuple (List.forall₂_same.mpr fun _ _ => rfl)
  | map entries => exact .map fun _ => rfl
  | _ => exact .leaf (by rintro (h | h) <;> cases h)

theorem isPartwise_sublist : IsPartwise List.Sublist := ⟨List.Sublist.refl, List.Sublist.append⟩

theorem exempted_sublist
    {p q : Bool} (hpq : p = true → q = true) (findings : List Finding) :
    (if q then [] else findings).Sublist (if p then [] else findings) := by
  by_cases hq : q = true
  · rw [if_pos hq]
    exact List.nil_sublist _
  · rw [if_neg hq, if_neg (mt hpq hq)]

/-- A run under looser settings beside one under the settings, on the same tree. -/
def loosened {s t : Settings} (hloosened : s.IsLoosenedTo t) : Comparison t s where
  Alike := Eq
  Compared := List.Sublist
  partwise := isPartwise_sublist
  parts := by
    rintro v _ rfl
    exact sameParts_self v
  displayOnly _ := exempted_sublist hloosened.isDisplayOnly
  placeholder _ := exempted_sublist hloosened.isPlaceholder
  reworded := by
    rintro v _ rfl problem _ _ location
    exact List.Sublist.refl _
  keyed := by
    intro es fs hsame rule other hrule kind
    cases hsame
    refine isPartwise_sublist.entries (List.forall₂_same.mpr fun x _ => ⟨rfl, ?_⟩) kind []
    exact hrule x.2 x.2 rfl

end Rules

namespace Value

variable {s t : Settings} {tree : Value}

theorem IsWithin.loosened (hwithin : tree.IsWithin s) (hloosened : s.IsLoosenedTo t) :
    tree.IsWithin t where
  size := hwithin.size.trans hloosened.maxNodes
  depth place hplace := (hwithin.depth place hplace).trans_le hloosened.maxDepth

/-- What is reported under looser settings is part of what was reported, in the same order. -/
theorem IsWithin.exists_check
    (hwithin : tree.IsWithin s) (hloosened : s.IsLoosenedTo t) {positions : Positions}
    {ds : List Diagnostic} (hcheck : tree.check s positions = .ok ds) :
    ∃ es, tree.check t positions = .ok es ∧ es.Sublist ds := by
  obtain ⟨fs, hfindings, htext, rfl⟩ := check_eq_ok_iff.mp hcheck
  obtain ⟨hlocatable, rfl⟩ := hwithin.findings_eq_ok_iff.mp hfindings
  have hsub := (Rules.loosened hloosened).compared_root (rfl : tree = tree)
  have hmore := (hwithin.loosened hloosened).findings_eq_ok_iff.mpr ⟨hlocatable, rfl⟩
  refine ⟨_, check_eq_ok_iff.mpr ⟨_, hmore, fun f hf => ?_, rfl⟩, hsub.map _⟩
  exact htext f (hsub.mem hf)

end Value

namespace Yaml.Reading

/-- What was read has no more values than the settings allow, with each reference to a value
counted, and is not nested deeper. -/
structure IsWithin (settings : Settings) (reading : Reading) : Prop where
  size : ¬ settings.maxNodes < reading.tree.count settings.maxNodes
  tree : reading.tree.toValue.IsWithin settings

variable {s t : Settings} {reading : Reading}

theorem IsWithin.check_eq (hwithin : reading.IsWithin s) :
    Verdict.check s reading = reading.tree.toValue.check s reading.positions :=
  if_neg hwithin.size

theorem isWithin_of_check_eq_nil (hnone : Verdict.check s reading = .ok []) :
    reading.IsWithin s := by
  unfold Verdict.check at hnone
  split_ifs at hnone with hlarge
  · cases hnone
  · exact ⟨hlarge, Value.isWithin_of_check_eq_nil hnone⟩

theorem IsWithin.loosened (hwithin : reading.IsWithin s) (hloosened : s.IsLoosenedTo t) :
    reading.IsWithin t where
  size hlarge := by
    obtain ⟨depth, hdepth⟩ := (lt_countNodes_iff _ _ _).mp hlarge
    have hmaxNodes := hloosened.maxNodes
    exact hwithin.size ((lt_countNodes_iff _ _ _).mpr ⟨depth, by omega⟩)
  tree := hwithin.tree.loosened hloosened

end Yaml.Reading

/-- Nothing that is accepted is rejected under looser settings.  A tree within the ceilings is
within those of looser settings, and what is reported there is part of what was reported, in the
same order.  That goes for what is read as well, which may share values. -/
theorem looser_settings_report_less
    {s t : Settings} (hloosened : s.IsLoosenedTo t) :
    (∀ (tree : Value) (positions : Positions),
      (tree.check s positions = .ok [] → tree.check t positions = .ok []) ∧
        (tree.IsWithin s →
          tree.IsWithin t ∧ ∀ ds, tree.check s positions = .ok ds →
            ∃ es, tree.check t positions = .ok es ∧ es.Sublist ds)) ∧
      ∀ reading : Yaml.Reading,
        (Verdict.check s reading = .ok [] → Verdict.check t reading = .ok []) ∧
          (reading.IsWithin s →
            reading.IsWithin t ∧ ∀ ds, Verdict.check s reading = .ok ds →
              ∃ es, Verdict.check t reading = .ok es ∧ es.Sublist ds) := by
  have htree (tree : Value) (positions : Positions) (hwithin : tree.IsWithin s)
      (ds : List Diagnostic) (hcheck : tree.check s positions = .ok ds) :
      ∃ es, tree.check t positions = .ok es ∧ es.Sublist ds :=
    hwithin.exists_check hloosened hcheck
  have hread (reading : Yaml.Reading) (hwithin : reading.IsWithin s) (ds : List Diagnostic)
      (hcheck : Verdict.check s reading = .ok ds) :
      ∃ es, Verdict.check t reading = .ok es ∧ es.Sublist ds := by
    rw [hwithin.check_eq] at hcheck
    rw [(hwithin.loosened hloosened).check_eq]
    exact htree _ _ hwithin.tree ds hcheck
  refine ⟨fun tree positions => ⟨fun hnone => ?_, fun hwithin => ?_⟩,
    fun reading => ⟨fun hnone => ?_, fun hwithin => ?_⟩⟩
  · obtain ⟨es, hes, hsub⟩ := htree tree positions (Value.isWithin_of_check_eq_nil hnone) [] hnone
    rwa [List.sublist_nil.mp hsub] at hes
  · exact ⟨hwithin.loosened hloosened, htree tree positions hwithin⟩
  · obtain ⟨es, hes, hsub⟩ := hread reading (Yaml.Reading.isWithin_of_check_eq_nil hnone) [] hnone
    rwa [List.sublist_nil.mp hsub] at hes
  · exact ⟨hwithin.loosened hloosened, hread reading hwithin⟩

/-- Settings under which dividers are placeholders. -/
def dividing : Settings :=
  { Settings.default with maxDepth := 64, placeholderTypes := ["divider"] }

/-- A screen without a title that shows a divider. -/
def divided : Value :=
  Canonical.object [("view", Canonical.object [("home", Canonical.object
    [("fields", .list [Canonical.object [("type", .text "divider")]])])])]

/-- A screen that has a title. -/
def titled : Yaml.Reading where
  tree := ⟨.container 0, #[.map [(.text "view", .container 1)], .map [(.text "home", .container 2)],
    .map [(.text "title", .scalar (.text "Home"))]]⟩
  positions := []

/-- The report about the screen that has no title. -/
def untitledScreen : Diagnostic :=
  Diagnostic.located .missingAttribute "Screen must have a \"title\"" "view.home" none

/-- Without dividers as placeholders, the divider lacks an identifier and a label. -/
theorem looser_settings_report_less_divided :
    Settings.default.IsLoosenedTo dividing ∧ divided.IsWithin Settings.default ∧
      divided.IsWithin dividing ∧
      (divided.check Settings.default []).map List.length = .ok 3 ∧
      divided.check dividing [] = .ok [untitledScreen] ∧
      titled.tree.toValue.check Settings.default [] = .ok [] ∧
      titled.tree.toValue.check dividing [] = .ok [] ∧
      Verdict.check Settings.default titled = .ok [] ∧ Verdict.check dividing titled = .ok [] ∧
      titled.IsWithin Settings.default ∧ titled.IsWithin dividing := by
  have hloosened : Settings.default.IsLoosenedTo dividing :=
    ⟨by decide, by decide, List.nil_subset _⟩
  have hwithin : divided.IsWithin Settings.default := Value.isWithin_of_depthExcess? rfl rfl
  have hplain : titled.tree.toValue.check Settings.default [] = .ok [] := rfl
  have hread : Verdict.check Settings.default titled = .ok [] := rfl
  have hreadWithin := Yaml.Reading.isWithin_of_check_eq_nil hread
  obtain ⟨htree, hreading⟩ := looser_settings_report_less hloosened
  obtain ⟨hwithinMore, hsub⟩ := (htree divided []).2 hwithin
  exact ⟨hloosened, hwithin, hwithinMore, rfl, rfl, hplain, (htree _ []).1 hplain, hread,
    (hreading titled).1 hread, hreadWithin, ((hreading titled).2 hreadWithin).1⟩

end Wireframe
