import Mathlib.Tactic
import Wireframe.Grammar.Check
import Wireframe.Proofs.Tags
import Wireframe.Proofs.Trees

/-!
# The grammar of the rules

What the trees are like that a rule has no findings for, without locations.  A rule is
empty on a tree at one location exactly when the tree belongs to the grammar of the rule,
and then it is empty at every location.
-/

namespace Wireframe

theorem Collection.isPresent_of_ofValue?
    {v : Value} {c : Collection} (hc : ofValue? v = some c) :
    v.isPresent = true := by
  cases v <;> first | rfl | cases hc

namespace Rules

/-- The rule is empty exactly on trees of the kind, wherever they are. -/
def Decides (rule : Rule) (P : Value → Prop) : Prop :=
  ∀ v location, rule v location = [] ↔ P v

/-! ## Combinations of rules -/

section Combinations

variable {rule : Rule} {P : Value → Prop} {entries : Entries} {location : Location}

@[simp] theorem report_ne_nil (problem : Problem) : report problem location ≠ [] := by
  simp [report]

theorem onMap_eq_nil_iff
    {subject : String} {inner : Entries → Location → List Finding} {v : Value}
    {Q : Entries → Prop}
    (hinner : ∀ entries, inner entries location = [] ↔ Q entries) :
    onMap subject inner v location = [] ↔ v.IsMapOf Q := by
  cases v with
  | map entries => simp [onMap, hinner, Value.IsMapOf]
  | _ => simp [onMap, Value.IsMapOf]

theorem require_eq_nil_iff
    {subject : String} {keys : List String} :
    require subject keys entries location = [] ↔ entries.Has keys := by
  simp only [require, List.flatMap_eq_nil_iff, Entries.Has]
  refine forall₂_congr fun key _ => ?_
  split_ifs with hpresent <;> simp [hpresent]

theorem each_eq_nil_iff
    {items : List Value} (hrule : ∀ v ∈ items, ∀ location, rule v location = [] ↔ P v) :
    each rule items location = [] ↔ ∀ v ∈ items, P v := by
  simp only [each, List.flatMap_eq_nil_iff]
  constructor
  · intro hempty v hv
    obtain ⟨i, hi, rfl⟩ := List.getElem_of_mem hv
    have hmem : (items[i], i) ∈ items.zipIdx := List.mk_mem_zipIdx_iff_getElem?.mpr (by simp)
    exact (hrule _ hv _).mp (hempty _ hmem)
  · intro hall x hx
    obtain ⟨-, -, hget⟩ := List.mem_zipIdx hx
    have hv := hget ▸ List.getElem_mem _
    exact (hrule _ hv _).mpr (hall _ hv)

theorem sequence_eq_nil_iff
    (hrule : Decides rule P) {subject : String} {v : Value} :
    sequence subject rule v location = [] ↔
      ∃ items, v.items? = some items ∧ ∀ x ∈ items, P x := by
  unfold sequence
  cases v.items? with
  | none => simp
  | some items => simp [each_eq_nil_iff fun v _ => hrule v]

theorem optional_eq_nil_iff
    (hrule : Decides rule P) {key subject : String} :
    optional key subject rule entries location = [] ↔ entries.MayHave key P := by
  unfold optional Entries.MayHave
  simp only
  split_ifs with hpresent
  · rw [sequence_eq_nil_iff hrule]
    simp [hpresent]
  · simp [hpresent]

theorem lackingItems_eq_nil_iff
    {subject key : String} :
    lackingItems subject key entries location = [] ↔
      ∃ first rest, (entries.getD key).items? = some (first :: rest) := by
  unfold lackingItems
  simp only
  cases hitems : (entries.getD key).items? with
  | none => split_ifs <;> simp
  | some items =>
      have hpresent := Value.isPresent_of_items? hitems
      cases items <;> simp [hpresent]

end Combinations

/-! ## Fields -/

/-- An option with a value and a label. -/
def IsOption : Value → Prop := Value.IsMapOf (Entries.Has ["value", "label"])

/-- A reference to options, or options. -/
def HasOptions (entries : Entries) : Prop :=
  (entries.getD "options").isText = true ∨ entries.HasItems "options" IsOption

/-- A field, apart from those that it repeats. -/
structure IsFieldItself (settings : Settings) (entries : Entries) : Prop where
  id : settings.isDisplayOnly (entries.getD "type") = false → entries.Has ["id"]
  type : entries.Has ["type"]
  label : settings.isPlaceholder (entries.getD "type") = false → entries.Has ["label"]
  options : ∀ tag, (entries.getD "type").text? = some tag → (FieldType.ofTag tag).isSelect = true →
    HasOptions entries

/-- A field with all that it repeats, at any depth. -/
inductive IsField (settings : Settings) : Value → Prop
  | single {entries} (hitself : IsFieldItself settings entries)
      (hsingle : isRepeater entries = false) : IsField settings (.map entries)
  | repeater {entries first rest} (hitself : IsFieldItself settings entries)
      (hrepeater : isRepeater entries = true)
      (hitems : (entries.getD "item_fields").items? = some (first :: rest))
      (hbelow : ∀ v ∈ first :: rest, IsField settings v) : IsField settings (.map entries)

theorem option_decides : Decides option IsOption :=
  fun _ _ => onMap_eq_nil_iff fun _ => require_eq_nil_iff

theorem options_eq_nil_iff
    {tag : String} {entries : Entries} {location : Location} :
    options tag entries location = [] ↔ HasOptions entries := by
  unfold options HasOptions Entries.HasItems
  simp only
  cases htext : (entries.getD "options").isText with
  | true =>
      simp [Value.isPresent_of_isText htext]
  | false =>
      cases hitems : (entries.getD "options").items? with
      | none => split_ifs <;> simp_all
      | some items =>
          have hpresent := Value.isPresent_of_items? hitems
          cases items with
          | nil => simp [hpresent]
          | cons first rest => simp [hpresent, each_eq_nil_iff fun v _ => option_decides v]

theorem isRepeater_iff
    {entries : Entries} :
    isRepeater entries = true ↔
      ∃ tag, (entries.getD "type").text? = some tag ∧ FieldType.ofTag tag = .repeater := by
  have htag (tag : String) : FieldType.ofTag tag = .repeater ↔ tag = FieldType.repeater.tag :=
    ⟨fun h => (FieldType.tag_of_ofTag h (by decide)).symm, fun h => h ▸ FieldType.ofTag_tag _⟩
  unfold isRepeater
  cases (entries.getD "type").text? <;> simp [htag]

/-- A field is empty of findings itself when it is well formed, and when it has items to
repeat if it is a repeater. -/
theorem fieldItself_eq_nil_iff
    {settings : Settings} {entries : Entries} {location : Location} :
    fieldItself settings (.map entries) location = [] ↔
      IsFieldItself settings entries ∧
        (isRepeater entries = true →
          ∃ first rest, (entries.getD "item_fields").items? = some (first :: rest)) := by
  have hshape :
      fieldItself settings (.map entries) location = [] ↔
        (settings.isDisplayOnly (entries.getD "type") = false → entries.Has ["id"]) ∧
        entries.Has ["type"] ∧
        (settings.isPlaceholder (entries.getD "type") = false → entries.Has ["label"]) ∧
        (∀ tag, (entries.getD "type").text? = some tag →
          (FieldType.ofTag tag).isSelect = true → HasOptions entries) ∧
        (∀ tag, (entries.getD "type").text? = some tag → FieldType.ofTag tag = .repeater →
          ∃ first rest, (entries.getD "item_fields").items? = some (first :: rest)) := by
    simp only [fieldItself, onMap, List.append_eq_nil_iff, require_eq_nil_iff, and_assoc]
    refine and_congr ?_ (and_congr Iff.rfl (and_congr ?_ ?_))
    · split_ifs with hdisplay <;> simp [hdisplay, require_eq_nil_iff]
    · split_ifs with hplaceholder <;> simp [hplaceholder, require_eq_nil_iff]
    · cases htype : (entries.getD "type").text? with
      | none => simp
      | some tag =>
          by_cases hselect : (FieldType.ofTag tag).isSelect = true
          · have hrepeater : FieldType.ofTag tag ≠ .repeater := by
              rintro heq
              rw [heq] at hselect
              contradiction
            simp [hselect, hrepeater, options_eq_nil_iff]
          · simp only [hselect, Bool.false_eq_true, if_false, false_implies, Option.some.injEq,
              forall_eq', true_and]
            split_ifs with hrepeater
            · simp [hrepeater, lackingItems_eq_nil_iff]
            · simp [hrepeater]
  rw [hshape, isRepeater_iff]
  constructor
  · rintro ⟨hid, htype, hlabel, hoptions, hitems⟩
    exact ⟨⟨hid, htype, hlabel, hoptions⟩, fun ⟨tag, htag, hrepeater⟩ => hitems tag htag hrepeater⟩
  · rintro ⟨⟨hid, htype, hlabel, hoptions⟩, hitems⟩
    exact ⟨hid, htype, hlabel, hoptions, fun tag htag hrepeater => hitems ⟨tag, htag, hrepeater⟩⟩

theorem fieldsOfItems_eq_flatMap
    (items : List Value) (location : Location) (place : Nat) :
    fieldsOfItems items location place =
      (items.zipIdx place).flatMap fun x => fieldsBelow x.1 (location ++ [.place x.2]) := by
  induction items generalizing place with
  | nil => rfl
  | cons v vs ih => simp [fieldsOfItems, ih]

theorem fieldsOfEntries_eq
    (entries : Entries) (location : Location) :
    fieldsOfEntries entries location =
      match (entries.getD "item_fields").items? with
      | some items => fieldsOfItems items (location ++ [.name "item_fields"]) 0
      | none => [] := by
  induction entries with
  | nil => rfl
  | cons e es ih =>
      obtain ⟨key, v⟩ := e
      by_cases hkey : key.text? = some "item_fields"
      · have hget : Entries.getD "item_fields" ((key, v) :: es) = v := by
          simp [Entries.getD, Entries.get?, hkey]
        rw [hget]
        cases v <;> simp [fieldsOfEntries, hkey, Value.items?]
      · have hget : Entries.getD "item_fields" ((key, v) :: es) =
            Entries.getD "item_fields" es := by
          simp [Entries.getD, Entries.get?, hkey]
        have hne : (key.text? == some "item_fields") = false := by simpa using hkey
        rw [hget, ← ih]
        cases v <;> simp only [fieldsOfEntries, hne, Bool.false_eq_true, if_false]

/-- The findings of a field are its own and those of the fields that it repeats. -/
theorem field_map
    (settings : Settings) (entries : Entries) (location : Location) :
    field settings (.map entries) location =
      fieldItself settings (.map entries) location ++
        if isRepeater entries then
          match (entries.getD "item_fields").items? with
          | some items => each (field settings) items (location ++ [.name "item_fields"])
          | none => []
        else [] := by
  unfold field
  rw [fieldsBelow, List.flatMap_cons]
  congr 1
  split_ifs with hrepeater
  · rw [fieldsOfEntries_eq]
    cases (entries.getD "item_fields").items? with
    | none => rfl
    | some items =>
        simp only [fieldsOfItems_eq_flatMap, List.flatMap_assoc]
        rfl
  · rfl

theorem isField_map_iff
    {settings : Settings} {entries : Entries} :
    IsField settings (.map entries) ↔
      IsFieldItself settings entries ∧
        (isRepeater entries = true → entries.HasItems "item_fields" (IsField settings)) := by
  constructor
  · intro hfield
    cases hfield with
    | single hitself hsingle => exact ⟨hitself, by simp [hsingle]⟩
    | repeater hitself hrepeater hitems hbelow =>
        exact ⟨hitself, fun _ => ⟨_, _, hitems, hbelow⟩⟩
  · rintro ⟨hitself, hitems⟩
    cases hrepeater : isRepeater entries with
    | false => exact .single hitself hrepeater
    | true =>
        obtain ⟨first, rest, hsome, hbelow⟩ := hitems hrepeater
        exact .repeater hitself hrepeater hsome hbelow

theorem field_decides (settings : Settings) : Decides (field settings) (IsField settings) := by
  intro v
  induction v using Value.mapInductionOn with
  | map entries ih =>
      intro location
      rw [field_map, List.append_eq_nil_iff, fieldItself_eq_nil_iff, isField_map_iff, and_assoc]
      refine and_congr_right fun _ => ?_
      cases hrepeater : isRepeater entries with
      | false => simp
      | true =>
          simp only [if_true, true_implies, Entries.HasItems]
          cases hitems : (entries.getD "item_fields").items? with
          | none => simp
          | some items =>
              have hbelow : ∀ v ∈ items, ∀ location,
                  field settings v location = [] ↔ IsField settings v := by
                obtain ⟨key, hmem, -⟩ :=
                  Entries.get?_mem (Entries.get?_of_isPresent (Value.isPresent_of_items? hitems))
                exact ih _ hmem items hitems
              rw [each_eq_nil_iff hbelow]
              constructor
              · rintro ⟨⟨first, rest, heq⟩, hall⟩
                cases heq
                exact ⟨first, rest, rfl, hall⟩
              · rintro ⟨first, rest, heq, hall⟩
                cases heq
                exact ⟨⟨first, rest, rfl⟩, hall⟩
  | other v hmap =>
      intro location
      constructor
      · intro hempty
        cases v <;> simp_all [field, fieldsBelow, fieldItself, onMap, Value.isMap]
      · intro hfield
        cases hfield <;> cases hmap

/-! ## Screens -/

/-- An action of a known type; one that navigates has a destination. -/
structure IsAction (entries : Entries) : Prop where
  named : entries.Has ["id", "type", "label"]
  known : ∃ t, (entries.getD "type").text?.bind ActionType.ofTag? = some t ∧
    (t = .navigate → entries.Has ["to"])

/-- A step of a wizard with at least one field. -/
structure IsWizardStep (settings : Settings) (entries : Entries) : Prop where
  named : entries.Has ["id", "title"]
  fields : entries.HasItems "fields" (IsField settings)

/-- A wizard, whose steps are all there is to check. -/
def IsWizard (settings : Settings) (entries : Entries) : Prop :=
  entries.Has ["steps"] ∧ entries.MayHave "steps" (Value.IsMapOf (IsWizardStep settings))

structure IsSection (settings : Settings) (entries : Entries) : Prop where
  named : entries.Has ["section_name"]
  fields : entries.MayHave "input_fields" (IsField settings)

structure IsScreen (settings : Settings) (entries : Entries) : Prop where
  title : entries.Has ["title"]
  wizard : entries.Has ["wizard"] → (entries.getD "wizard").IsMapOf (IsWizard settings)
  sections : entries.MayHave "sections" (Value.IsMapOf (IsSection settings))
  fields : entries.MayHave "fields" (IsField settings)
  inputFields : entries.MayHave "input_fields" (IsField settings)
  displayFields : entries.MayHave "display_fields" (·.isPlain = true)
  filters : entries.MayHave "filters" (·.isPlain = true)
  actions : entries.MayHave "actions" (Value.IsMapOf IsAction)

/-- A mapping that is not looked into. -/
def IsMap : Value → Prop := Value.IsMapOf fun _ => True

/-- A screen that carries its name. -/
structure IsListedScreen (entries : Entries) : Prop where
  named : entries.Has ["name"] ∨ entries.Has ["title"]
  sections : entries.MayHave "sections"
    (Value.IsMapOf fun entries => entries.MayHave "input_fields" IsMap)
  fields : entries.MayHave "fields" IsMap
  inputFields : entries.MayHave "input_fields" IsMap
  displayFields : entries.MayHave "display_fields" (·.isPlain = true)
  filters : entries.MayHave "filters" (·.isPlain = true)
  actions : entries.MayHave "actions" fun v => v.isText = true ∨ v.IsMapOf IsAction

theorem action_decides : Decides action (Value.IsMapOf IsAction) := by
  refine fun v location => onMap_eq_nil_iff fun entries => ?_
  simp only [List.append_eq_nil_iff, require_eq_nil_iff, and_assoc]
  constructor
  · rintro ⟨hnamed, hknown, hlabel, hdestination⟩
    simp only [Entries.Has, List.mem_cons, List.not_mem_nil, or_false, forall_eq_or_imp,
      forall_eq] at hnamed hlabel
    have hsome : (entries.getD "type").text?.bind ActionType.ofTag? ≠ none := by
      intro hnone
      simp [hnamed.2, hnone] at hknown
    obtain ⟨t, ht⟩ := Option.ne_none_iff_exists'.mp hsome
    refine ⟨?_, t, ht, ?_⟩
    · simp [Entries.Has, hnamed, hlabel]
    · rintro rfl
      simpa [ht, Entries.Has] using hdestination
  · rintro ⟨hnamed, t, ht, hdestination⟩
    simp only [Entries.Has, List.mem_cons, List.not_mem_nil, or_false, forall_eq_or_imp,
      forall_eq] at hnamed hdestination
    simp only [Entries.Has, List.mem_cons, List.not_mem_nil, or_false, forall_eq_or_imp,
      forall_eq, ht, hnamed]
    refine ⟨by simp, by simp, by simp, ?_⟩
    by_cases hnavigate : t = .navigate <;> simp [hnavigate, hdestination]

theorem wizardStep_decides
    (settings : Settings) :
    Decides (wizardStep settings) (Value.IsMapOf (IsWizardStep settings)) := by
  refine fun v location => onMap_eq_nil_iff fun entries => ?_
  simp only [List.append_eq_nil_iff, require_eq_nil_iff, lackingItems_eq_nil_iff]
  constructor
  · rintro ⟨⟨hnamed, first, rest, hitems⟩, hfields⟩
    simp only [hitems, each_eq_nil_iff fun v _ => field_decides settings v] at hfields
    exact ⟨hnamed, first, rest, hitems, hfields⟩
  · rintro ⟨hnamed, first, rest, hitems, hfields⟩
    refine ⟨⟨hnamed, first, rest, hitems⟩, ?_⟩
    simp only [hitems, each_eq_nil_iff fun v _ => field_decides settings v]
    exact hfields

theorem wizard_decides
    (settings : Settings) :
    Decides (wizard settings) (Value.IsMapOf (IsWizard settings)) := by
  refine fun v location => onMap_eq_nil_iff fun entries => ?_
  simp only [IsWizard, Entries.Has, Entries.MayHave, List.mem_singleton, forall_eq]
  split_ifs with hsteps
  · simp [hsteps, sequence_eq_nil_iff (wizardStep_decides settings)]
  · simp [hsteps]

theorem formSection_decides
    (settings : Settings) :
    Decides (formSection settings) (Value.IsMapOf (IsSection settings)) := by
  refine fun v location => onMap_eq_nil_iff fun entries => ?_
  rw [List.append_eq_nil_iff, require_eq_nil_iff, optional_eq_nil_iff (field_decides settings)]
  exact ⟨fun ⟨hnamed, hfields⟩ => ⟨hnamed, hfields⟩, fun h => ⟨h.named, h.fields⟩⟩

theorem columnName_decides : Decides columnName (·.isPlain = true) := by
  intro v location
  unfold columnName
  split_ifs with hplain <;> simp [hplain]

theorem screen_decides
    (settings : Settings) :
    Decides (screen settings) (Value.IsMapOf (IsScreen settings)) := by
  refine fun v location => onMap_eq_nil_iff fun entries => ?_
  have hwizard :
      optionalWizard settings entries location = [] ↔
        (entries.Has ["wizard"] → (entries.getD "wizard").IsMapOf (IsWizard settings)) := by
    simp only [optionalWizard, Entries.Has, List.mem_singleton, forall_eq]
    split_ifs with hpresent
    · simp [hpresent, wizard_decides settings _ _]
    · simp [hpresent]
  simp only [List.append_eq_nil_iff, require_eq_nil_iff, hwizard, and_assoc,
    optional_eq_nil_iff (field_decides settings),
    optional_eq_nil_iff (formSection_decides settings),
    optional_eq_nil_iff columnName_decides, optional_eq_nil_iff action_decides]
  constructor
  · rintro ⟨h1, h2, h3, h4, h5, h6, h7, h8⟩
    exact ⟨h1, h2, h3, h4, h5, h6, h7, h8⟩
  · rintro ⟨h1, h2, h3, h4, h5, h6, h7, h8⟩
    exact ⟨h1, h2, h3, h4, h5, h6, h7, h8⟩

theorem listedField_decides : Decides listedField IsMap :=
  fun _ _ => onMap_eq_nil_iff fun _ => by simp

theorem listedSection_decides :
    Decides listedSection
      (Value.IsMapOf fun entries => entries.MayHave "input_fields" IsMap) :=
  fun _ _ => onMap_eq_nil_iff fun _ => optional_eq_nil_iff listedField_decides

theorem listedAction_decides :
    Decides listedAction fun v => v.isText = true ∨ v.IsMapOf IsAction := by
  intro v location
  unfold listedAction
  split_ifs with htext
  · simp [htext]
  · simp [htext, action_decides v location]

theorem listedScreen_decides : Decides listedScreen (Value.IsMapOf IsListedScreen) := by
  refine fun v location => onMap_eq_nil_iff fun entries => ?_
  have hnamed :
      (if (entries.getD "name").isPresent || (entries.getD "title").isPresent then []
        else report .noScreenName location) = [] ↔
        (entries.Has ["name"] ∨ entries.Has ["title"]) := by
    simp only [Entries.Has, List.mem_singleton, forall_eq, Bool.or_eq_true]
    split_ifs with hpresent <;> simp [hpresent]
  simp only [List.append_eq_nil_iff, hnamed, and_assoc,
    optional_eq_nil_iff listedField_decides, optional_eq_nil_iff listedSection_decides,
    optional_eq_nil_iff columnName_decides, optional_eq_nil_iff listedAction_decides]
  constructor
  · rintro ⟨h1, h2, h3, h4, h5, h6, h7⟩
    exact ⟨h1, h2, h3, h4, h5, h6, h7⟩
  · rintro ⟨h1, h2, h3, h4, h5, h6, h7⟩
    exact ⟨h1, h2, h3, h4, h5, h6, h7⟩

/-! ## Components and rules for fields -/

/-- A component of a known type with what that type is made of. -/
structure IsComponent (settings : Settings) (entries : Entries) : Prop where
  named : entries.Has ["name", "type"]
  known : ∃ t, componentType? (entries.getD "type") = some t ∧
    (t = .fieldGroup → entries.MayHave "fields" (IsField settings)) ∧
    (t = .actionGroup → entries.MayHave "actions" (Value.IsMapOf IsAction))

theorem component_decides
    (settings : Settings) :
    Decides (component settings) (Value.IsMapOf (IsComponent settings)) := by
  refine fun v location => onMap_eq_nil_iff fun entries => ?_
  simp only [List.append_eq_nil_iff, require_eq_nil_iff, and_assoc]
  constructor
  · rintro ⟨hnamed, hknown, hfields, hactions⟩
    have htype := hnamed "type" (by simp)
    have hsome : componentType? (entries.getD "type") ≠ none := by
      intro hnone
      simp [htype, hnone] at hknown
    obtain ⟨t, ht⟩ := Option.ne_none_iff_exists'.mp hsome
    refine ⟨hnamed, t, ht, ?_, ?_⟩
    · rintro rfl
      simpa [ht, optional_eq_nil_iff (field_decides settings)] using hfields
    · rintro rfl
      simpa [ht, optional_eq_nil_iff action_decides] using hactions
  · rintro ⟨hnamed, t, ht, hfields, hactions⟩
    refine ⟨hnamed, by simp [ht], ?_, ?_⟩
    · by_cases hgroup : t = .fieldGroup
      · simpa [ht, hgroup, optional_eq_nil_iff (field_decides settings)] using hfields hgroup
      · simp [ht, hgroup]
    · by_cases hgroup : t = .actionGroup
      · simpa [ht, hgroup, optional_eq_nil_iff action_decides] using hactions hgroup
      · simp [ht, hgroup]

theorem listedComponent_decides :
    Decides listedComponent (Value.IsMapOf (Entries.Has ["component_name"])) :=
  fun _ _ => onMap_eq_nil_iff fun _ => require_eq_nil_iff

theorem fieldRule_decides : Decides fieldRule (Value.IsMapOf (Entries.Has ["name", "rules"])) := by
  refine fun v location => onMap_eq_nil_iff fun entries => ?_
  simp only [List.append_eq_nil_iff, require_eq_nil_iff, Entries.Has, List.mem_cons,
    List.not_mem_nil, or_false, forall_eq_or_imp, forall_eq]
  refine and_congr_right fun _ => ?_
  split_ifs with hrules <;> simp [hrules]

theorem listedFieldRule_decides :
    Decides listedFieldRule (Value.IsMapOf (Entries.Has ["field", "rule"])) :=
  fun _ _ => onMap_eq_nil_iff fun _ => require_eq_nil_iff

/-! ## Documents -/

/-- The entries of keyed collections. -/
def IsKeyed (settings : Settings) : CollectionKind → Value → Prop
  | .screens => Value.IsMapOf (IsScreen settings)
  | .components => Value.IsMapOf (IsComponent settings)
  | .rules => Value.IsMapOf (Entries.Has ["name", "rules"])

/-- The entries of listed collections. -/
def IsListed : CollectionKind → Value → Prop
  | .screens => Value.IsMapOf IsListedScreen
  | .components => Value.IsMapOf (Entries.Has ["component_name"])
  | .rules => Value.IsMapOf (Entries.Has ["field", "rule"])

/-- The entries of a collection as it is written. -/
def IsEntry (settings : Settings) (kind : CollectionKind) : Collection → Value → Prop
  | .keyed _ => IsKeyed settings kind
  | .listed _ => IsListed kind

theorem strict_decides
    (settings : Settings) (kind : CollectionKind) :
    Decides (strict settings kind) (IsKeyed settings kind) := by
  cases kind with
  | screens => exact screen_decides settings
  | components => exact component_decides settings
  | rules => exact fieldRule_decides

theorem relaxed_decides (kind : CollectionKind) : Decides (relaxed kind) (IsListed kind) := by
  cases kind with
  | screens => exact listedScreen_decides
  | components => exact listedComponent_decides
  | rules => exact listedFieldRule_decides

theorem entries_eq_nil_iff
    {kind : CollectionKind} {rule : Rule} {P : Value → Prop} (hrule : Decides rule P)
    {seen : List Step} {steps : List (Step × Value)} :
    entries kind rule seen steps = [] ↔
      (∀ x ∈ steps, x.1 ∉ seen) ∧ (steps.map Prod.fst).Nodup ∧ ∀ x ∈ steps, P x.2 := by
  induction steps generalizing seen with
  | nil => simp [entries]
  | cons x rest ih =>
      obtain ⟨step, v⟩ := x
      simp only [entries, List.append_eq_nil_iff, ih, hrule v _, and_assoc, List.map_cons,
        List.nodup_cons, List.forall_mem_cons]
      constructor
      · rintro ⟨hstep, hv, hseen, hnodup, hall⟩
        refine ⟨?_, fun x hx hmem => hseen x hx (List.mem_cons_of_mem _ hmem), ?_, hnodup, hv, hall⟩
        · intro hmem
          simp [hmem] at hstep
        · intro hmem
          obtain ⟨x, hx, rfl⟩ := List.mem_map.mp hmem
          exact hseen x hx List.mem_cons_self
      · rintro ⟨hstep, hseen, hnew, hnodup, hv, hall⟩
        refine ⟨by simp [hstep], hv, fun x hx hmem => ?_, hnodup, hall⟩
        rcases List.mem_cons.mp hmem with heq | hmem
        · exact hnew (heq ▸ List.mem_map_of_mem hx)
        · exact hseen x hx hmem

theorem collection_eq_nil_iff
    {settings : Settings} {kind : CollectionKind} {c : Collection} :
    collection settings kind c = [] ↔
      (c.steps.map Prod.fst).Nodup ∧ ∀ x ∈ c.steps, IsEntry settings kind c x.2 := by
  cases c with
  | keyed es => simp [collection, entries_eq_nil_iff (strict_decides settings kind), IsEntry]
  | listed vs => simp [collection, entries_eq_nil_iff (relaxed_decides kind), IsEntry]

/-- A collection of a document; screens have to be there. -/
def HasCollection (settings : Settings) (document : Entries) (kind : CollectionKind) : Prop :=
  match Collection.ofValue? (document.getD kind.name) with
  | some c => (c.steps.map Prod.fst).Nodup ∧ ∀ x ∈ c.steps, IsEntry settings kind c x.2
  | none => (document.getD kind.name).isPresent = false ∧ kind.isRequired = false

theorem documentPart_eq_nil_iff
    {settings : Settings} {document : Entries} {kind : CollectionKind} :
    documentPart settings document kind = [] ↔ HasCollection settings document kind := by
  unfold documentPart HasCollection
  simp only
  cases hc : Collection.ofValue? (document.getD kind.name) with
  | some c =>
      simp [Collection.isPresent_of_ofValue? hc, collection_eq_nil_iff]
  | none =>
      cases (document.getD kind.name).isPresent <;> cases kind.isRequired <;> simp

/-- A tree has no findings exactly when it is a mapping and each of its collections belongs
to the grammar. -/
theorem root_eq_nil_iff
    {settings : Settings} {tree : Value} :
    root settings tree = [] ↔
      tree.IsMapOf fun document => ∀ kind, HasCollection settings document kind := by
  cases tree with
  | map document =>
      simp only [root, List.flatMap_eq_nil_iff, documentPart_eq_nil_iff, Value.IsMapOf,
        Value.map.injEq, exists_eq_left']
      exact ⟨fun h kind => h kind (by cases kind <;> decide), fun h kind _ => h kind⟩
  | _ => simp [root, Value.IsMapOf]

end Rules

end Wireframe
