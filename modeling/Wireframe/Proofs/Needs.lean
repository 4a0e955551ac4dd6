import Mathlib.Tactic
import Wireframe.Proofs.CompleteFields
import Wireframe.Proofs.FaultLocations

/-!
# What the parts of a screen need

Where an option of a field, a step of a wizard or an action keeps what it cannot do without,
as a location below the part.  A part that the rules have accepted fails for no tag, and
nothing is missing at these locations, down to the fields that repeaters repeat.
-/

namespace Wireframe

/-! ## Locations of what is needed -/

namespace Needed

/-- Where the values and the labels of the options below a field are. -/
inductive OfField : Location → Prop
  | option {tag name : String} {alternative place : Step}
      (hselect : (FieldType.ofTag tag).isSelect = true) (hname : name ∈ ["value", "label"]) :
      OfField [.name tag, .name "options", alternative, place, .name name]
  | item {place : Step} {rest : Location} (hrest : OfField rest) :
      OfField (.name FieldType.repeater.tag :: .name "item_fields" :: place :: rest)

theorem OfField.inversion
    {tag name : String} {l : Location} (hneeded : OfField (.name tag :: .name name :: l)) :
    (name = "options" ∧ (FieldType.ofTag tag).isSelect = true ∧
        ∃ alternative place, ∃ own ∈ ["value", "label"], l = [alternative, place, .name own]) ∨
      (name = "item_fields" ∧ tag = FieldType.repeater.tag ∧
        ∃ place rest, l = place :: rest ∧ OfField rest) := by
  cases hneeded with
  | option hselect hname => exact .inl ⟨rfl, hselect, _, _, _, hname, rfl⟩
  | item hrest => exact .inr ⟨rfl, rfl, _, _, rfl, hrest⟩

inductive OfStep : Location → Prop
  | own {name : String} (hname : name ∈ ["id", "title", "fields"]) : OfStep [.name name]
  | field {place : Step} {rest : Location} (hrest : OfField rest) :
      OfStep (.name "fields" :: place :: rest)

inductive OfWizard : Location → Prop
  | own : OfWizard [.name "steps"]
  | step {place : Step} {rest : Location} (hrest : OfStep rest) :
      OfWizard (.name "steps" :: place :: rest)

inductive OfSection : Location → Prop
  | field {place : Step} {rest : Location} (hrest : OfField rest) :
      OfSection (.name "input_fields" :: place :: rest)

inductive OfAction : Location → Prop
  | own {tag name : String} (hname : name ∈ ["id", "label", "to"]) :
      OfAction [.name tag, .name name]

/-- Where what a screen needs is; the strict rules look into wizards and fields too. -/
inductive OfScreen (strict : Bool) : Location → Prop
  | own : OfScreen strict [.name "title"]
  | action {place : Step} {rest : Location} (hrest : OfAction rest) :
      OfScreen strict (.name "actions" :: place :: rest)
  | wizard {rest : Location} (hstrict : strict = true) (hrest : OfWizard rest) :
      OfScreen strict (.name "wizard" :: rest)
  | formSection {place : Step} {rest : Location} (hstrict : strict = true)
      (hrest : OfSection rest) : OfScreen strict (.name "sections" :: place :: rest)
  | field {place : Step} {rest : Location} (hstrict : strict = true) (hrest : OfField rest) :
      OfScreen strict (.name "fields" :: place :: rest)

theorem OfScreen.of_wizard
    {strict : Bool} {l : Location} (hneeded : OfScreen strict (.name "wizard" :: l)) :
    OfWizard l := by
  generalize hname : "wizard" = name at hneeded
  cases hneeded with
  | wizard hstrict hrest => exact hrest
  | _ => exact absurd hname (by decide)

theorem OfScreen.of_item
    {strict : Bool} {name : String} {place : Step} {l : Location}
    (hneeded : OfScreen strict (.name name :: place :: l)) :
    (name = "actions" → OfAction l) ∧ (name = "sections" → OfSection l) ∧
      (name = "fields" → OfField l) := by
  cases hneeded with
  | action hrest => simpa using hrest
  | wizard hstrict hrest => simp
  | formSection hstrict hrest => simpa using hrest
  | field hstrict hrest => simpa using hrest

end Needed

namespace Reading

open Needed Rules

/-- A list of what is sequenced in a record needs what its items need. -/
theorem fails_items
    {entries : Entries} {a : Attribute} {k : Kind} (hkinds : a.shape.kinds = [.listOf k])
    {P : Value → Prop} (hmay : entries.MayHave a.name P) {needs : Location → Prop}
    (hitems : ∀ x, P x → ∀ i : Nat,
      Fails (Spare fun l => needs (.name a.name :: .place i :: l)) (ofValue x (.one k)))
    {v : Value} (hv : Entries.get? a.name entries = some v) :
    Fails (Spare fun l => needs (.name a.name :: l)) (ofValue v a.shape) := by
  apply fails_list hkinds (P := P) _ hitems
  rw [← Entries.getD_of_get? hv]
  exact hmay

/-! ## Options -/

theorem fails_option
    {v : Value} (hv : IsOption v) :
    Fails (Spare fun l => ∃ name ∈ ["value", "label"], l = [.name name])
      (ofValue v (.one (.record .option))) := by
  obtain ⟨entries, rfl, hhas⟩ := hv
  rw [ofValue_record]
  have hleads : RecordType.option.LeadsBy [] := by decide
  apply fails_record hleads
  · simp
  · rintro name l ⟨other, -, heq⟩
    exact .inl (List.cons.inj heq).2
  · rintro name - ⟨other, hname, heq⟩
    cases heq
    exact ⟨by simp, hhas name hname⟩
  · simp

/-- Options that are mappings already need no label. -/
theorem hasLabels_of_isOption
    {v : Value}
    (hv : v.isText = true ∨ ∃ items, v.items? = some items ∧ ∀ x ∈ items, IsOption x) :
    v.hasLabels = true := by
  rcases hv with htext | ⟨items, hitems, hall⟩
  · cases v <;> first | rfl | cases htext
  · rw [Value.hasLabels, hitems]
    refine List.all_eq_true.mpr fun x hx => ?_
    obtain ⟨entries, rfl, -⟩ := hall x hx
    rfl

theorem fails_options
    {v : Value}
    (hv : v.isText = true ∨ ∃ items, v.items? = some items ∧ ∀ x ∈ items, IsOption x) :
    Fails (Spare fun l => ∃ alternative place, ∃ name ∈ ["value", "label"],
      l = [alternative, place, .name name]) (ofValue v (.ofNamed .options)) := by
  have hlabels : v.hasLabels = true := hasLabels_of_isOption hv
  have hshape : ofValue v (.ofNamed .options) = choose
      ([Kind.optionList, Kind.text].map fun k => (label k, readKind v (partsOf v) k)) := by
    rw [ofValue_eq, readShape, if_neg (by simp [Shape.ofNamed]), if_neg (by simp [hlabels])]
    rfl
  rw [hshape]
  apply fails_choose (isAdditive_spare _) (List.cons_ne_nil _ _)
  intro o ho
  rcases List.mem_cons.mp ho with rfl | ho
  · refine Fails.mono ?_ fun _ => spare_under
    rcases hv with htext | ⟨items, hitems, hall⟩
    · cases v with
      | scalar s =>
          cases s with
          | text s => exact fails_refuse (spare_here rfl)
          | _ => cases htext
      | _ => cases htext
    · have hparts : partsOf v = .items true (items.map Offer.of) := by
        cases v <;> cases hitems <;> rfl
      rw [hparts]
      apply fails_readItems (isAdditive_spare _)
      intro i p hp
      obtain ⟨x, hx, rfl⟩ := List.mem_map.mp (List.mem_of_getElem? hp)
      have hoption := hall x hx
      have hmap : x.isMap = true := by
        obtain ⟨entries, rfl, -⟩ := hoption
        rfl
      have hread : readOption (Offer.of x) = ofValue x (.one (.record .option)) := if_pos hmap
      rw [hread]
      apply (fails_option hoption).spare_below
      rintro l ⟨alternative, place, name, hname, heq⟩
      cases heq
      exact ⟨name, hname, rfl⟩
  · cases List.mem_singleton.mp ho
    refine Fails.mono ?_ fun _ => spare_under
    exact fails_ofCoerced _ fun cause hcause => spare_toText hcause

/-! ## Fields -/

theorem leadsBy_field
    (t : FieldType) :
    (RecordType.field t).LeadsBy ["options", "item_fields"] := by
  cases t <;> decide +kernel

theorem options_shape
    {t : FieldType} (hselect : t.isSelect = true) :
    ∀ a ∈ (RecordType.field t).attributes, a.name = "options" → a.shape = .ofNamed .options := by
  cases t with
  | select => decide
  | multiSelect => decide
  | radioGroup => decide
  | checkboxGroup => decide
  | _ => cases hselect

theorem items_shape :
    ∀ a ∈ (RecordType.field .repeater).attributes, a.name = "item_fields" →
      a.shape.kinds = [.listOf .field] := by
  decide

section Field

variable {settings : Settings} {entries : Entries} {v : Value} {tag : String}

/-- The options of a field are complete if its type asks for options. -/
theorem fails_ownOptions
    (hitself : IsFieldItself settings entries)
    (hselect : (fieldType (entries.getD "type")).isSelect = true)
    (hv : Entries.get? "options" entries = some v) :
    Fails (Spare fun l => OfField (.name tag :: .name "options" :: l))
      (ofValue v (.ofNamed .options)) := by
  have hknown : fieldType (entries.getD "type") ≠ .unrecognized := by
    intro heq
    rw [heq] at hselect
    cases hselect
  obtain ⟨own, hown, hof⟩ := (Element.fieldType_eq_iff hknown).mp rfl
  have hgiven := hitself.options own hown (hof ▸ hselect)
  unfold HasOptions Entries.HasItems at hgiven
  rw [Entries.getD_of_get? hv] at hgiven
  have hoptions := hgiven.imp_right fun ⟨first, rest, hsome, hall⟩ =>
    (⟨first :: rest, hsome, hall⟩ : ∃ items, v.items? = some items ∧ ∀ x ∈ items, IsOption x)
  apply (fails_options hoptions).spare_mono
  intro l hneeded
  rcases hneeded.inversion with ⟨-, -, hl⟩ | ⟨hname, -⟩
  · exact hl
  · exact absurd hname (by decide)

/-- The items of a repeater need what fields need. -/
theorem fails_ownItems
    {items : List Value} (hitems : v.items? = some items)
    (hbelow : ∀ x ∈ items, Fails (Spare OfField) (ofValue x (.one .field))) {s : Shape}
    (hkinds : s.kinds = [.listOf .field]) :
    Fails (Spare fun l => OfField (.name tag :: .name "item_fields" :: l)) (ofValue v s) := by
  apply fails_list hkinds (fun _ => ⟨_, hitems, fun x hx => hx⟩)
  intro x hx i
  apply (hbelow x hx).spare_mono
  intro l hneeded
  rcases hneeded.inversion with ⟨hname, -⟩ | ⟨-, -, place, rest, heq, hrest⟩
  · exact absurd hname (by decide)
  · cases heq
    exact hrest

end Field

theorem fails_field
    {settings : Settings} {v : Value} (hv : IsField settings v) :
    Fails (Spare OfField) (ofValue v (.one .field)) := by
  -- The rules are followed down to the items of repeaters.
  induction v using Value.mapInductionOn with
  | other v hmap => cases hv <;> cases hmap
  | map entries ih =>
      obtain ⟨hitself, hitems⟩ := isField_map_iff.mp hv
      have hread : ofValue (.map entries) (.one .field) =
          under (.name (fieldType (entries.getD "type")).tag)
            (readRecord (.field (fieldType (entries.getD "type"))) entries.offers) := by
        rw [ofValue_of_single (k := .field) rfl rfl nofun]
        simp only [readKind, partsOf, readField, valueOf_offers]
      rw [hread]
      apply Fails.spare_under
      apply fails_record (leadsBy_field _)
      · decide
      · intro name l hneeded
        rcases hneeded.inversion with ⟨rfl, -⟩ | ⟨rfl, -⟩ <;> exact .inr (by decide)
      · intro name _ hneeded
        rcases hneeded.inversion with ⟨-, -, _, _, _, -, heq⟩ | ⟨-, -, _, _, heq, -⟩ <;> cases heq
      · intro a ha hname v hv
        by_cases hselect : a.name = "options" ∧ (fieldType (entries.getD "type")).isSelect = true
        · rw [options_shape hselect.2 a ha hselect.1, hselect.1]
          exact fails_ownOptions hitself hselect.2 (hselect.1 ▸ hv)
        · by_cases hrepeater : a.name = "item_fields" ∧ fieldType (entries.getD "type") = .repeater
          · obtain ⟨hfields, hrepeater⟩ := hrepeater
            obtain ⟨first, rest, hsome, hall⟩ :=
              hitems (Element.isRepeater_iff_fieldType.mpr hrepeater)
            rw [hfields] at hv
            rw [Entries.getD_of_get? hv] at hsome
            obtain ⟨key, hmem, -⟩ := Entries.get?_mem hv
            rw [hfields]
            exact fails_ownItems hsome (fun x hx => ih _ hmem _ hsome x hx (hall x hx))
              (items_shape a (hrepeater ▸ ha) hfields)
          · apply fails_of_isTagless (RecordType.kinds_ne_nil ha)
              (fun k => RecordType.isTagless_of_mem rfl ha)
            intro l hneeded
            rcases hneeded.inversion with ⟨hoptions, hof, -⟩ | ⟨hfields, htag, -⟩
            · rw [FieldType.ofTag_tag] at hof
              exact absurd ⟨hoptions, hof⟩ hselect
            · have hof := congrArg FieldType.ofTag htag
              rw [FieldType.ofTag_tag, FieldType.ofTag_tag] at hof
              exact absurd ⟨hfields, hof⟩ hrepeater

/-! ## Steps, sections and actions -/

theorem fails_fieldList
    {settings : Settings} {entries : Entries} {a : Attribute}
    (hkinds : a.shape.kinds = [.listOf .field])
    (hmay : entries.MayHave a.name (IsField settings)) {needs : Location → Prop}
    (hneeds : ∀ place l, needs (.name a.name :: place :: l) → OfField l) {v : Value}
    (hv : Entries.get? a.name entries = some v) :
    Fails (Spare fun l => needs (.name a.name :: l)) (ofValue v a.shape) :=
  fails_items hkinds hmay (fun _ hx i => (fails_field hx).spare_mono (hneeds (.place i))) hv

theorem fails_step
    {settings : Settings} {v : Value} (hv : v.IsMapOf (IsWizardStep settings)) :
    Fails (Spare OfStep) (ofValue v (.one (.record .wizardStep))) := by
  obtain ⟨entries, rfl, hnamed, first, rest, hitems, hfields⟩ := hv
  have hhas : Entries.Has ["id", "title", "fields"] entries := by
    simpa [Entries.Has, Value.isPresent_of_items? hitems] using hnamed
  have hattributes : ∀ a ∈ RecordType.wizardStep.attributes, a.name ∈ ["fields"] →
      a = .need "fields" (.listOf .field) := by decide
  rw [ofValue_record]
  have hleads : RecordType.wizardStep.LeadsBy ["fields"] := by decide
  apply fails_record hleads
  · decide
  · intro name l hneeded
    cases hneeded with
    | own hname => exact .inl rfl
    | field hrest => exact .inr (List.mem_singleton_self _)
  · intro name _ hneeded
    cases hneeded with
    | own hname => exact ⟨by simp, hhas name hname⟩
  · intro a ha hname v hv
    obtain rfl := hattributes a ha hname
    apply fails_fieldList rfl (fun _ => ⟨_, hitems, hfields⟩) _ hv
    intro place l hneeded
    cases hneeded with
    | field hrest => exact hrest

theorem fails_wizard
    {settings : Settings} {v : Value} (hv : v.IsMapOf (IsWizard settings)) :
    Fails (Spare OfWizard) (ofValue v (.one (.record .wizard))) := by
  obtain ⟨entries, rfl, hsteps, hmay⟩ := hv
  have hattributes : ∀ a ∈ RecordType.wizard.attributes, a.name ∈ ["steps"] →
      a = .need "steps" (.listOf (.record .wizardStep)) := by decide
  rw [ofValue_record]
  have hleads : RecordType.wizard.LeadsBy ["steps"] := by decide
  apply fails_record hleads
  · decide
  · intro name l hneeded
    cases hneeded <;> exact .inr (List.mem_singleton_self _)
  · intro name _ hneeded
    cases hneeded with
    | own => exact ⟨by simp, hsteps "steps" (List.mem_singleton_self _)⟩
  · intro a ha hname v hv
    obtain rfl := hattributes a ha hname
    apply fails_items rfl hmay _ hv
    intro x hx i
    apply (fails_step hx).spare_mono
    intro l hneeded
    cases hneeded with
    | step hrest => exact hrest

theorem fails_section
    {settings : Settings} {v : Value} (hv : v.IsMapOf (IsSection settings)) :
    Fails (Spare OfSection) (ofValue v (.one (.record .formSection))) := by
  obtain ⟨entries, rfl, hsection⟩ := hv
  have hattributes : ∀ a ∈ RecordType.formSection.attributes, a.name ∈ ["input_fields"] →
      a = .may "input_fields" (.listOf .field) := by decide
  rw [ofValue_record]
  have hleads : RecordType.formSection.LeadsBy ["input_fields"] := by decide
  apply fails_record hleads
  · decide
  · intro name l hneeded
    cases hneeded
    exact .inr (List.mem_singleton_self _)
  · intro name _ hneeded
    cases hneeded
  · intro a ha hname v hv
    obtain rfl := hattributes a ha hname
    apply fails_fieldList rfl hsection.fields _ hv
    intro place l hneeded
    cases hneeded with
    | field hrest => exact hrest

theorem leadsBy_action (t : ActionType) : (RecordType.action t).LeadsBy [] := by
  cases t <;> decide +kernel

/-- Only actions that navigate have a destination. -/
theorem eq_navigate_of_to
    {t : ActionType} (hto : "to" ∈ (RecordType.action t).names) :
    t = .navigate := by
  revert hto
  cases t <;> decide

theorem fails_action
    {v : Value} (hv : v.IsMapOf IsAction) :
    Fails (Spare OfAction) (ofValue v (.one .action)) := by
  obtain ⟨entries, rfl, hnamed, t, htype, hdestination⟩ := hv
  have hread : ofValue (.map entries) (.one .action) =
      under (.name t.tag) (readRecord (.action t) (Entries.offers entries)) := by
    have hfound : Offer.find? "type" (Entries.offers entries) =
        some (Offer.of (Entries.getD "type" entries)) := by
      rw [find?_offers, Entries.get?_of_isPresent (hnamed "type" (by decide))]
      rfl
    have hknown : (Offer.of (Entries.getD "type" entries)).value.text?.bind ActionType.ofTag? =
        some t := htype
    rw [ofValue_of_single (k := .action) rfl rfl nofun]
    simp only [readKind, partsOf, readAction, hfound, hknown]
  rw [hread]
  apply Fails.spare_under
  generalize t.tag = tag
  apply fails_record (leadsBy_action t)
  · simp
  · intro name l hneeded
    cases hneeded
    exact .inl rfl
  · intro name hmem hneeded
    refine ⟨by simp, ?_⟩
    cases hneeded with
    | own hname =>
      simp only [List.mem_cons, List.not_mem_nil, or_false] at hname
      rcases hname with rfl | rfl | rfl
      · exact hnamed "id" (by decide)
      · exact hnamed "label" (by decide)
      · exact hdestination (eq_navigate_of_to hmem) "to" (List.mem_singleton_self _)
  · simp

end Reading

end Wireframe
