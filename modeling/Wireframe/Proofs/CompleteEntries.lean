import Mathlib.Data.List.Forall2
import Mathlib.Tactic
import Wireframe.Proofs.CompleteFields
import Wireframe.Proofs.Documents

/-!
# Complete entries

An entry of a document is complete when its fields are, and a step of a wizard has fields.
Entries that are read from canonical forms of strict entries are complete, and the plain
trees of complete entries are strict entries again.
-/

namespace Wireframe

namespace Element

open Reading

structure IsCompleteStep (step : Element) : Prop where
  nonempty : step.itemsOf "fields" ≠ []
  fields : ∀ f ∈ step.itemsOf "fields", IsCompleteBelow f

structure IsCompleteScreen (screen : Element) : Prop where
  fields : ∀ f ∈ screen.itemsOf "fields", IsCompleteBelow f
  sections : ∀ x ∈ screen.itemsOf "sections", ∀ f ∈ x.itemsOf "input_fields", IsCompleteBelow f
  steps : ∀ wizard, screen.attribute? "wizard" = some wizard →
    ∀ step ∈ wizard.itemsOf "steps", IsCompleteStep step

/-- Only the fields of components that provide fields have to be complete. -/
def IsCompleteComponent (component : Element) : Prop :=
  component.attribute? "type" = some (.text ComponentType.fieldGroup.tag) →
    ∀ f ∈ component.itemsOf "fields", IsCompleteBelow f

def IsCompleteEntry : CollectionKind → Element → Prop
  | .screens => IsCompleteScreen
  | .components => IsCompleteComponent
  | .rules => fun _ => True

theorem isCompleteBelow_of_mem_itemsOf
    {t : RecordType} (ht : ∀ f, t ≠ .field f) {raw : Entries}
    (hraw : ∀ e ∈ raw, e.2.isRaw = true) {e : Element} (hread : ReadsAs (.record t) (.map raw) e)
    {a : Attribute} (ha : a ∈ t.attributes) (hsingle : a.spellings = [a.name])
    (hkinds : a.shape.kinds = [.listOf .field]) {settings : Settings}
    (hmay : raw.MayHave a.name (Rules.IsField settings)) :
    ∀ f ∈ e.itemsOf a.name, IsCompleteBelow f := by
  intro f hf
  obtain ⟨v, hv, hfield, hvf⟩ := exists_of_mem_itemsOf ht hread ha hsingle hkinds hraw hmay hf
  exact isCompleteBelow_of_readsAs hfield hv hvf

/-! ## Screens that are read -/

section Screen

variable {settings : Settings} {raw : Entries} {parts : List (String × Value)}

/-- A table that is made from names of columns is a field of the strict grammar. -/
theorem isField_tableOf
    (labels filterLabels : List String) (name : String) :
    Rules.IsField settings (Canonical.tableOf settings labels filterLabels name) := by
  have htag : FieldType.ofTag "data_table" = .dataTable := rfl
  refine .single ⟨fun _ => ?_, ?_, fun _ => ?_, fun tag ht hselect => ?_⟩ rfl
  · intro key hkey
    rw [List.mem_singleton.mp hkey]
    rfl
  · intro key hkey
    rw [List.mem_singleton.mp hkey]
    rfl
  · intro key hkey
    rw [List.mem_singleton.mp hkey]
    rfl
  · have hsame : tag = "data_table" := by
      have hsome : some "data_table" = some tag := ht
      exact (Option.some.inj hsome).symm
    rw [hsame, htag] at hselect
    cases hselect

variable (hscreen : Rules.IsScreen settings raw) (hparts : Canonical.HasContent settings raw parts)

include hscreen hparts

/-- The fields in the canonical form of a strict screen are strict, wherever they are from. -/
theorem mayHave_fields :
    Entries.MayHave "fields" (Rules.IsField settings)
      (Entries.named (Canonical.screenAttributes raw parts)) := by
  have hgetD : Entries.getD "fields" (Entries.named (Canonical.screenAttributes raw parts)) =
      Entries.getD "fields" (Entries.named parts) := by
    rw [Entries.getD, Canonical.get?_screenAttributes_content raw parts (.inr rfl), Entries.getD]
  intro hpresent
  rw [hgetD] at hpresent ⊢
  cases hparts with
  | @sections first rest hsections =>
      refine ⟨_, rfl, fun v hv => ?_⟩
      obtain ⟨s, hs, hmem⟩ := List.mem_flatMap.mp hv
      obtain ⟨s', heq, hsection⟩ :=
        hscreen.sections.forall_items hsections (.map s) (List.mem_map_of_mem hs)
      cases heq
      unfold Canonical.ownFields at hmem
      cases hinput : (s.getD "input_fields").items? with
      | none =>
          rw [hinput] at hmem
          cases hmem
      | some inputs =>
          rw [hinput] at hmem
          exact hsection.fields.forall_items hinput v hmem
  | @fields items hlacks hfields =>
      exact ⟨_, rfl, hscreen.fields.forall_items hfields⟩
  | columns hlacks hfields hcolumns htable =>
      refine ⟨_, rfl, fun v hv => ?_⟩
      obtain ⟨-, rfl⟩ := Canonical.table_eq_ok_iff.mp htable
      rw [List.mem_singleton.mp hv]
      exact isField_tableOf _ _ _
  | @inputFields items hlacks hfields hinput =>
      exact ⟨_, rfl, hscreen.inputFields.forall_items hinput⟩
  | nothing hlacks hfields => cases hpresent

theorem mayHave_sections :
    Entries.MayHave "sections" (Value.IsMapOf (Rules.IsSection settings))
      (Entries.named (Canonical.screenAttributes raw parts)) := by
  have hgetD : Entries.getD "sections" (Entries.named (Canonical.screenAttributes raw parts)) =
      Entries.getD "sections" (Entries.named parts) := by
    rw [Entries.getD, Canonical.get?_screenAttributes_content raw parts (.inl rfl), Entries.getD]
  intro hpresent
  rw [hgetD] at hpresent ⊢
  cases hparts with
  | @sections first rest hsections =>
      refine ⟨_, rfl, ?_⟩
      rw [List.forall_mem_map]
      intro s hs
      obtain ⟨s', heq, hsection⟩ :=
        hscreen.sections.forall_items hsections (.map s) (List.mem_map_of_mem hs)
      cases heq
      have hkept (name : String) (hname : name ∈ Canonical.sectionNames) :
          Entries.getD name (Entries.named (Canonical.pick Canonical.sectionNames s)) =
            s.getD name := Canonical.getD_pick hname
      refine ⟨_, rfl, ?_, ?_⟩
      · intro key hkey
        rw [List.mem_singleton.mp hkey, hkept "section_name" (by decide)]
        exact hsection.named "section_name" (by decide)
      · unfold Entries.MayHave
        rw [hkept "input_fields" (by decide)]
        exact hsection.fields
  | _ => cases hpresent

end Screen

theorem isCompleteStep_of_readsAs
    {settings : Settings} {wraw : Entries} (hraw : ∀ e ∈ wraw, e.2.isRaw = true)
    (hwizard : Rules.IsWizard settings wraw) {wizard : Element}
    (hread : ReadsAs (.record .wizard) (.map wraw) wizard) :
    ∀ step ∈ wizard.itemsOf "steps", IsCompleteStep step := by
  intro step hstep
  obtain ⟨v, hv, ⟨sraw, rfl, hrules⟩, hvstep⟩ := exists_of_mem_itemsOf (by simp) hread
    (a := .need "steps" (.listOf (.record .wizardStep))) (by decide) rfl rfl hraw hwizard.2 hstep
  have hsraw : ∀ e ∈ sraw, e.2.isRaw = true := (Value.isRaw_map sraw).mp hv
  obtain ⟨first, rest, hitems, hfields⟩ := hrules.fields
  have hmay : Entries.MayHave "fields" (Rules.IsField settings) sraw :=
    fun _ => ⟨_, hitems, hfields⟩
  have ha : Attribute.need "fields" (.listOf .field) ∈ RecordType.wizardStep.attributes := by
    decide
  refine ⟨?_, isCompleteBelow_of_mem_itemsOf (by simp) hsraw hvstep ha rfl rfl hmay⟩
  have hes := forall₂_itemsOf (by simp) hvstep ha rfl rfl hsraw
  have hget : (Entries.getD (Attribute.need "fields" (.listOf .field)).name sraw).items? =
      some (first :: rest) := hitems
  rw [hget] at hes
  intro hnil
  have hnil : step.itemsOf (Attribute.need "fields" (.listOf .field)).name = [] := hnil
  rw [hnil] at hes
  cases hes

theorem isCompleteScreen_of_readsAs
    {settings : Settings} {raw : Entries} (hraw : ∀ e ∈ raw, e.2.isRaw = true)
    (hscreen : Rules.IsScreen settings raw) {parts : List (String × Value)}
    (hparts : Canonical.HasContent settings raw parts) {s : Element}
    (hread : ReadsAs (.record .screen)
      (Canonical.object (Canonical.screenAttributes raw parts)) s) :
    IsCompleteScreen s := by
  have hall : ∀ x ∈ Entries.named (Canonical.screenAttributes raw parts), x.2.isRaw = true :=
    (Value.isRaw_map _).mp
      (Canonical.isRaw_screenAttributes ((Value.isRaw_map raw).mpr hraw) hparts)
  constructor
  · exact isCompleteBelow_of_mem_itemsOf (by simp) hall hread
      (a := .may "fields" (.listOf .field)) (by decide) rfl rfl (mayHave_fields hscreen hparts)
  · intro x hx
    obtain ⟨v, hv, ⟨sraw, rfl, hsection⟩, hvx⟩ := exists_of_mem_itemsOf (by simp) hread
      (a := .may "sections" (.listOf (.record .formSection))) (by decide) rfl rfl hall
      (mayHave_sections hscreen hparts) hx
    exact isCompleteBelow_of_mem_itemsOf (by simp) ((Value.isRaw_map sraw).mp hv) hvx
      (a := .may "input_fields" (.listOf .field)) (by decide) rfl rfl hsection.fields
  · intro wizard hwizard
    obtain ⟨exact, hread⟩ := hread
    obtain ⟨f, hf, hreads⟩ := exists_attribute? (by simp) hread
      (a := .may "wizard" (.record .wizard)) (by decide)
    have hsame : f = wizard := Option.some.inj (hf.symm.trans hwizard)
    subst hsame
    have hget := Canonical.get?_screenAttributes_kept hparts
      (show "wizard" ∈ Canonical.screenNames by decide)
    rw [reads_iff_of_single rfl] at hreads
    simp only [Attribute.may, Attribute.of, hget] at hreads
    by_cases hpresent : (raw.getD "wizard").isPresent = true
    · rw [if_pos hpresent] at hreads
      obtain ⟨wraw, heq, hrules⟩ := hscreen.wizard (by simpa [Entries.Has] using hpresent)
      have hwraw : (Value.map wraw).isRaw = true := heq ▸ Entries.isRaw_getD hraw
      obtain ⟨exact', hvalue⟩ := hreads
      rw [heq] at hvalue
      exact isCompleteStep_of_readsAs ((Value.isRaw_map wraw).mp hwraw) hrules ⟨exact', hvalue⟩
    · rw [if_neg hpresent] at hreads
      cases hreads
      intro step hstep
      cases hstep

theorem isCompleteComponent_of_readsAs
    {settings : Settings} {raw : Entries} (hraw : ∀ e ∈ raw, e.2.isRaw = true)
    (hcomponent : Rules.IsComponent settings raw) {e : Element}
    (hread : ReadsAs (.record .component) (.map raw) e) :
    IsCompleteComponent e := by
  intro htype
  obtain ⟨t, ht, hfields, -⟩ := hcomponent.known
  have ha : Attribute.need "type" (.word ["field_group", "action_group", "layout", "template"]) ∈
      RecordType.component.attributes := by decide
  have hgroup : t = .fieldGroup := by
    obtain ⟨exact, hread⟩ := hread
    obtain ⟨f, hf, hreads⟩ := exists_attribute? (by simp) hread ha
    have hsame : f = .text ComponentType.fieldGroup.tag :=
      Option.some.inj (hf.symm.trans htype)
    subst hsame
    rw [reads_iff_of_single rfl] at hreads
    have hpresent : (raw.getD "type").isPresent = true := hcomponent.named "type" (by decide)
    have hget : Entries.get? (Attribute.need "type" (.word ["field_group", "action_group",
        "layout", "template"])).name raw = some (raw.getD "type") :=
      Entries.get?_of_isPresent hpresent
    rw [hget] at hreads
    obtain ⟨exact', hvalue⟩ := hreads
    obtain ⟨x, htext, heq⟩ := eq_text_of_ofValue hvalue
    cases heq
    rw [htext] at ht
    exact (Option.some.inj ht).symm
  exact isCompleteBelow_of_mem_itemsOf (by simp) hraw hread
    (a := .may "fields" (.listOf .field)) (by decide) rfl rfl (hfields hgroup)
/-- The canonical form of a listed component is a strict component without fields. -/
theorem isComponent_of_listed
    (settings : Settings) {raw : Entries} (hhas : raw.Has ["component_name"]) :
    Rules.IsComponent settings (Entries.named (Canonical.pick ["description", "used_in"] raw ++
      [("name", raw.getD "component_name"), ("type", .text ComponentType.fieldGroup.tag)])) := by
  have hget (name : String) (hname : name ∉ ["description", "used_in"]) :
      Entries.getD name (Entries.named (Canonical.pick ["description", "used_in"] raw ++
        [("name", raw.getD "component_name"), ("type", .text ComponentType.fieldGroup.tag)])) =
      Entries.getD name (Entries.named [("name", raw.getD "component_name"),
        ("type", .text ComponentType.fieldGroup.tag)]) := by
    have hnone : Entries.get? name (Entries.named (Canonical.pick ["description", "used_in"] raw)) =
        none := by
      rw [Canonical.get?_pick, if_neg fun h => hname h.1]
    unfold Entries.getD
    rw [Entries.named_append, Entries.get?_append, hnone, Option.none_or]
  refine ⟨?_, .fieldGroup, ?_, fun _ hpresent => ?_, fun hgroup => by cases hgroup⟩
  · intro key hkey
    rcases List.mem_cons.mp hkey with rfl | hkey
    · rw [hget "name" (by decide)]
      exact hhas "component_name" (List.mem_singleton_self _)
    · rw [List.mem_singleton.mp hkey, hget "type" (by decide)]
      rfl
  · rw [hget "type" (by decide)]
    rfl
  · rw [hget "fields" (by decide)] at hpresent
    cases hpresent

/-- What is read from the canonical form of a strict entry is complete. -/
theorem isCompleteEntry_of_readsAs
    {settings : Settings} {kind : CollectionKind} {c : Collection} {v w : Value}
    (hraw : v.isRaw = true) (hentry : Rules.IsEntry settings kind c v)
    (hstrict : kind = .screens → Rules.IsKeyed settings kind v)
    (hw : Canonical.entryOf settings kind c v = .ok w) {e : Element}
    (hread : ReadsAs (.record (Canonical.entryType kind)) w e) :
    IsCompleteEntry kind e := by
  cases kind with
  | screens =>
      obtain ⟨raw, rfl, hscreen⟩ := hstrict rfl
      obtain ⟨parts, hparts, rfl⟩ :=
        Canonical.screen_eq_ok (Canonical.isWalkable_of_isScreen hscreen)
          (Canonical.entryOf_screens settings c _ ▸ hw)
      exact isCompleteScreen_of_readsAs ((Value.isRaw_map raw).mp hraw) hscreen hparts hread
  | components =>
      cases c with
      | keyed entries =>
          obtain ⟨raw, rfl, hcomponent⟩ := hentry
          cases hw
          exact isCompleteComponent_of_readsAs ((Value.isRaw_map raw).mp hraw) hcomponent hread
      | listed items =>
          have hall := Canonical.isRaw_of_entryOf hraw hentry hw
          obtain ⟨raw, rfl, hhas⟩ := hentry
          rw [Canonical.entryOf, Canonical.listedEntry, Canonical.listedComponent_eq_ok hhas,
            Except.ok.injEq] at hw
          rw [← hw] at hread hall
          exact isCompleteComponent_of_readsAs ((Value.isRaw_map _).mp hall)
            (isComponent_of_listed settings hhas) hread
  | rules => trivial

end Element

end Wireframe
