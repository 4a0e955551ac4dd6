import Mathlib.Tactic
import Wireframe.Proofs.CompleteEntries

/-!
# The strict grammar is closed

A document that is built from a checked tree with its screens by name has no findings in
its plain tree, with nulls kept or left out.  So what the strict rules ask for is there in
the document: titles, destinations, fields to repeat and options, apart from the fields of
components that do not provide fields, which the rules do not look into.
-/

namespace Wireframe

namespace Element

open Reading

section ToValue

variable (settings : Settings) (nulls : Bool)

theorem mayHave_of_absent
    {t : RecordType} (ht : t ≠ .field .unrecognized) {e : Element} {raw : Entries}
    (hdump : IsDump nulls t e raw) {name : String} (hname : name ∉ t.names) {P : Value → Prop} :
    raw.MayHave name P := by
  intro hpresent
  rw [hdump.absent ht name hname] at hpresent
  cases hpresent

theorem hasItems_of_dump
    {t : RecordType} {e : Element} {raw : Entries} (hdump : IsDump nulls t e raw)
    {a : Attribute} (ha : a ∈ t.attributes) {k : Kind} (hkinds : a.shape.kinds = [.listOf k])
    {P : Value → Prop} (hnonempty : e.itemsOf a.name ≠ [])
    (hitems : ∀ x ∈ e.itemsOf a.name, Fits (.one k) x → P (x.toValue nulls)) :
    raw.HasItems a.name P := by
  rcases exists_items_of_dump hdump ha hkinds with ⟨-, he, -⟩ | ⟨items, he, hget, hfits⟩
  · rw [itemsOf, he] at hnonempty
    exact absurd rfl hnonempty
  · have hitemsOf : e.itemsOf a.name = items := by rw [itemsOf, he]; rfl
    rw [hitemsOf] at hnonempty hitems
    obtain ⟨first, rest, rfl⟩ := List.exists_cons_of_ne_nil hnonempty
    refine ⟨first.toValue nulls, rest.map (toValue nulls), by rw [hget]; rfl, ?_⟩
    rw [← List.map_cons, List.forall_mem_map]
    exact fun x hx => hitems x hx (hfits x hx)

theorem isAction_toValue
    {e : Element} (hfits : Fits (.one .action) e) :
    (e.toValue nulls).IsMapOf Rules.IsAction := by
  obtain ⟨f, attributes, extras, rfl, hrecord⟩ := hfits.admits_one
  have hdump := hrecord.isDump nulls
  have htag := tag_of_action hrecord rfl nulls
  have hneeds : ∀ name ∈ ["id", "type", "label"], (RecordType.action f).Needs name := by
    cases f <;> decide
  refine ⟨_, hdump.toValue, hdump.has hneeds, f, ?_, ?_⟩
  · rw [htag]
    exact ActionType.ofTag?_tag f
  · rintro rfl
    exact hdump.has (by decide)

theorem mayHave_isField
    {t : RecordType} {e : Element} {raw : Entries} (hdump : IsDump nulls t e raw)
    {a : Attribute} (ha : a ∈ t.attributes) (hkinds : a.shape.kinds = [.listOf .field])
    (hcomplete : ∀ f ∈ e.itemsOf a.name, IsCompleteBelow f) :
    raw.MayHave a.name (Rules.IsField settings) := by
  refine mayHave_of_dump hdump ha hkinds fun items he f hf hfits => ?_
  have hitemsOf : e.itemsOf a.name = items := by rw [itemsOf, he]; rfl
  exact isField_toValue settings nulls (hcomplete f (hitemsOf ▸ hf)) hfits

theorem isWizard_of_isDump
    {wizard : Element} {raw : Entries} (hdump : IsDump nulls .wizard wizard raw)
    (hsteps : ∀ step ∈ wizard.itemsOf "steps", IsCompleteStep step) :
    Rules.IsWizard settings raw := by
  refine ⟨hdump.has (by decide), ?_⟩
  refine mayHave_of_dump hdump (a := .need "steps" (.listOf (.record .wizardStep))) (by decide)
    rfl fun items he step hstep hfits => ?_
  have he : wizard.attribute? "steps" = some (.list items) := he
  have hcomplete := hsteps step (by rw [itemsOf, he]; exact hstep)
  obtain ⟨sraw, hsdump⟩ := exists_isDump hfits nulls
  refine ⟨sraw, hsdump.toValue, hsdump.has (by decide), ?_⟩
  exact hasItems_of_dump nulls hsdump (a := .need "fields" (.listOf .field)) (by decide) rfl
    hcomplete.nonempty fun f hf => isField_toValue settings nulls (hcomplete.fields f hf)

theorem isScreen_toValue
    {s : Element} (hfits : Fits (.one (.record .screen)) s) (hcomplete : IsCompleteScreen s) :
    (s.toValue nulls).IsMapOf (Rules.IsScreen settings) := by
  obtain ⟨raw, hdump⟩ := exists_isDump hfits nulls
  have hnone (name : String) (hname : name ∉ RecordType.screen.names) (P : Value → Prop) :
      raw.MayHave name P := mayHave_of_absent nulls (by simp) hdump hname
  refine ⟨raw, hdump.toValue, hdump.has (by decide), ?_, ?_, ?_, hnone _ (by decide) _,
    hnone _ (by decide) _, hnone _ (by decide) _, ?_⟩
  · intro hpresent
    obtain ⟨wizard, hwizard, hfit, hget⟩ :=
      hdump.written (.may "wizard" (.record .wizard)) (by decide)
    have hget : raw.getD "wizard" = wizard.toValue nulls := hget
    have hpresent := hpresent "wizard" (List.mem_singleton_self _)
    rw [hget] at hpresent ⊢
    rcases hfit.admits_of_single rfl with ⟨-, rfl⟩ | ⟨attributes, extras, rfl, hrecord⟩
    · cases hpresent
    · have hwdump := hrecord.isDump nulls
      exact ⟨_, hwdump.toValue,
        isWizard_of_isDump settings nulls hwdump (hcomplete.steps _ hwizard)⟩
  · refine mayHave_of_dump hdump (a := .may "sections" (.listOf (.record .formSection)))
      (by decide) rfl fun items he x hx hfits => ?_
    have he : s.attribute? "sections" = some (.list items) := he
    obtain ⟨sraw, hsdump⟩ := exists_isDump hfits nulls
    refine ⟨sraw, hsdump.toValue, hsdump.has (by decide), ?_⟩
    exact mayHave_isField settings nulls hsdump (a := .may "input_fields" (.listOf .field))
      (by decide) rfl (hcomplete.sections x (by rw [itemsOf, he]; exact hx))
  · exact mayHave_isField settings nulls hdump (a := .may "fields" (.listOf .field)) (by decide)
      rfl hcomplete.fields
  · exact mayHave_of_dump hdump (a := .may "actions" (.listOf .action)) (by decide) rfl
      fun _ _ _ _ hfits => isAction_toValue nulls hfits

theorem isComponent_toValue
    {e : Element} (hfits : Fits (.one (.record .component)) e) (hcomplete : IsCompleteComponent e) :
    (e.toValue nulls).IsMapOf (Rules.IsComponent settings) := by
  obtain ⟨raw, hdump⟩ := exists_isDump hfits nulls
  have ha : Attribute.need "type" (.word ["field_group", "action_group", "layout", "template"]) ∈
      RecordType.component.attributes := by decide
  obtain ⟨f, hf, hfit, hget⟩ := hdump.written _ ha
  obtain ⟨x, hx, rfl⟩ := hfit.admits_one
  have hget : raw.getD "type" = .text x := hget
  have htype : ∃ t : ComponentType, Rules.componentType? (.text x) = some t ∧ x = t.tag := by
    simp only [List.mem_cons, List.not_mem_nil, or_false] at hx
    rcases hx with rfl | rfl | rfl | rfl
    · exact ⟨.fieldGroup, rfl, rfl⟩
    · exact ⟨.actionGroup, rfl, rfl⟩
    · exact ⟨.layout, rfl, rfl⟩
    · exact ⟨.template, rfl, rfl⟩
  obtain ⟨t, ht, hx⟩ := htype
  refine ⟨raw, hdump.toValue, hdump.has (by decide), t, hget ▸ ht, fun hgroup => ?_, fun _ => ?_⟩
  · have hfields := hcomplete (by rw [← hgroup, ← hx]; exact hf)
    exact mayHave_isField settings nulls hdump (a := .may "fields" (.listOf .field)) (by decide)
      rfl hfields
  · exact mayHave_of_dump hdump (a := .may "actions" (.listOf .action)) (by decide) rfl
      fun _ _ _ _ hfits => isAction_toValue nulls hfits

theorem isKeyed_toValue
    {kind : CollectionKind} {e : Element}
    (hfits : Fits (.one (.record (Canonical.entryType kind))) e)
    (hcomplete : IsCompleteEntry kind e) :
    Rules.IsKeyed settings kind (e.toValue nulls) := by
  cases kind with
  | screens => exact isScreen_toValue settings nulls hfits hcomplete
  | components => exact isComponent_toValue settings nulls hfits hcomplete
  | rules =>
      obtain ⟨raw, hdump⟩ := exists_isDump hfits nulls
      exact ⟨raw, hdump.toValue, hdump.has (by decide)⟩

/-- The plain tree of a document with complete entries has no findings. -/
theorem root_toValue
    {root : Element} (hfits : Fits (.one (.record .document)) root)
    (hcomplete : ∀ (kind : CollectionKind) (table : List (String × Element)),
      root.attribute? kind.name = some (.table table) → ∀ x ∈ table, IsCompleteEntry kind x.2) :
    Rules.root settings (root.toValue nulls) = [] := by
  obtain ⟨raw, hdump⟩ := exists_isDump hfits nulls
  refine Rules.root_eq_nil_iff.mpr ⟨raw, hdump.toValue, fun kind => ?_⟩
  obtain ⟨a, ha, hname, hkinds, hnullable⟩ := Canonical.exists_documentAttribute kind
  obtain ⟨e, he, hfit, hget⟩ := hdump.written a ha
  rw [hname] at he hget
  unfold Rules.HasCollection
  rcases hfit.admits_of_single hkinds with ⟨hnull, rfl⟩ | ⟨table, rfl, hnodup, hentries⟩
  · have hnone : Collection.ofValue? (raw.getD kind.name) = none := by rw [hget]; rfl
    have hoptional : kind.isRequired = false := by simpa [hnull] using hnullable
    simp only [hnone]
    exact ⟨by rw [hget]; rfl, hoptional⟩
  · rw [toValue_table] at hget
    rw [hget]
    have hsteps : (Collection.keyed (Entries.named
        (table.map fun x => (x.1, x.2.toValue nulls)))).steps =
          table.map fun x => (Step.name x.1, x.2.toValue nulls) := by
      simp only [Collection.steps, Entries.named, List.map_map]
      rfl
    simp only [Collection.ofValue?, hsteps, List.map_map, List.forall_mem_map]
    refine ⟨?_, fun x hx => ?_⟩
    · have hnames : table.map (Prod.fst ∘ fun x => (Step.name x.1, x.2.toValue nulls)) =
          (table.map Prod.fst).map Step.name := by rw [List.map_map]; rfl
      rw [hnames]
      exact hnodup.map fun _ _ h => Step.name.inj h
    · exact isKeyed_toValue settings nulls (hentries x hx) (hcomplete kind table he x hx)

end ToValue

theorem exists_text
    {t : RecordType} {e : Element} (hfits : Fits (.one (.record t)) e) {name : String}
    (hname : ∃ a ∈ t.attributes, a.name = name ∧ a.shape = .one .text) :
    ∃ x, e.attribute? name = some (.text x) := by
  obtain ⟨a, ha, rfl, hshape⟩ := hname
  obtain ⟨raw, hdump⟩ := exists_isDump hfits true
  obtain ⟨f, hf, hfit, -⟩ := hdump.written a ha
  rw [hshape] at hfit
  obtain ⟨x, rfl⟩ := hfit.admits_one
  exact ⟨x, hf⟩

theorem fits_of_mem_itemsOf
    {t : RecordType} {e : Element} (hfits : Fits (.one (.record t)) e)
    {a : Attribute} (ha : a ∈ t.attributes) {k : Kind} (hkinds : a.shape.kinds = [.listOf k])
    {x : Element} (hx : x ∈ e.itemsOf a.name) :
    Fits (.one k) x := by
  obtain ⟨raw, hdump⟩ := exists_isDump hfits true
  rcases exists_items_of_dump hdump ha hkinds with ⟨-, he, -⟩ | ⟨items, he, -, hitems⟩
  · rw [itemsOf, he] at hx
    cases hx
  · rw [itemsOf, he] at hx
    exact hitems x hx

theorem isComplete_of_mem_fieldsOfItems
    {items : List Element} (hitems : ∀ e ∈ items, IsCompleteBelow e) :
    ∀ f ∈ fieldsOfItems items, f.IsComplete := by
  intro f hf
  obtain ⟨e, he, hbelow⟩ := mem_fieldsOfItems hf
  exact isComplete_of_mem_fieldsBelow (hitems e he) f hbelow

/-- The fields that are written on a screen: its own, those of the steps of its wizard and
those of its sections. -/
def writtenFields (screen : Element) : List Element :=
  screen.allFields ++ (screen.itemsOf "sections").flatMap (itemsOf "input_fields")

theorem IsCompleteScreen.isCompleteBelow
    {screen : Element} (hcomplete : IsCompleteScreen screen) :
    ∀ f ∈ screen.writtenFields, IsCompleteBelow f := by
  intro f hf
  simp only [writtenFields, allFields, List.mem_append] at hf
  rcases hf with (hfield | hstep) | hsection
  · exact hcomplete.fields f hfield
  · cases hwizard : screen.attribute? "wizard" with
    | none =>
        rw [hwizard] at hstep
        cases hstep
    | some wizard =>
        rw [hwizard] at hstep
        obtain ⟨step, hmem, hf⟩ := List.mem_flatMap.mp hstep
        exact (hcomplete.steps wizard hwizard step hmem).fields f hf
  · obtain ⟨x, hx, hf⟩ := List.mem_flatMap.mp hsection
    exact hcomplete.sections x hx f hf

theorem exists_destination
    {t : RecordType} {e : Element} (hfits : Fits (.one (.record t)) e)
    (ha : .may "actions" (.listOf .action) ∈ t.attributes) {x : Element}
    (hx : x ∈ e.itemsOf "actions") (hnavigate : x.type? = some (.action .navigate)) :
    ∃ destination, x.attribute? "to" = some (.text destination) := by
  obtain ⟨f, attributes, extras, rfl, hrecord⟩ := (fits_of_mem_itemsOf hfits ha rfl hx).admits_one
  have hf : f = .navigate := by simpa [type?] using hnavigate
  subst hf
  obtain ⟨a, ha, hname, hshape⟩ : ∃ a ∈ (RecordType.action .navigate).attributes,
      a.name = "to" ∧ a.shape = .one .text := by decide
  obtain ⟨g, hg, hfit, -⟩ := (hrecord.isDump true).written a ha
  rw [hshape] at hfit
  obtain ⟨destination, rfl⟩ := hfit.admits_one
  exact ⟨destination, hname ▸ hg⟩

end Element

namespace Document

open Element Reading

/-- What the strict rules ask for is there in a document. -/
structure IsStrict (d : Document) : Prop where
  titles : ∀ x ∈ d.collection .screens, ∃ title, x.2.attribute? "title" = some (.text title)
  fields : ∀ x ∈ d.collection .screens, ∀ f ∈ fieldsOfItems x.2.writtenFields, f.IsComplete
  steps : ∀ x ∈ d.collection .screens, ∀ wizard, x.2.attribute? "wizard" = some wizard →
    ∀ step ∈ wizard.itemsOf "steps", (∃ id, step.attribute? "id" = some (.text id)) ∧
      (∃ title, step.attribute? "title" = some (.text title)) ∧ step.itemsOf "fields" ≠ []
  groups : ∀ x ∈ d.collection .components,
    x.2.attribute? "type" = some (.text ComponentType.fieldGroup.tag) →
      ∀ f ∈ fieldsOfItems (x.2.itemsOf "fields"), f.IsComplete
  destinations : ∀ kind ∈ [CollectionKind.screens, .components], ∀ x ∈ d.collection kind,
    ∀ action ∈ x.2.itemsOf "actions", action.type? = some (.action .navigate) →
      ∃ destination, action.attribute? "to" = some (.text destination)

theorem fits_of_mem_collection
    {d : Document} (hfits : Fits (.one (.record .document)) d.root) {kind : CollectionKind}
    {x : String × Element} (hx : x ∈ d.collection kind) :
    Fits (.one (.record (Canonical.entryType kind))) x.2 := by
  obtain ⟨table, htable, hmem⟩ := exists_table_of_mem hx
  obtain ⟨raw, hdump⟩ := exists_isDump hfits true
  obtain ⟨a, ha, hname, hkinds, -⟩ := Canonical.exists_documentAttribute kind
  rcases (hdump.fits ha (hname ▸ htable)).admits_of_single hkinds with
    ⟨-, hnull⟩ | ⟨entries, heq, -, hentries⟩
  · cases hnull
  · cases heq
    exact hentries x hmem

/-- Documents with complete entries are strict. -/
theorem isStrict_of_complete
    {d : Document} (hfits : Fits (.one (.record .document)) d.root)
    (hcomplete : ∀ (kind : CollectionKind), ∀ x ∈ d.collection kind, IsCompleteEntry kind x.2) :
    d.IsStrict where
  titles x hx := exists_text (fits_of_mem_collection hfits hx) (by decide)
  fields x hx := isComplete_of_mem_fieldsOfItems (hcomplete .screens x hx).isCompleteBelow
  steps x hx wizard hwizard step hstep := by
    obtain ⟨raw, hdump⟩ := exists_isDump (fits_of_mem_collection hfits hx) true
    have hfit := hdump.fits (a := .may "wizard" (.record .wizard)) (by decide) hwizard
    have hstepFits : Fits (.one (.record .wizardStep)) step := by
      rcases hfit.admits_of_single rfl with ⟨-, rfl⟩ | ⟨attributes, extras, rfl, hrecord⟩
      · cases hstep
      · exact fits_of_mem_itemsOf hrecord.fits_record
          (a := .need "steps" (.listOf (.record .wizardStep))) (by decide) rfl hstep
    exact ⟨exists_text hstepFits (by decide), exists_text hstepFits (by decide),
      ((hcomplete .screens x hx).steps wizard hwizard step hstep).nonempty⟩
  groups x hx htype := isComplete_of_mem_fieldsOfItems (hcomplete .components x hx htype)
  destinations kind hkind x hx action haction hnavigate := by
    have hentry := fits_of_mem_collection hfits hx
    refine exists_destination hentry ?_ haction hnavigate
    rcases List.mem_cons.mp hkind with rfl | hkind
    · decide
    · rw [List.mem_singleton.mp hkind]
      decide

/-- A document that is built from a checked tree with its screens by name is strict, and so
is its plain tree, with nulls kept or left out. -/
theorem strict_closure
    {settings : Settings} {positions : Positions} {document screens : Entries}
    (hraw : (Value.map document).isRaw = true) (hview : document.getD "view" = .map screens)
    (hcheck : (Value.map document).check settings positions = .ok [])
    {canonical : Value} {renamings : List Renaming}
    (hrestructure :
      Canonical.restructure settings (.map document) = .ok (canonical, renamings))
    {d : Document} (hbuild : build canonical = .ok d) :
    (∀ nulls, Rules.root settings (d.toValue nulls) = []) ∧ d.IsStrict := by
  have hroot := Value.root_eq_nil_of_check hcheck
  obtain ⟨exact, hread⟩ := build_eq_ok_iff.mp hbuild
  have hfits := fits_of_ofValue (Canonical.isRaw_restructure hraw hroot hrestructure) hread
  have hcomplete : ∀ (kind : CollectionKind) (table : List (String × Element)),
      d.root.attribute? kind.name = some (.table table) →
        ∀ x ∈ table, IsCompleteEntry kind x.2 := by
    intro kind table htable x hx
    obtain ⟨c, v, w, hc, hv, hentry, hok, hreads⟩ := Canonical.exists_entry_of_build
      ((Value.isRaw_map document).mp hraw) hroot hrestructure hread kind htable hx
    refine isCompleteEntry_of_readsAs hv hentry (fun hkind => ?_) hok hreads
    subst hkind
    have hkeyed : c = .keyed screens := by
      have hview : document.getD CollectionKind.screens.name = .map screens := hview
      rw [hview] at hc
      exact (Option.some.inj hc).symm
    subst hkeyed
    exact hentry
  refine ⟨fun nulls => root_toValue settings nulls hfits hcomplete, ?_⟩
  refine isStrict_of_complete hfits fun kind x hx => ?_
  obtain ⟨table, htable, hmem⟩ := exists_table_of_mem hx
  exact hcomplete kind table htable x hmem

/-- A screen with a wizard whose only field repeats a choice. -/
def survey : Entries :=
  Entries.named [("view", Canonical.object [("survey", Canonical.object [
    ("title", .text "Survey"), ("wizard", Canonical.object [("steps", .list [
      Canonical.object [("id", .text "first"), ("title", .text "First"), ("fields", .list [
        Canonical.object [("id", .text "guests"), ("label", .text "Guests"),
          ("type", .text "repeater"), ("item_fields", .list [
            Canonical.object [("id", .text "meal"), ("label", .text "Meal"),
              ("type", .text "select"), ("options", .text "meals")]])]])]])])])])]

theorem strict_closure_survey :
    ∃ d, (∀ nulls, Rules.root .default (toValue nulls d) = []) ∧ d.IsStrict :=
  ⟨_, @strict_closure .default [] survey _ rfl rfl rfl _ _ rfl _ rfl⟩

/-- A component that lays out a choice without options. -/
def layoutOnly : Value :=
  Canonical.object [("view", Canonical.object []), ("common_components", Canonical.object [
    ("panel", Canonical.object [("name", .text "panel"), ("type", .text "layout"),
      ("fields", .list [Canonical.object [("id", .text "color"), ("label", .text "Color"),
        ("type", .text "select")]])])])]

/-- Components that do not provide fields may hold choices without options. -/
theorem exists_incomplete_layoutOnly :
    ∃ canonical d x f, layoutOnly.check .default [] = .ok [] ∧
      Canonical.restructure .default layoutOnly = .ok (canonical, []) ∧
        build canonical = .ok d ∧ x ∈ d.collection .components ∧
          f ∈ fieldsOfItems (x.2.itemsOf "fields") ∧ f.type? = some (.field .select) ∧
            f.attribute? "options" = some (.list []) :=
  ⟨_, _, _, _, rfl, rfl, rfl, List.mem_singleton_self _, List.mem_singleton_self _, rfl, rfl⟩

end Document

end Wireframe
