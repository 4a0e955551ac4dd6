import Mathlib.Tactic
import Wireframe.Proofs.FreeKeys
import Wireframe.Proofs.PartFaults
import Wireframe.Proofs.ReadableRecords
import Wireframe.Proofs.ScreenContent

/-!
# Tables from names of columns

No rule checks the table that is made from names of columns before it is read as a field.  It
can be read because each of its entries can: columns and filters have texts for what they need,
and what the settings put in are integers.  So a document is not refused for such a table.  Only
a name that cannot be written keeps the table from being made.
-/

namespace Wireframe

namespace Canonical

open Element Reading

/-! ## Parts of a table -/

theorem numbered_injective (stem : String) : Function.Injective (numbered stem) :=
  Slug.variant_injective stem

/-- Things that are numbered and labelled one after the other are read with their labels, and
their identifiers are different. -/
theorem exists_labelled
    {α : Type} {k : Kind} {make : α → Nat → Value} {stem : String} {label : α → String}
    (hmake : ∀ x i, ∃ e, ReadsAs k (make x i) e ∧
      e.attribute? "id" = some (.text (numbered stem i)) ∧
      e.attribute? "label" = some (.text (label x)))
    (xs : List α) {s : Shape} (hkinds : s.kinds = [.listOf k]) :
    ∃ es, ofValue (.list (xs.zipIdx.map fun x => make x.1 x.2)) s = .ok ⟨.list es, true⟩ ∧
      es.map (attribute? "label") = xs.map (fun x => some (.text (label x))) ∧
      (es.map (attribute? "id")).Nodup := by
  have hall (n : Nat) : ∃ es, List.Forall₂ (fun x e => ReadsAs k (make x.1 x.2) e ∧
      e.attribute? "id" = some (.text (numbered stem x.2)) ∧
      e.attribute? "label" = some (.text (label x.1))) (xs.zipIdx n) es := by
    induction xs generalizing n with
    | nil => exact ⟨[], .nil⟩
    | cons x xs ih =>
        obtain ⟨e, he⟩ := hmake x n
        obtain ⟨es, hes⟩ := ih (n + 1)
        exact ⟨e :: es, .cons he hes⟩
  obtain ⟨es, hes⟩ := hall 0
  refine ⟨es, ?_, ?_, ?_⟩
  · refine (ofValue_list_eq_ok_iff hkinds).mpr ⟨rfl, es, rfl, ?_⟩
    rw [List.forall₂_map_left_iff]
    exact hes.imp fun _ _ h => h.1
  · rw [map_eq_map_of_forall₂ hes fun _ _ h => h.2.2]
    conv_rhs => rw [← List.zipIdx_map_fst 0 xs, List.map_map]
    rfl
  · have hids : es.map (attribute? "id") =
        (xs.zipIdx.map Prod.snd).map fun i => some (.text (numbered stem i)) := by
      rw [map_eq_map_of_forall₂ hes fun _ _ h => h.2.1, List.map_map]
      rfl
    rw [hids, List.zipIdx_map_snd]
    refine List.Nodup.map (fun i j h => ?_) List.nodup_range'
    exact numbered_injective stem (by simpa using h)

theorem exists_column (label : String) (place : Nat) :
    ∃ e, ReadsAs (.record .tableColumn) (column label place) e ∧
      e.attribute? "id" = some (.text (numbered "col" place)) ∧
      e.attribute? "label" = some (.text label) :=
  ⟨_, ⟨_, rfl⟩, rfl, rfl⟩

theorem exists_filterField (name : String) (place : Nat) :
    ∃ e, ReadsAs (.record .filterField) (filterField name place) e ∧
      e.attribute? "id" = some (.text (numbered "filter" place)) ∧
      e.attribute? "label" = some (.text name) :=
  ⟨_, ⟨_, rfl⟩, rfl, rfl⟩

theorem exists_paging (settings : Settings) :
    ∃ e, ReadsAs (.record .paging) (paging settings) e ∧
      e.attribute? "page_size" = some (.integer settings.pageSize) ∧
      e.attribute? "page_size_options" =
        some (.list (settings.pageSizeOptions.map Element.integer)) := by
  have hsizes {s : Shape} (hkinds : s.kinds = [.listOf .whole]) :
      ofValue (.list (settings.pageSizeOptions.map Value.integer)) s =
        .ok ⟨.list (settings.pageSizeOptions.map Element.integer), true⟩ := by
    refine (ofValue_list_eq_ok_iff hkinds).mpr ⟨rfl, _, rfl, ?_⟩
    rw [List.forall₂_map_left_iff, List.forall₂_map_right_iff, List.forall₂_same]
    exact fun _ _ => ⟨true, rfl⟩
  have hreadable : CanBeRead .paging [("enabled", .flag true),
      ("page_size", .integer settings.pageSize),
      ("page_size_options", .list (settings.pageSizeOptions.map Value.integer))] := by
    refine ⟨?_, by simp only [List.map_cons, List.map_nil]; decide⟩
    simp only [List.forall_mem_cons, List.not_mem_nil, false_implies, implies_true, and_true]
    exact ⟨⟨(Shape.one .flag).orNull, _, by decide, rfl⟩,
      ⟨(Shape.one .whole).orNull, _, by decide, rfl⟩,
      ⟨(Shape.one (.listOf .whole)).orNull, _, by decide, hsizes rfl⟩⟩
  obtain ⟨e, hread, he⟩ := exists_readsAs_record hreadable (by simp)
  refine ⟨e, hread, ?_, ?_⟩
  · exact he.attribute?_eq (s := (Shape.one .whole).orNull) (by decide) rfl rfl
  · exact he.attribute?_eq (s := (Shape.one (.listOf .whole)).orNull) (by decide) rfl (hsizes rfl)

theorem exists_filters (settings : Settings) (names : List String) :
    ∃ e, ReadsAs (.record .filtering) (filters settings names) e ∧
      e.attribute? "show_search" = some (.flag (names.any settings.isSearch)) ∧
      (e.itemsOf "fields").map (attribute? "label") =
        (names.filter fun n => !settings.isSearch n).map (fun n => some (.text n)) := by
  obtain ⟨es, hes, hlabels, -⟩ := exists_labelled exists_filterField
    (names.filter fun n => !settings.isSearch n)
    (s := (Shape.one (.listOf (.record .filterField))).orNull) rfl
  have hreadable : CanBeRead .filtering [("enabled", .flag true),
      ("show_search", .flag ((names.filter fun n => !settings.isSearch n).length < names.length)),
      ("fields", .list ((names.filter fun n => !settings.isSearch n).zipIdx.map fun n =>
        filterField n.1 n.2))] := by
    refine ⟨?_, by simp only [List.map_cons, List.map_nil]; decide⟩
    simp only [List.forall_mem_cons, List.not_mem_nil, false_implies, implies_true, and_true]
    exact ⟨⟨(Shape.one .flag).orNull, _, by decide, rfl⟩,
      ⟨(Shape.one .flag).orNull, _, by decide, rfl⟩, ⟨_, _, by decide, hes⟩⟩
  obtain ⟨e, hread, he⟩ := exists_readsAs_record hreadable (by simp)
  refine ⟨e, hread, ?_, ?_⟩
  · rw [he.attribute?_eq (s := (Shape.one .flag).orNull) (by decide) rfl rfl]
    have hsearch : decide ((names.filter fun n => !settings.isSearch n).length < names.length) =
        names.any settings.isSearch := by
      rw [Bool.eq_iff_iff, decide_eq_true_eq, List.length_filter_lt_length_iff_exists,
        List.any_eq_true]
      simp
    rw [hsearch]
  · rw [itemsOf, he.attribute?_eq (by decide) rfl hes]
    exact hlabels

/-! ## Tables -/

/-- The entries of a table of these columns. -/
def tableEntries (settings : Settings) (labels : List String) (id label : String)
    (filtering : List (String × Value)) : List (String × Value) :=
  [("id", .text id), ("type", .text "data_table"), ("label", .text label),
    ("columns", .list (labels.zipIdx.map fun c => column c.1 c.2)), ("data", .list []),
    ("selection", .text "single"), ("pagination", paging settings), ("empty_state", emptyState),
    ("hoverable", .flag true), ("striped", .flag true)] ++ filtering

/-- What is written of the filters of a table. -/
def filteringOf (settings : Settings) (filterLabels : List String) : List (String × Value) :=
  if filterLabels.isEmpty then [] else [("filters", filters settings filterLabels)]

theorem exists_tableOf_eq (settings : Settings) (labels filterLabels : List String)
    (name : String) :
    ∃ id label, tableOf settings labels filterLabels name =
      object (tableEntries settings labels id label (filteringOf settings filterLabels)) :=
  ⟨_, _, rfl⟩

/-- A table with a column for each name and a filter for each filter name that is not for
search, with the page sizes of the settings and without rows. -/
structure IsTableOf (settings : Settings) (columns : List Value) (filterNames : Value)
    (e : Element) : Prop where
  type : e.type? = some (.field .dataTable)
  labels : (e.itemsOf "columns").map (attribute? "label") =
    columns.map fun name => some (.text name.render)
  ids : ((e.itemsOf "columns").map (attribute? "id")).Nodup
  rows : e.attribute? "data" = some (.list [])
  paging : ∃ p, e.attribute? "pagination" = some p ∧
    p.attribute? "page_size" = some (.integer settings.pageSize) ∧
    p.attribute? "page_size_options" =
      some (.list (settings.pageSizeOptions.map Element.integer))
  filters : match filterNames.items? with
    | none | some [] => e.attribute? "filters" = some .null
    | some names => ∃ f, e.attribute? "filters" = some f ∧
        f.attribute? "show_search" =
          some (.flag ((names.map Value.render).any settings.isSearch)) ∧
        (f.itemsOf "fields").map (attribute? "label") =
          ((names.map Value.render).filter fun n => !settings.isSearch n).map
            fun n => some (.text n)

theorem readable_filteringOf (settings : Settings) (filterLabels : List String) :
    ∀ x ∈ filteringOf settings filterLabels,
      ∃ s r, (RecordType.field .dataTable).Asks x.1 s ∧ ofValue x.2 s = .ok r := by
  unfold filteringOf
  split_ifs
  · simp
  · obtain ⟨f, hf, -⟩ := exists_filters settings filterLabels
    obtain ⟨exact, hread⟩ := ofValue_of_readsAs
      (s := (Shape.one (.record .filtering)).orNull) rfl rfl hf
    simp only [List.forall_mem_cons, List.not_mem_nil, false_implies, implies_true, and_true]
    exact ⟨(Shape.one (.record .filtering)).orNull, _, by decide, hread⟩

theorem readable_tableEntries (settings : Settings) (labels : List String) (id label : String)
    (filterLabels : List String) :
    CanBeRead (.field .dataTable)
      (tableEntries settings labels id label (filteringOf settings filterLabels)) := by
  obtain ⟨cs, hcolumns, -⟩ := exists_labelled exists_column labels
    (s := Shape.one (.listOf (.record .tableColumn))) rfl
  obtain ⟨p, hpaging, -⟩ := exists_paging settings
  obtain ⟨exact, hpaging⟩ := ofValue_of_readsAs (s := (Shape.one (.record .paging)).orNull) rfl rfl
    hpaging
  refine ⟨?_, fun a ha => .inr ((by decide : ∀ a ∈ (RecordType.field .dataTable).attributes,
    a.default ≠ .required) a ha)⟩
  rw [tableEntries, List.forall_mem_append]
  refine ⟨?_, readable_filteringOf settings filterLabels⟩
  simp only [List.forall_mem_cons, List.not_mem_nil, false_implies, implies_true, and_true]
  exact ⟨⟨Shape.one .text, _, by decide, rfl⟩,
    ⟨Shape.one (.word ["data_table"]), _, by decide, rfl⟩,
    ⟨Shape.one .text, _, by decide, rfl⟩, ⟨_, _, by decide, hcolumns⟩,
    ⟨(Shape.one (.listOf .row)).orNull, _, by decide, rfl⟩,
    ⟨(Shape.one (.word ["none", "single", "multiple"])).orNull, _, by decide, rfl⟩,
    ⟨_, _, by decide, hpaging⟩, ⟨(Shape.one (.record .emptyState)).orNull, _, by decide, rfl⟩,
    ⟨(Shape.one .flag).orNull, _, by decide, rfl⟩, ⟨(Shape.one .flag).orNull, _, by decide, rfl⟩⟩

theorem filters_of_isReadOf {settings : Settings} {labels filterLabels : List String}
    {id label : String} {e : Element}
    (he : IsReadOf (.field .dataTable)
      (tableEntries settings labels id label (filteringOf settings filterLabels)) e) :
    (filterLabels = [] → e.attribute? "filters" = some .null) ∧
      (filterLabels ≠ [] → ∃ f, e.attribute? "filters" = some f ∧
        f.attribute? "show_search" = some (.flag (filterLabels.any settings.isSearch)) ∧
        (f.itemsOf "fields").map (attribute? "label") =
          (filterLabels.filter fun n => !settings.isSearch n).map fun n => some (.text n)) := by
  constructor
  · rintro rfl
    obtain ⟨x, hx, hvalue⟩ := he.attributes (.may "filters" (.record .filtering)) (by decide)
    rw [Attribute.ReadsName] at hvalue
    cases hvalue
    exact hx
  · intro hne
    obtain ⟨f, hf, hsearch, hlabels⟩ := exists_filters settings filterLabels
    obtain ⟨exact, hread⟩ := ofValue_of_readsAs
      (s := (Shape.one (.record .filtering)).orNull) rfl rfl hf
    refine ⟨f, he.attribute?_eq (by decide) ?_ hread, hsearch, hlabels⟩
    rw [filteringOf, if_neg (by simpa using hne)]
    rfl

/-- Whatever names of columns, filters and screen there are, the table that is made from them is
read as a field. -/
theorem exists_table {settings : Settings} {columns : List Value}
    {filterNames screenName t : Value}
    (htable : table settings columns filterNames screenName = .ok t) :
    ∃ e, ofValue t (.one .field) = .ok ⟨e, true⟩ ∧
      IsTableOf settings columns filterNames e := by
  obtain ⟨-, rfl⟩ := table_eq_ok_iff.mp htable
  generalize hfilters : (filterNames.items?.getD []).map Value.render = filterLabels
  generalize hlabelled : columns.map Value.render = labels
  obtain ⟨id, label, heq⟩ := exists_tableOf_eq settings labels filterLabels (nameOf screenName)
  have hreadable := readable_tableEntries settings labels id label filterLabels
  obtain ⟨e, hread, he⟩ := exists_readRecord hreadable (by simp) (fillName_of_present rfl rfl)
  obtain ⟨cs, hcolumns, hlabels, hids⟩ := exists_labelled exists_column labels
    (s := Shape.one (.listOf (.record .tableColumn))) rfl
  obtain ⟨p, hp, hsize, hsizes⟩ := exists_paging settings
  obtain ⟨exact, hpaging⟩ := ofValue_of_readsAs (s := (Shape.one (.record .paging)).orNull) rfl rfl
    hp
  have hitems : e.itemsOf "columns" = cs := by
    rw [itemsOf, he.attribute?_eq (by decide) rfl hcolumns]
    rfl
  obtain ⟨hnone, hsome⟩ := filters_of_isReadOf he
  refine ⟨e, ?_, he.type, ?_, ?_, ?_, ?_, ?_⟩
  · have htype : fieldType (Entries.getD "type" (Entries.named (tableEntries settings labels id
        label (filteringOf settings filterLabels)))) = .dataTable := rfl
    rw [heq, object, ofValue_field _ rfl, htype, hread]
    rfl
  · rw [hitems, hlabels, ← hlabelled, List.map_map]
    rfl
  · rw [hitems]
    exact hids
  · exact he.attribute?_eq (s := (Shape.one (.listOf .row)).orNull) (by decide) rfl rfl
  · exact ⟨p, he.attribute?_eq (by decide) rfl hpaging, hsize, hsizes⟩
  · subst hfilters
    split
    next hitems => exact hnone (by rw [hitems]; rfl)
    next hitems => exact hnone (by rw [hitems]; rfl)
    next names hne hitems =>
      rw [hitems] at hsome
      exact hsome (by simpa using hne)

/-! ## Documents -/

theorem exists_nodup_of_collection
    {settings : Settings} {kind : CollectionKind} {c : Collection} {r : Value × List Renaming}
    (hcollection : collection settings kind c = .ok r) :
    ∃ es : List (String × Value), r.1 = object es ∧ (es.map Prod.fst).Nodup := by
  cases c with
  | keyed written =>
      obtain ⟨es, hkeyed, rfl⟩ := collection_keyed_eq_ok_iff.mp hcollection
      obtain ⟨done, -, rfl⟩ := keyed_eq_ok_iff.mp hkeyed
      exact ⟨_, rfl, Entries.nodup_distinct⟩
  | listed items =>
      obtain ⟨done, hlisted, rfl⟩ := collection_listed_eq_ok_iff.mp hcollection
      exact ⟨_, rfl, nodup_of_listed (by simp) hlisted⟩

/-- The screens of a document in canonical form have different names. -/
theorem nodup_of_restructure
    {settings : Settings} {document : Entries} {entries screens : List (String × Value)}
    {renamings : List Renaming}
    (hrestructure : restructure settings (.map document) = .ok (object entries, renamings))
    (hview : Entries.get? "view" (Entries.named entries) = some (object screens)) :
    (screens.map Prod.fst).Nodup := by
  obtain ⟨attributes, hobject, hfound⟩ := exists_found_of_restructure hrestructure .screens
  have hsame : Entries.named entries = Entries.named attributes := Value.map.inj hobject
  have hview : Entries.get? CollectionKind.screens.name (Entries.named attributes) =
      some (object screens) := hsame ▸ hview
  cases hc : Collection.ofValue? (document.getD CollectionKind.screens.name) with
  | none =>
      simp only [hc] at hfound
      rw [hfound] at hview
      cases hview
  | some c =>
      simp only [hc] at hfound
      obtain ⟨one, hcollection, hget⟩ := hfound
      obtain ⟨es, hes, hnodup⟩ := exists_nodup_of_collection hcollection
      rw [hget, hes, Option.some.injEq] at hview
      have hsame : es = screens := List.map_injective_iff.mpr
        (fun x y h => by simpa [Prod.ext_iff] using h) (Value.map.inj hview)
      exact hsame ▸ hnodup

/-- A screen whose content is the table of the columns that it names. -/
structure NamesColumns (raw : Entries) (names : List Value) : Prop where
  sections : LacksSections raw
  fields : (raw.getD "fields").isPresent = false
  columns : (raw.getD "display_fields").items? = some names

/-- The reading of a document leads to the fields of each of its screens. -/
theorem leadsTo_fields
    {entries screens : List (String × Value)} (hnames : (screens.map Prod.fst).Nodup)
    (hview : Entries.get? "view" (Entries.named entries) = some (object screens))
    {key : String} {form : Entries} (hmem : (key, Value.map form) ∈ screens)
    {fields : Value} (hfields : form.get? "fields" = some fields) :
    LeadsTo (object entries) (.one (.record .document))
      [.name "view", .name key, .name "fields"] fields (Shape.one (.listOf .field)).orNull := by
  obtain ⟨view, hin, hname, hsingle, hkinds⟩ :
      ∃ a ∈ RecordType.document.attributes, a.name = "view" ∧ a.spellings = ["view"] ∧
        a.shape.kinds = [.tableOf (.record .screen)] := by decide
  rw [← hname] at hsingle hview ⊢
  have honly : ∀ e ∈ Entries.named screens, keyStep e.1 = .name key →
      e = (.text key, .map form) := by
    intro e he hstep
    obtain ⟨x, hx, rfl⟩ := List.mem_map.mp he
    have hkey : x.1 = key := Step.name.inj hstep
    rw [List.inj_on_of_nodup_map hnames hx hmem hkey]
  have hscreen : LeadsTo (.map form) (.one (.record .screen)) [.name "fields"] fields
      (Shape.one (.listOf .field)).orNull :=
    .part (a := .may "fields" (.listOf .field)) rfl (by decide) rfl (by decide) nofun hfields
      (.here _ _)
  have hscreens : LeadsTo (object screens) view.shape [.name key, .name "fields"] fields
      (Shape.one (.listOf .field)).orNull :=
    .entry hkinds (List.mem_map.mpr ⟨_, hmem, rfl⟩) honly hscreen
  exact .part rfl hin hsingle (by rw [hname]; decide) nofun hview hscreens

/-- A table is made from names of columns if and only if all names for it can be written, and
then it is read as a field, with a column for each name.  So a document is never refused for the
fields of a screen that only names columns. -/
theorem table_is_built
    (settings : Settings) :
    (∀ columns filterNames screenName,
      (HaveTexts columns filterNames screenName →
        ∃ t e, table settings columns filterNames screenName = .ok t ∧
          t.readAs .field = .ok e ∧ IsTableOf settings columns filterNames e) ∧
      (¬ HaveTexts columns filterNames screenName →
        table settings columns filterNames screenName = .error .longInteger)) ∧
    ∀ tree entries renamings screens raw names form key,
      restructure settings tree = .ok (object entries, renamings) →
      Entries.get? "view" (Entries.named entries) = some (object screens) →
      NamesColumns raw names → screen settings (.map raw) = .ok form → (key, form) ∈ screens →
      ∀ below cause, ¬ HasFault (Document.build (object entries))
        ⟨.name "view" :: .name key :: .name "fields" :: below, cause⟩ := by
  constructor
  · intro columns filterNames screenName
    refine ⟨fun htexts => ?_, table_eq_error_iff.mpr⟩
    have htable := table_eq_ok_iff.mpr ⟨htexts, Eq.refl (tableOf settings _ _ _)⟩
    obtain ⟨e, hread, he⟩ := exists_table htable
    exact ⟨_, e, htable, readsAs_iff.mp ⟨true, hread⟩, he⟩
  · intro tree entries renamings screens raw names form key hrestructure hview hnamed hscreen hmem
      below cause hfault
    obtain ⟨raw', parts, heq, hparts, rfl⟩ := screen_eq_ok_iff.mp hscreen
    cases heq
    rw [content_of_columns settings hnamed.sections hnamed.fields hnamed.columns] at hparts
    cases htable : table settings names (raw.getD "filters") (raw.getD "name") with
    | error cause =>
        rw [htable] at hparts
        cases hparts
    | ok t =>
        rw [htable] at hparts
        cases hparts
        obtain ⟨document, -, rfl, -⟩ := restructure_eq_ok hrestructure
        have hfields : Entries.get? "fields" (Entries.named (screenAttributes raw
            [("fields", .list [t])])) = some (.list [t]) := get?_fields raw _
        have hleads :=
          leadsTo_fields (nodup_of_restructure hrestructure hview) hview hmem hfields
        obtain ⟨e, hread, -⟩ := exists_table htable
        have hlist := (ofValue_list_eq_ok_iff (s := (Shape.one (.listOf .field)).orNull) rfl).mpr
          ⟨rfl, [e], rfl, .cons ⟨true, hread⟩ .nil⟩
        have hbelow := hleads.hasFault_iff.mp (Document.hasFault_build_iff.mp hfault)
        rw [hlist] at hbelow
        exact not_hasFault_ok _ hbelow

/-- A listed screen that names two columns, one by a number, and two filters, one of them for
search. -/
def catalogue : Entries :=
  Entries.named [("name", .text "Items"), ("display_fields", .list [.text "Name", .integer 3]),
    ("filters", .list [.text "Keyword", .text "State"])]

theorem table_is_built_catalogue :
    (∃ t e, table .default [.text "Name", .integer 3] (.list [.text "Keyword", .text "State"])
        (.text "Items") = .ok t ∧ t.readAs .field = .ok e ∧
      (e.itemsOf "columns").map (attribute? "label") = [some (.text "Name"), some (.text "3")] ∧
      ∃ f, e.attribute? "filters" = some f ∧
        (f.itemsOf "fields").map (attribute? "label") = [some (.text "State")]) ∧
    ∃ entries screens form,
      restructure .default (object [("view", .list [.map catalogue])]) =
        .ok (object entries, []) ∧
      Entries.get? "view" (Entries.named entries) = some (object screens) ∧
      NamesColumns catalogue [.text "Name", .integer 3] ∧ ("items", form) ∈ screens ∧
      ∀ below cause, ¬ HasFault (Document.build (object entries))
        ⟨.name "view" :: .name "items" :: .name "fields" :: below, cause⟩ := by
  obtain ⟨hbuilt, hdocument⟩ := table_is_built .default
  constructor
  · have htexts : HaveTexts [.text "Name", .integer 3]
        (.list [.text "Keyword", .text "State"]) (.text "Items") := ⟨rfl, by decide, by decide⟩
    obtain ⟨t, e, htable, hread, he⟩ := (hbuilt _ _ _).1 htexts
    obtain ⟨f, hf, -, hlabels⟩ := he.filters
    have hkept : ([Value.text "Keyword", .text "State"].map Value.render).filter
        (fun n => !Settings.default.isSearch n) = ["State"] := by decide +kernel
    rw [hkept] at hlabels
    exact ⟨t, e, htable, hread, he.labels, f, hf, hlabels⟩
  · have hnamed : NamesColumns catalogue [.text "Name", .integer 3] := ⟨nofun, rfl, rfl⟩
    obtain ⟨form, hscreen⟩ : ∃ form, screen .default (.map catalogue) = .ok form := ⟨_, rfl⟩
    have hrestructure : restructure .default (object [("view", .list [.map catalogue])]) =
        .ok (object [("view", object [("items", form)])], []) := by
      cases hscreen
      rfl
    exact ⟨_, _, form, hrestructure, rfl, hnamed, List.mem_singleton_self _,
      hdocument _ _ _ _ _ _ _ _ hrestructure rfl hnamed hscreen (List.mem_singleton_self _)⟩

/-- An integer is a name for a column, but no table is made if it has too many digits. -/
theorem not_exists_table_longName :
    ¬ ∃ t e, table .default [.scalar .long] .null (.text "Home") = .ok t ∧
      t.readAs .field = .ok e := by
  rintro ⟨t, e, htable, -⟩
  have hcolumn := (table_eq_ok_iff.mp htable).1.columns (.scalar .long) List.mem_cons_self
  rw [Value.hasText_scalar, Scalar.hasText_long] at hcolumn
  cases hcolumn

end Canonical

end Wireframe
