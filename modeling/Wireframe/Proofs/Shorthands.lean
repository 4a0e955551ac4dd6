import Mathlib.Tactic
import Wireframe.Proofs.Faults
import Wireframe.Proofs.Shapes

/-!
# What shorthands stand for

A reading that never fails is a reading whose failures have whatever property.  The table
that is made from names of columns and the action that is made from a label are read without
fail, whatever the names, the label and the settings are.
-/

namespace Wireframe

namespace Reading

/-! ## Records whose parts fail with a property -/

theorem default_eq_required
    {d : Default} (hnone : Element.ofDefault? d = none) :
    d = .required := by
  cases d <;> first | rfl | cases hnone

/-- A record fails as the attributes that are written in it do, if those that it has to have
are written. -/
theorem fails_of_written
    {Q : List Fault → Prop} (hadd : IsAdditive Q) {t : RecordType}
    (ht : t ≠ .field .unrecognized) {entries : Entries}
    (hexpand : expand t entries.offers = entries.offers)
    (hwritten : ∀ a ∈ t.attributes, ∀ name ∈ a.spellings, ∀ v,
      Entries.get? name entries = some v →
        Fails (fun faults => Q (Fault.under (.name name) faults)) (ofValue v a.shape))
    (hneeded : ∀ a ∈ t.attributes, a.default = .required → Entries.get? a.name entries ≠ none) :
    Fails Q (readRecord t entries.offers) := by
  apply fails_readRecord hadd
  · intro a ha
    rw [hexpand]
    apply fails_readAttribute
    · intro spelling o hspelled
      obtain ⟨hspelling, hfind⟩ := written?_eq_some hspelled
      rw [find?_offers] at hfind
      obtain ⟨v, hget, rfl⟩ := Option.map_eq_some_iff.mp hfind
      exact hwritten a ha spelling hspelling v hget
    · intro hnone hdefault
      have hname : a.name ∈ a.spellings :=
        List.mem_of_find?_eq_some (RecordType.find?_spellings ha)
      have habsent := List.findSome?_eq_none_iff.mp hnone a.name hname
      rw [find?_offers, Option.map_map, Option.map_eq_none_iff] at habsent
      exact absurd habsent (hneeded a ha (default_eq_required hdefault))
  · exact fun heq => absurd heq ht

theorem fails_of_named
    {Q : List Fault → Prop} (hadd : IsAdditive Q) {t : RecordType}
    (ht : t ≠ .field .unrecognized) {attributes : List (String × Value)}
    (hexpand : expand t (Entries.named attributes).offers = (Entries.named attributes).offers)
    (hattributes : ∀ e ∈ attributes, Entries.get? e.1 (Entries.named attributes) = some e.2 →
      ∀ a ∈ t.attributes, e.1 ∈ a.spellings →
        Fails (fun faults => Q (Fault.under (.name e.1) faults)) (ofValue e.2 a.shape))
    {names : List String} (hnames : attributes.map Prod.fst = names)
    (hneeded : ∀ a ∈ t.attributes, a.default = .required → a.name ∈ names) :
    Fails Q (readRecord t (Entries.named attributes).offers) := by
  apply fails_of_written hadd ht hexpand
  · intro a ha name hname v hget
    have hfound := hget
    rw [Entries.get?_named] at hfound
    obtain ⟨e, hfind, rfl⟩ := Option.map_eq_some_iff.mp hfound
    obtain rfl : e.1 = name := by simpa using List.find?_some hfind
    exact hattributes e (List.mem_of_find?_eq_some hfind) hget a ha hname
  · intro a ha hrequired hnone
    obtain ⟨e, he, hname⟩ := List.mem_map.mp (hnames ▸ hneeded a ha hrequired)
    rw [Entries.get?_named, Option.map_eq_none_iff, List.find?_eq_none] at hnone
    exact hnone e he (by simpa using hname)

theorem fails_of_items
    {Q : List Fault → Prop} (hadd : IsAdditive Q) {s : Shape} {k : Kind}
    (hkinds : s.kinds = [.listOf k]) {items : List Value}
    (hitems : ∀ (i : Nat) (x : Value), items[i]? = some x →
      Fails (fun faults => Q (Fault.under (.place i) faults)) (ofValue x (.one k))) :
    Fails Q (ofValue (.list items) s) := by
  rw [ofValue_of_single hkinds rfl nofun]
  apply fails_readItems hadd
  intro i o ho
  rw [List.getElem?_map] at ho
  obtain ⟨x, hx, rfl⟩ := Option.map_eq_some_iff.mp ho
  exact hitems i x hx

/-! ## Readings without fail -/

/-- The value is read as the shape without fail. -/
def IsReadable (v : Value) (s : Shape) : Prop := Fails (fun _ => False) (ofValue v s)

theorem isAdditive_false : IsAdditive fun _ => False := fun _ _ hfails _ => hfails

theorem IsReadable.fails
    {v : Value} {s : Shape} (hreadable : IsReadable v s) (Q : List Fault → Prop) :
    Fails Q (ofValue v s) :=
  hreadable.mono fun _ => False.elim

theorem isReadable_list
    {items : List Value} {k : Kind} (hitems : ∀ x ∈ items, IsReadable x (.one k)) :
    IsReadable (.list items) (.one (.listOf k)) :=
  fails_of_items isAdditive_false rfl fun _ x hx => hitems x (List.mem_of_getElem? hx)

/-- Whether the attributes of a record with such a spelling accept just that. -/
def AcceptsOnly (t : RecordType) (name : String) (k : Kind) : Prop :=
  ∀ a ∈ t.attributes, name ∈ a.spellings → a.shape.kinds = [k]

instance (t : RecordType) (name : String) (k : Kind) : Decidable (AcceptsOnly t name k) :=
  inferInstanceAs (Decidable (∀ a ∈ t.attributes, name ∈ a.spellings → a.shape.kinds = [k]))

/-- A value is readable as the attributes of a record with such a spelling. -/
def IsReadableAs (t : RecordType) (name : String) (v : Value) : Prop :=
  v.isPresent = true ∧ ∃ k, AcceptsOnly t name k ∧ IsReadable v (.one k)

section Attributes

variable {t : RecordType} {name : String}

theorem IsReadableAs.fails
    {v : Value} (hreadable : IsReadableAs t name v) {a : Attribute} (ha : a ∈ t.attributes)
    (hname : name ∈ a.spellings) (Q : List Fault → Prop) :
    Fails Q (ofValue v a.shape) := by
  obtain ⟨hpresent, k, haccepts, hone⟩ := hreadable
  rw [ofValue_of_kinds (t := .one k) (haccepts a ha hname) hpresent]
  exact hone.mono fun _ => False.elim

theorem isReadableAs_text
    (haccepts : AcceptsOnly t name .text) (s : String) :
    IsReadableAs t name (.text s) :=
  ⟨rfl, .text, haccepts, fails_ok _⟩

theorem isReadableAs_flag
    (haccepts : AcceptsOnly t name .flag) (b : Bool) :
    IsReadableAs t name (.flag b) :=
  ⟨rfl, .flag, haccepts, fails_ok _⟩

theorem isReadableAs_integer
    (haccepts : AcceptsOnly t name .whole) (i : Int) :
    IsReadableAs t name (.integer i) :=
  ⟨rfl, .whole, haccepts, fails_ok _⟩

theorem isReadableAs_word
    {choices : List String} (haccepts : AcceptsOnly t name (.word choices)) {s : String}
    (hs : choices.contains s = true) :
    IsReadableAs t name (.text s) := by
  refine ⟨rfl, .word choices, haccepts, ?_⟩
  have hword : Coercion.toWord choices (.text s) = .ok s := if_pos hs
  unfold IsReadable
  rw [ofValue_of_single (k := .word choices) rfl rfl nofun, readKind, hword]
  exact fails_ok _

theorem isReadableAs_list
    {k : Kind} (haccepts : AcceptsOnly t name (.listOf k)) {items : List Value}
    (hitems : ∀ x ∈ items, IsReadable x (.one k)) :
    IsReadableAs t name (.list items) :=
  ⟨rfl, .listOf k, haccepts, isReadable_list hitems⟩

theorem isReadable_record
    (ht : t ≠ .field .unrecognized) {attributes : List (String × Value)}
    (hexpand : expand t (Entries.named attributes).offers = (Entries.named attributes).offers)
    (hattributes : ∀ e ∈ attributes, IsReadableAs t e.1 e.2) {names : List String}
    (hnames : attributes.map Prod.fst = names)
    (hneeded : ∀ a ∈ t.attributes, a.default = .required → a.name ∈ names) :
    Fails (fun _ => False) (readRecord t (Entries.named attributes).offers) := by
  apply fails_of_named isAdditive_false ht hexpand _ hnames hneeded
  exact fun e he _ a ha hname => (hattributes e he).fails ha hname _

theorem isReadable_object
    (ht : ∀ f, t ≠ .field f) {attributes : List (String × Value)}
    (hattributes : ∀ e ∈ attributes, IsReadableAs t e.1 e.2) {names : List String}
    (hnames : attributes.map Prod.fst = names)
    (hneeded : ∀ a ∈ t.attributes, a.default = .required → a.name ∈ names) :
    IsReadable (Canonical.object attributes) (.one (.record t)) := by
  unfold IsReadable Canonical.object
  rw [ofValue_record]
  exact isReadable_record (ht _) (expand_of_not_field ht _) hattributes hnames hneeded

theorem isReadable_field
    {f : FieldType} (hheading : f ≠ .heading) (hknown : f ≠ .unrecognized)
    {attributes : List (String × Value)}
    (htype : fieldType (Entries.getD "type" (Entries.named attributes)) = f)
    (hid : (Entries.getD "id" (Entries.named attributes)).isPresent = true)
    (hlabel : (Entries.getD "label" (Entries.named attributes)).isPresent = true)
    (hattributes : ∀ e ∈ attributes, IsReadableAs (.field f) e.1 e.2)
    (hneeded : ∀ a ∈ (RecordType.field f).attributes, a.default ≠ .required) :
    IsReadable (Canonical.object attributes) (.one .field) := by
  have hexpand : expand (.field f) (Entries.named attributes).offers =
      (Entries.named attributes).offers := by
    rw [← valueOf_offers] at hid hlabel
    have hfill := fillName_of_present hid hlabel
    unfold expand
    split
    next heq => exact absurd (RecordType.field.inj heq) hheading
    next => exact hfill
    next => rfl
  have hread : ofValue (Canonical.object attributes) (.one .field) =
      readField (.entries (Entries.named attributes).offers) := by
    rw [Canonical.object, ofValue_of_single (k := .field) rfl rfl nofun]
    rfl
  simp only [IsReadable, hread, readField, valueOf_offers, htype]
  refine Fails.under (isReadable_record ?_ hexpand hattributes rfl ?_)
  · exact fun heq => hknown (RecordType.field.inj heq)
  · exact fun a ha hrequired => absurd hrequired (hneeded a ha)

end Attributes

end Reading

namespace Canonical

open Reading

/-! ## Tables -/

theorem isReadable_column (label : String) (place : Nat) :
    IsReadable (column label place) (.one (.record .tableColumn)) := by
  have hneeded : ∀ a ∈ RecordType.tableColumn.attributes,
      a.default = .required → a.name ∈ ["id", "label", "sortable"] := by decide
  apply isReadable_object (by simp) _ rfl hneeded
  simp only [List.forall_mem_cons]
  refine ⟨?_, ?_, ?_, by simp⟩
  · exact isReadableAs_text (by decide) _
  · exact isReadableAs_text (by decide) _
  · exact isReadableAs_flag (by decide) _

theorem isReadable_filterField (name : String) (place : Nat) :
    IsReadable (filterField name place) (.one (.record .filterField)) := by
  have hneeded : ∀ a ∈ RecordType.filterField.attributes,
      a.default = .required → a.name ∈ ["id", "label", "column", "type", "options"] := by decide
  have htype :
      AcceptsOnly .filterField "type" (.word ["text", "select", "date_range", "number_range"]) := by
    decide
  have hoptions : AcceptsOnly .filterField "options" (.listOf (.record .option)) := by decide
  apply isReadable_object (by simp) _ rfl hneeded
  simp only [List.forall_mem_cons]
  refine ⟨?_, ?_, ?_, ?_, ?_, by simp⟩
  · exact isReadableAs_text (by decide) _
  · exact isReadableAs_text (by decide) _
  · exact isReadableAs_text (by decide) _
  · exact isReadableAs_word htype (by decide)
  · exact isReadableAs_list hoptions (by simp)

theorem isReadable_filters (settings : Settings) (names : List String) :
    IsReadable (filters settings names) (.one (.record .filtering)) := by
  have hneeded : ∀ a ∈ RecordType.filtering.attributes,
      a.default = .required → a.name ∈ ["enabled", "show_search", "fields"] := by decide
  have hfields : AcceptsOnly .filtering "fields" (.listOf (.record .filterField)) := by decide
  apply isReadable_object (by simp) _ rfl hneeded
  simp only [List.forall_mem_cons]
  refine ⟨?_, ?_, ?_, by simp⟩
  · exact isReadableAs_flag (by decide) _
  · exact isReadableAs_flag (by decide) _
  · refine isReadableAs_list hfields fun x hx => ?_
    obtain ⟨n, -, rfl⟩ := List.mem_map.mp hx
    exact isReadable_filterField n.1 n.2

theorem isReadable_paging (settings : Settings) :
    IsReadable (paging settings) (.one (.record .paging)) := by
  have hneeded : ∀ a ∈ RecordType.paging.attributes,
      a.default = .required → a.name ∈ ["enabled", "page_size", "page_size_options"] := by decide
  have hsizes : AcceptsOnly .paging "page_size_options" (.listOf .whole) := by decide
  apply isReadable_object (by simp) _ rfl hneeded
  simp only [List.forall_mem_cons]
  refine ⟨?_, ?_, ?_, by simp⟩
  · exact isReadableAs_flag (by decide) _
  · exact isReadableAs_integer (by decide) _
  · refine isReadableAs_list hsizes fun x hx => ?_
    obtain ⟨i, -, rfl⟩ := List.mem_map.mp hx
    exact fails_ok _

theorem isReadable_emptyState : IsReadable emptyState (.one (.record .emptyState)) := by
  have hneeded : ∀ a ∈ RecordType.emptyState.attributes,
      a.default = .required → a.name ∈ ["title", "description", "icon"] := by decide
  apply isReadable_object (by simp) _ rfl hneeded
  simp only [List.forall_mem_cons]
  refine ⟨?_, ?_, ?_, by simp⟩
  · exact isReadableAs_text (by decide) _
  · exact isReadableAs_text (by decide) _
  · exact isReadableAs_text (by decide) _

theorem isReadable_tableOf
    (settings : Settings) (labels filterLabels : List String) (name : String) :
    IsReadable (tableOf settings labels filterLabels name) (.one .field) := by
  have htype : AcceptsOnly (.field .dataTable) "type" (.word ["data_table"]) := by decide
  have hcolumns : AcceptsOnly (.field .dataTable) "columns" (.listOf (.record .tableColumn)) := by
    decide
  have hdata : AcceptsOnly (.field .dataTable) "data" (.listOf .row) := by decide
  have hselection :
      AcceptsOnly (.field .dataTable) "selection" (.word ["none", "single", "multiple"]) := by
    decide
  have hpaging : AcceptsOnly (.field .dataTable) "pagination" (.record .paging) := by decide
  have hempty : AcceptsOnly (.field .dataTable) "empty_state" (.record .emptyState) := by decide
  have hfilters : AcceptsOnly (.field .dataTable) "filters" (.record .filtering) := by decide
  unfold tableOf
  simp only
  apply isReadable_field (f := .dataTable) (by simp) (by simp) rfl rfl rfl _ (by decide)
  rw [List.forall_mem_append]
  constructor
  · simp only [List.forall_mem_cons]
    refine ⟨?_, ?_, ?_, ?_, ?_, ?_, ?_, ?_, ?_, ?_, by simp⟩
    · exact isReadableAs_text (by decide) _
    · exact isReadableAs_word htype (by decide)
    · exact isReadableAs_text (by decide) _
    · refine isReadableAs_list hcolumns fun x hx => ?_
      obtain ⟨c, -, rfl⟩ := List.mem_map.mp hx
      exact isReadable_column c.1 c.2
    · exact isReadableAs_list hdata (by simp)
    · exact isReadableAs_word hselection (by decide)
    · exact ⟨rfl, _, hpaging, isReadable_paging settings⟩
    · exact ⟨rfl, _, hempty, isReadable_emptyState⟩
    · exact isReadableAs_flag (by decide) _
    · exact isReadableAs_flag (by decide) _
  · split
    · simp
    · intro e he
      rw [List.mem_singleton.mp he]
      exact ⟨rfl, _, hfilters, isReadable_filters settings filterLabels⟩

/-! ## Actions -/

theorem isReadable_expandAction
    (label : String) (place : Nat) :
    IsReadable (expandAction (.text label) place) (.one .action) := by
  have htype : AcceptsOnly (.action .submit) "type" (.word ["submit"]) := by decide
  have hstyle : AcceptsOnly (.action .submit) "style"
      (.word ["primary", "secondary", "danger", "link"]) := by decide
  have hneeded : ∀ a ∈ (RecordType.action .submit).attributes,
      a.default = .required → a.name ∈ ["id", "type", "label", "style"] := by decide
  unfold IsReadable expandAction Canonical.object
  rw [ofValue_of_single (k := .action) rfl rfl nofun]
  change Fails _ (under (.name ActionType.submit.tag)
    (readRecord (.action .submit) (Entries.offers (Entries.named _))))
  refine Fails.under (isReadable_record (by simp) rfl ?_ rfl hneeded)
  simp only [List.forall_mem_cons]
  refine ⟨?_, ?_, ?_, ?_, by simp⟩
  · exact isReadableAs_text (by decide) _
  · exact isReadableAs_word htype (by decide)
  · exact isReadableAs_text (by decide) _
  · refine isReadableAs_word hstyle ?_
    split_ifs <;> decide

end Canonical

end Wireframe
