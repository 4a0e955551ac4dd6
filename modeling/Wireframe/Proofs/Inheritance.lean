import Mathlib.Tactic
import Wireframe.Proofs.FindingLocations
import Wireframe.Proofs.Restructuring

/-!
# Properties that canonical forms inherit

Canonical forms are put together from parts of the tree, from text and from tables whose names
were written.  So a property that is passed on to parts, that text has and that objects and lists
of values with it have is inherited by canonical forms, but for these tables.  Being raw is one
such property, and the tables have it too.  Another one is that a value can be written.
-/

namespace Wireframe

namespace Canonical

open Rules

/-- The property is passed on to parts, and what is put together of values with it has it. -/
structure IsInherited (P : Value → Prop) : Prop where
  null : P .null
  text : ∀ s, P (.text s)
  child : ∀ {v w : Value} {step : Step}, v.Child Step.Spells step w → P v → P w
  list : ∀ {items : List Value}, (∀ v ∈ items, P v) → P (.list items)
  object : ∀ {attributes : List (String × Value)}, (∀ a ∈ attributes, P a.2) →
    P (object attributes)

/-- The fields are a table that is made from names. -/
def IsTable (settings : Settings) (a : String × Value) : Prop :=
  ∃ labels filterLabels name, a = ("fields", .list [tableOf settings labels filterLabels name])

section Inherited

variable {P : Value → Prop} (hP : IsInherited P) {settings : Settings}

include hP

theorem IsInherited.getD
    {raw : Entries} (hraw : P (.map raw)) (name : String) :
    P (raw.getD name) := by
  cases hget : Entries.get? name raw with
  | none =>
      rw [Entries.getD, hget]
      exact hP.null
  | some v =>
      rw [Entries.getD_of_get? hget]
      exact hP.child (Value.child_of_get? hget) hraw

theorem IsInherited.items
    {v : Value} (hv : P v) {items : List Value} (hitems : v.items? = some items) :
    ∀ x ∈ items, P x := by
  intro x hx
  obtain ⟨i, hget⟩ := List.mem_iff_getElem?.mp hx
  exact hP.child (.item hitems hget) hv

theorem IsInherited.steps
    {v : Value} (hv : P v) {c : Collection} (hc : Collection.ofValue? v = some c) :
    ∀ y ∈ c.steps, P y.2 :=
  fun _ hy => hP.child (child_of_mem_steps hc hy) hv

theorem inherits_coalesce
    {values : List Value} (hvalues : ∀ v ∈ values, P v) :
    P (Value.coalesce values) := by
  unfold Value.coalesce
  cases hfind : values.find? Value.isPresent with
  | none => exact hP.null
  | some v => exact hvalues v (List.mem_of_find?_eq_some hfind)

/-! ## Screens -/

variable {raw : Entries} (hraw : P (.map raw))

include hraw

theorem inherits_pick
    {names : List String} :
    ∀ a ∈ pick names raw, P a.2 := by
  intro a ha
  obtain ⟨name, -, hpick⟩ := List.mem_filterMap.mp ha
  simp only at hpick
  split_ifs at hpick
  cases hpick
  exact hP.getD hraw name

theorem inherits_ownFields : ∀ v ∈ ownFields raw, P v := by
  unfold ownFields
  cases hitems : (raw.getD "input_fields").items? with
  | none => simp
  | some items => exact hP.items (hP.getD hraw _) hitems

theorem inherits_content
    {parts : List (String × Value)} (hparts : HasContent settings raw parts) :
    ∀ a ∈ parts, P a.2 ∨ IsTable settings a := by
  have hlist {name : String} {items : List Value} (hitems : (raw.getD name).items? = some items) :
      ∀ a ∈ [("fields", Value.list items)], P a.2 ∨ IsTable settings a :=
    List.forall_mem_singleton.mpr (.inl (hP.list (hP.items (hP.getD hraw name) hitems)))
  cases hparts with
  | @sections first rest hsections =>
      have hall := hP.items (hP.getD hraw _) hsections
      rw [List.forall_mem_map] at hall
      simp only [List.forall_mem_cons, List.not_mem_nil, false_implies, implies_true, and_true]
      refine ⟨.inl (hP.list ?_), .inl (hP.list ?_)⟩
      · rw [List.forall_mem_map]
        exact fun s hs => hP.object (inherits_pick hP (hall s hs))
      · intro v hv
        obtain ⟨s, hs, hmem⟩ := List.mem_flatMap.mp hv
        exact inherits_ownFields hP (hall s hs) v hmem
  | fields hlacks hfields => exact hlist hfields
  | columns hlacks hfields hcolumns htable =>
      obtain ⟨-, rfl⟩ := table_eq_ok_iff.mp htable
      exact List.forall_mem_singleton.mpr (.inr ⟨_, _, _, rfl⟩)
  | inputFields hlacks hfields hinput => exact hlist hinput
  | nothing hlacks hfields => simp

theorem inherits_title : P (title raw) := by
  refine inherits_coalesce hP fun v hv => ?_
  simp only [List.mem_cons, List.not_mem_nil, or_false] at hv
  rcases hv with rfl | rfl | rfl
  · exact hP.getD hraw _
  · exact hP.getD hraw _
  · exact hP.text _

theorem inherits_purpose : ∀ a ∈ purpose raw, P a.2 := by
  have hvalue : P (Value.coalesce [raw.getD "description", raw.getD "purpose"]) := by
    refine inherits_coalesce hP fun v hv => ?_
    simp only [List.mem_cons, List.not_mem_nil, or_false] at hv
    rcases hv with rfl | rfl <;> exact hP.getD hraw _
  unfold purpose
  simp only
  split_ifs <;> simp [hvalue]

theorem inherits_actions : ∀ a ∈ actions raw, P a.2 := by
  unfold actions
  cases hitems : (raw.getD "actions").items? with
  | none => simp
  | some items =>
      have hall := hP.items (hP.getD hraw _) hitems
      refine List.forall_mem_singleton.mpr (hP.list ?_)
      rw [List.forall_mem_map]
      intro x hx
      obtain ⟨-, -, hget⟩ := List.mem_zipIdx hx
      have hv : P x.1 := hall _ (hget ▸ List.getElem_mem _)
      unfold expandAction
      split
      · exact hP.object (by simp [hP.text])
      · exact hv

theorem inherits_screenAttributes
    {parts : List (String × Value)} (hparts : HasContent settings raw parts) :
    ∀ a ∈ screenAttributes raw parts, P a.2 ∨ IsTable settings a := by
  simp only [screenAttributes, List.forall_mem_append, List.forall_mem_singleton]
  refine ⟨⟨⟨⟨fun a ha => .inl (inherits_pick hP hraw a ha), .inl (inherits_title hP hraw)⟩,
    fun a ha => .inl (inherits_purpose hP hraw a ha)⟩, inherits_content hP hraw hparts⟩,
    fun a ha => .inl (inherits_actions hP hraw a ha)⟩

end Inherited

/-! ## Entries and collections -/

/-- The value has the property, or it is a screen that has the property but for its table. -/
def Inherits (settings : Settings) (P : Value → Prop) (kind : CollectionKind) (w : Value) : Prop :=
  P w ∨ kind = .screens ∧
    ∃ attributes, w = object attributes ∧ ∀ a ∈ attributes, P a.2 ∨ IsTable settings a

section Entries

variable {P : Value → Prop} (hP : IsInherited P) {settings : Settings}

include hP

theorem inherits_entryOf
    {kind : CollectionKind} {c : Collection} {v w : Value} (hv : P v)
    (hentry : IsEntry settings kind c v) (hw : entryOf settings kind c v = .ok w) :
    Inherits settings P kind w := by
  cases kind with
  | screens =>
      rw [entryOf_screens] at hw
      obtain ⟨raw, rfl, hwalkable⟩ := isWalkable_of_isEntry hentry
      obtain ⟨parts, hparts, rfl⟩ := screen_eq_ok hwalkable hw
      exact .inr ⟨rfl, _, rfl, inherits_screenAttributes hP hv hparts⟩
  | components =>
      cases c with
      | keyed entries =>
          obtain ⟨raw, rfl, -⟩ := hentry
          cases hw
          exact .inl hv
      | listed items =>
          obtain ⟨raw, rfl, hhas⟩ := hentry
          rw [entryOf, listedEntry, listedComponent_eq_ok hhas, Except.ok.injEq] at hw
          rw [← hw]
          refine .inl (hP.object ?_)
          simp only [List.forall_mem_append, List.forall_mem_cons, List.not_mem_nil,
            false_implies, implies_true, and_true]
          exact ⟨inherits_pick hP hv, hP.getD hv _, hP.text _⟩
  | rules =>
      cases c with
      | keyed entries =>
          obtain ⟨raw, rfl, -⟩ := hentry
          cases hw
          exact .inl hv
      | listed items =>
          obtain ⟨raw, rfl, hhas⟩ := hentry
          rw [entryOf, listedEntry, listedRule_eq_ok hhas, Except.ok.injEq] at hw
          rw [← hw]
          have hrule : P (Entries.getD "rule" raw) := hP.getD hv "rule"
          have hmessage : P (object [("message", Entries.getD "rule" raw)]) :=
            hP.object (List.forall_mem_singleton.mpr hrule)
          refine .inl (hP.object ?_)
          simp only [List.forall_mem_cons, List.not_mem_nil, false_implies, implies_true, and_true]
          exact ⟨hP.getD hv "field", hmessage, hrule⟩

/-- What canonical form has for a collection of a document without findings. -/
theorem exists_entries
    {document : Entries} (hdocument : P (.map document)) {kind : CollectionKind}
    (hkind : HasCollection settings document kind) {w : Value}
    (hw : IsCanonical settings document kind (some w)) :
    ∃ es, w = object es ∧ ∀ x ∈ es, Inherits settings P kind x.2 := by
  unfold HasCollection IsCanonical at *
  cases hc : Collection.ofValue? (document.getD kind.name) with
  | none => simp [hc] at hw
  | some c =>
      simp only [hc, Option.some.injEq] at hkind hw
      obtain ⟨es, rfl, hes⟩ := hw
      refine ⟨es, rfl, fun x hx => ?_⟩
      obtain ⟨y, hy, hentry⟩ := hes x hx
      exact inherits_entryOf hP (hP.steps (hP.getD hdocument _) hc y hy) (hkind.2 y hy) hentry

end Entries

/-! ## Raw forms -/

theorem isRaw_object
    {attributes : List (String × Value)} :
    (object attributes).isRaw = true ↔ ∀ a ∈ attributes, a.2.isRaw = true := by
  rw [object, Entries.named, Value.isRaw_map, List.forall_mem_map]

theorem isInherited_isRaw : IsInherited fun v => v.isRaw = true where
  null := rfl
  text _ := rfl
  child hchild hv := by
    cases hchild with
    | entry hmem _ => exact (Value.isRaw_map _).mp hv _ hmem
    | item hitems hget => exact Value.isRaw_items hv hitems _ (List.mem_of_getElem? hget)
  list := (Value.isRaw_list _).mpr
  object := isRaw_object.mpr

theorem isRaw_tableOf
    (settings : Settings) (labels filterLabels : List String) (name : String) :
    (tableOf settings labels filterLabels name).isRaw = true := by
  have hcolumns : (Value.list (labels.zipIdx.map fun c => column c.1 c.2)).isRaw = true := by
    rw [Value.isRaw_list, List.forall_mem_map]
    intro c _
    simp [column, object, Entries.named]
  have hpaging : (paging settings).isRaw = true := by
    have hsizes : (Value.list (settings.pageSizeOptions.map Value.integer)).isRaw = true := by
      simp
    simp [paging, object, Entries.named, hsizes]
  have hfilters (names : List String) : (filters settings names).isRaw = true := by
    have hfields (kept : List String) :
        (Value.list (kept.zipIdx.map fun n => filterField n.1 n.2)).isRaw = true := by
      rw [Value.isRaw_list, List.forall_mem_map]
      intro n _
      simp [filterField, object, Entries.named]
    simp [filters, object, Entries.named, hfields]
  have hempty : emptyState.isRaw = true := rfl
  unfold tableOf
  simp only [isRaw_object, List.forall_mem_append, List.forall_mem_cons, hcolumns, hpaging,
    hempty, Value.isRaw_text, Value.isRaw_flag, true_and, List.not_mem_nil, false_implies,
    implies_true, and_true, Value.isRaw_list]
  split <;> simp [hfilters]

/-- Tables are raw, so nothing in an object that inherits being raw is not. -/
theorem isRaw_of_attributes
    {settings : Settings} {attributes : List (String × Value)}
    (hattributes : ∀ a ∈ attributes, a.2.isRaw = true ∨ IsTable settings a) :
    (object attributes).isRaw = true := by
  refine isRaw_object.mpr fun a ha => (hattributes a ha).elim id ?_
  rintro ⟨labels, filterLabels, name, rfl⟩
  exact (Value.isRaw_list _).mpr (List.forall_mem_singleton.mpr (isRaw_tableOf _ _ _ _))

theorem isRaw_of_inherits
    {settings : Settings} {kind : CollectionKind} {w : Value}
    (hw : Inherits settings (fun v => v.isRaw = true) kind w) :
    w.isRaw = true := by
  rcases hw with hraw | ⟨-, attributes, rfl, hattributes⟩
  · exact hraw
  · exact isRaw_of_attributes hattributes

theorem isRaw_screenAttributes
    {settings : Settings} {raw : Entries} (hraw : (Value.map raw).isRaw = true)
    {parts : List (String × Value)} (hparts : HasContent settings raw parts) :
    (object (screenAttributes raw parts)).isRaw = true :=
  isRaw_of_attributes (inherits_screenAttributes isInherited_isRaw hraw hparts)

theorem isRaw_of_entryOf
    {settings : Settings} {kind : CollectionKind} {c : Collection} {v w : Value}
    (hraw : v.isRaw = true) (hentry : IsEntry settings kind c v)
    (hw : entryOf settings kind c v = .ok w) :
    w.isRaw = true :=
  isRaw_of_inherits (inherits_entryOf isInherited_isRaw hraw hentry hw)

/-- The canonical form of a raw tree without findings is raw. -/
theorem isRaw_restructure
    {settings : Settings} {tree : Value} (hraw : tree.isRaw = true)
    (hroot : Rules.root settings tree = []) {r : Value × List Renaming}
    (hrestructure : restructure settings tree = .ok r) :
    r.1.isRaw = true := by
  obtain ⟨document, attributes, rfl, hobject, hall, -⟩ := restructure_eq_ok hrestructure
  obtain ⟨document', heq, hkinds⟩ := root_eq_nil_iff.mp hroot
  cases heq
  rw [hobject, isRaw_object]
  intro x hx
  obtain ⟨kind, hkind⟩ := hall x hx
  obtain ⟨es, heq, hes⟩ := exists_entries isInherited_isRaw hraw (hkinds kind) hkind
  rw [heq, isRaw_object]
  exact fun y hy => isRaw_of_inherits (hes y hy)

/-! ## Forms that can be written -/

theorem isInherited_hasText : IsInherited fun v => v.hasText = true where
  null := rfl
  text _ := rfl
  child hchild hv := Value.hasText_of_child hv hchild
  list := (Value.hasText_list _).mpr
  object hattributes := by
    rw [object, Entries.named, Value.hasText_map, List.forall_mem_map]
    exact fun a ha => ⟨rfl, hattributes a ha⟩

end Canonical

end Wireframe
