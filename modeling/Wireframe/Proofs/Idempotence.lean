import Mathlib.Data.List.Forall2
import Mathlib.Tactic
import Wireframe.Proofs.Correspondence

/-!
# Fixed points of canonical form

What is in canonical form stays as it is when it is brought into canonical form again.  The
second pass takes other branches than the first: listed entries have become keyed ones, the
fields of a screen are where its fields belong, and labels have become actions.  None of
these branches changes what the first pass has made, and none renames an entry.
-/

namespace Wireframe

namespace Canonical

/-! ## Picked attributes -/

theorem pick_congr
    {names : List String} {entries others : Entries}
    (hsame : ∀ name ∈ names, entries.getD name = others.getD name) :
    pick names entries = pick names others :=
  List.filterMap_congr fun name hname => by simp only [hsame name hname]

theorem pick_pick
    (names : List String) (entries : Entries) :
    pick names (Entries.named (pick names entries)) = pick names entries :=
  pick_congr fun _ hname => getD_pick hname

theorem ownFields_pick
    (entries : Entries) :
    ownFields (Entries.named (pick sectionNames entries)) = ownFields entries := by
  rw [ownFields, getD_pick (by decide), ownFields]

/-! ## Screens -/

section Screen

variable {settings : Settings} {raw : Entries} {parts : List (String × Value)}

/-- Canonical form has no attributes but those of screens: the older names are gone. -/
theorem getD_screenAttributes_of_not_mem
    (hparts : HasContent settings raw parts) {name : String}
    (hname : name ∉ RecordType.screen.names) :
    Entries.getD name (Entries.named (screenAttributes raw parts)) = .null := by
  have hne {other : String} (hother : other ∈ RecordType.screen.names) : name ≠ other :=
    (ne_of_mem_of_not_mem hother hname).symm
  have hkept : name ∉ screenNames := fun h =>
    hname ((by decide : ∀ n ∈ screenNames, n ∈ RecordType.screen.names) name h)
  rw [Entries.getD, get?_screenAttributes, get?_pick_of_not_mem hkept,
    get?_title_of_ne (hne (by decide)), get?_purpose_of_ne (hne (by decide)),
    get?_content_of_ne hparts (hne (by decide)) (hne (by decide)),
    get?_actions_of_ne (hne (by decide))]
  rfl

theorem pick_screenAttributes
    (hparts : HasContent settings raw parts) :
    pick screenNames (Entries.named (screenAttributes raw parts)) = pick screenNames raw := by
  refine pick_congr fun name hname => ?_
  rw [Entries.getD, get?_screenAttributes_kept hparts hname]
  split_ifs with hpresent
  · rfl
  · exact (Value.eq_null_of_not_isPresent hpresent).symm

theorem title_screenAttributes
    (raw : Entries) (parts : List (String × Value)) :
    title (Entries.named (screenAttributes raw parts)) = title raw := by
  have hget : Entries.getD "title" (Entries.named (screenAttributes raw parts)) = title raw := by
    rw [Entries.getD, get?_screenAttributes_title]
    rfl
  rw [title, hget]
  simp [Value.coalesce, isPresent_title]

theorem purpose_screenAttributes
    (hparts : HasContent settings raw parts) :
    purpose (Entries.named (screenAttributes raw parts)) = purpose raw := by
  have holder : Entries.getD "purpose" (Entries.named (screenAttributes raw parts)) = .null :=
    getD_screenAttributes_of_not_mem hparts (by decide)
  have hget := get?_screenAttributes_description hparts
  rw [purpose, Entries.getD, hget, holder, purpose]
  generalize Value.coalesce [raw.getD "description", raw.getD "purpose"] = v
  have hnull : Value.null.isPresent = false := rfl
  cases hpresent : v.isPresent with
  | true => simp [Entries.get?_named, Value.coalesce, hpresent]
  | false => simp [Entries.get?_named, Value.coalesce, hnull]

theorem expandAction_expandAction
    (action : Value) (place other : Nat) :
    expandAction (expandAction action place) other = expandAction action place := by
  cases action with
  | scalar s => cases s <;> rfl
  | _ => rfl

theorem actions_screenAttributes
    (hparts : HasContent settings raw parts) :
    actions (Entries.named (screenAttributes raw parts)) = actions raw := by
  have hget := get?_screenAttributes_actions hparts
  cases hitems : (raw.getD "actions").items? with
  | none =>
      have hnone : actions raw = [] := by rw [actions, hitems]
      rw [hnone] at hget ⊢
      rw [actions, Entries.getD, hget]
      rfl
  | some items =>
      have hsome : actions raw = [("actions",
          .list (items.zipIdx.map fun a => expandAction a.1 a.2))] := by rw [actions, hitems]
      have hagain : (items.zipIdx.map fun a => expandAction a.1 a.2).zipIdx.map
          (fun a => expandAction a.1 a.2) = items.zipIdx.map fun a => expandAction a.1 a.2 := by
        refine List.ext_getElem (by simp) fun i _ _ => ?_
        simp only [List.getElem_map, List.getElem_zipIdx]
        exact expandAction_expandAction _ _ _
      rw [hsome] at hget ⊢
      rw [actions, Entries.getD, hget]
      simp only [Entries.named, Entries.get?, List.map_cons, List.map_nil, List.find?_cons,
        Key.text?, beq_self_eq_true, Option.map_some, Option.getD_some, Value.items?, hagain]

theorem getD_content
    (raw : Entries) (parts : List (String × Value)) {name : String}
    (hname : name = "sections" ∨ name = "fields") :
    Entries.getD name (Entries.named (screenAttributes raw parts)) =
      Entries.getD name (Entries.named parts) := by
  rw [Entries.getD, get?_screenAttributes_content raw parts hname, Entries.getD]

theorem mayHave_of_sections
    (hwalkable : IsWalkable raw) {sections : List Entries}
    (hwritten : (raw.getD "sections").items? = some (sections.map Value.map)) :
    ∀ s ∈ sections, s.MayHave "input_fields" fun _ => True := by
  intro s hs
  obtain ⟨items, hitems, hmaps⟩ := hwalkable.sections (Value.isPresent_of_items? hwritten)
  have heq : items = sections.map Value.map := by simpa [hitems] using hwritten
  subst heq
  obtain ⟨own, hown, hmay⟩ := hmaps _ (List.mem_map_of_mem hs)
  cases hown
  exact hmay

theorem content_of_sections
    (settings : Settings) {sections : List Entries} (hne : sections ≠ [])
    (hwritten : (raw.getD "sections").items? = some (sections.map Value.map)) :
    content settings raw = withSections (sections.map Value.map) := by
  cases sections with
  | nil => exact absurd rfl hne
  | cons first rest =>
      rw [List.map_cons] at hwritten ⊢
      simp only [content, hwritten]

theorem content_of_lacks
    (settings : Settings) (hlacks : LacksSections raw) :
    content settings raw =
      if (raw.getD "fields").isPresent then
        (elements (raw.getD "fields")).map fun items => [("fields", .list items)]
      else
        match (raw.getD "display_fields").items? with
        | some names =>
          ((table settings names (raw.getD "filters") (raw.getD "name")).mapError
            Obstacle.notWritten).map fun t => [("fields", .list [t])]
        | none =>
          match (raw.getD "input_fields").items? with
          | some fields => .ok [("fields", .list fields)]
          | none => .ok [] := by
  unfold content
  split
  next first rest hsections => exact absurd hsections (hlacks first rest)
  next =>
    split_ifs
    · cases elements (raw.getD "fields") <;> rfl
    · cases (raw.getD "display_fields").items? with
      | none => rfl
      | some names =>
          dsimp only
          cases table settings names (raw.getD "filters") (raw.getD "name") <;> rfl

theorem content_of_columns
    (settings : Settings) (hlacks : LacksSections raw)
    (hfields : (raw.getD "fields").isPresent = false) {names : List Value}
    (hnames : (raw.getD "display_fields").items? = some names) :
    content settings raw =
      ((table settings names (raw.getD "filters") (raw.getD "name")).mapError
        Obstacle.notWritten).map fun t => [("fields", .list [t])] := by
  rw [content_of_lacks settings hlacks, hfields, hnames]
  rfl

/-- The content of a screen stays what it is: sections are kept as sections, and whatever else
fields were made of, they are fields from then on. -/
theorem content_screenAttributes
    (hwalkable : IsWalkable raw) (hparts : HasContent settings raw parts) :
    content settings (Entries.named (screenAttributes raw parts)) = .ok parts := by
  have hsections := getD_content raw parts (.inl (Eq.refl "sections"))
  have hfields := getD_content raw parts (.inr (Eq.refl "fields"))
  have holder {name : String} (hname : name ∉ RecordType.screen.names) :
      (Entries.getD name (Entries.named (screenAttributes raw parts))).items? = none := by
    rw [getD_screenAttributes_of_not_mem hparts hname]
    rfl
  generalize Entries.named (screenAttributes raw parts) = entries at hsections hfields holder ⊢
  have hlacks (hnone : Entries.getD "sections" (Entries.named parts) = .null) :
      LacksSections entries := by
    intro first rest hitems
    rw [hsections, hnone] at hitems
    cases hitems
  have hlisted {items : List Value} (hlisted : parts = [("fields", .list items)]) :
      content settings entries = .ok parts := by
    subst hlisted
    rw [content_of_lacks settings (hlacks rfl), hfields]
    rfl
  cases hparts with
  | @sections first rest hwritten =>
      have hmay := mayHave_of_sections hwalkable hwritten
      have hagain : (entries.getD "sections").items? =
          some (((first :: rest).map fun s => Entries.named (pick sectionNames s)).map
            Value.map) := by
        rw [hsections]
        simp [Entries.getD, Entries.get?_named, Value.items?, object]
      rw [content_of_sections settings (by simp) hagain]
      refine (withSections_map fun kept hkept => ?_).trans ?_
      · obtain ⟨s, hs, rfl⟩ := List.mem_map.mp hkept
        rw [Entries.MayHave, getD_pick (by decide)]
        exact hmay s hs
      · simp [Function.comp_def, pick_pick, ownFields_pick, List.flatMap_map]
  | fields _ _ => exact hlisted rfl
  | columns _ _ _ => exact hlisted rfl
  | inputFields _ _ _ => exact hlisted rfl
  | nothing _ _ =>
      rw [content_of_lacks settings (hlacks rfl), hfields, holder (by decide), holder (by decide)]
      rfl

theorem screen_screenAttributes
    (hwalkable : IsWalkable raw) (hparts : HasContent settings raw parts) :
    screen settings (object (screenAttributes raw parts)) =
      .ok (object (screenAttributes raw parts)) := by
  have hkept : pick ["app_header", "app_navi", "wizard", "layout"]
      (Entries.named (screenAttributes raw parts)) = pick screenNames raw :=
    pick_screenAttributes hparts
  simp only [screen, object, mapping, bind, Except.bind, content_screenAttributes hwalkable hparts,
    hkept, title_screenAttributes, purpose_screenAttributes hparts, actions_screenAttributes hparts]
  rfl

end Screen

/-! ## Collections -/

theorem keyedEntry_of_entryOf
    {settings : Settings} {kind : CollectionKind} {c : Collection} {v w : Value}
    (hentry : Rules.IsEntry settings kind c v) (hok : entryOf settings kind c v = .ok w) :
    keyedEntry settings kind w = .ok w := by
  cases kind with
  | screens =>
      obtain ⟨raw, rfl, hwalkable⟩ := isWalkable_of_isEntry hentry
      rw [entryOf_screens] at hok
      obtain ⟨parts, hparts, rfl⟩ := screen_eq_ok hwalkable hok
      exact screen_screenAttributes hwalkable hparts
  | components =>
      cases c with
      | keyed entries =>
          obtain ⟨raw, rfl, -⟩ := hentry
          cases hok
          rfl
      | listed items =>
          obtain ⟨raw, rfl, hhas⟩ := hentry
          cases (listedComponent_eq_ok hhas).symm.trans hok
          rfl
  | rules =>
      cases c with
      | keyed entries =>
          obtain ⟨raw, rfl, -⟩ := hentry
          cases hok
          rfl
      | listed items =>
          obtain ⟨raw, rfl, hhas⟩ := hentry
          cases (listedRule_eq_ok hhas).symm.trans hok
          rfl

/-- Entries with different names that stay as they are stay together as they are. -/
theorem collection_of_fixed
    {settings : Settings} {kind : CollectionKind} {es : List (String × Value)}
    (hnames : (es.map Prod.fst).Nodup)
    (hfixed : ∀ e ∈ es, keyedEntry settings kind e.2 = .ok e.2) :
    collection settings kind (.keyed (Entries.named es)) = .ok (object es, []) := by
  have hkeyed : keyed settings kind (Entries.named es) = .ok es := by
    refine keyed_eq_ok_iff.mpr ⟨es, ?_, (Entries.distinct_of_nodup hnames).symm⟩
    rw [Entries.named, List.forall₂_map_left_iff, List.forall₂_same]
    exact fun e he => ⟨⟨rfl, rfl⟩, hfixed e he⟩
  exact collection_keyed_eq_ok_iff.mpr ⟨es, hkeyed, rfl⟩

/-- The canonical form of a checked collection is a fixed point, and nothing is renamed. -/
theorem collection_again
    {settings : Settings} {kind : CollectionKind} {c : Collection}
    (hnodup : (c.steps.map Prod.fst).Nodup)
    (hentries : ∀ x ∈ c.steps, Rules.IsEntry settings kind c x.2)
    {w : Value} {renamings : List Renaming}
    (hcollection : collection settings kind c = .ok (w, renamings)) :
    ∃ again, Collection.ofValue? w = some again ∧
      collection settings kind again = .ok (w, []) := by
  obtain ⟨es, hobject, hnames, -, hrel⟩ := exists_entries_of_collection hnodup hcollection
  cases hobject
  refine ⟨_, rfl, collection_of_fixed hnames fun e he => ?_⟩
  obtain ⟨step, hstep, hok⟩ := exists_of_mem_right hrel he
  exact keyedEntry_of_entryOf (hentries step hstep) hok

/-! ## Documents -/

/-- The canonical form of a collection of a document, if the document has the collection. -/
def collection? (settings : Settings) (document : Entries) (kind : CollectionKind) :
    Option Value :=
  (Collection.ofValue? (document.getD kind.name)).bind fun c =>
    (collection settings kind c).toOption.map Prod.fst

theorem collections_eq_filterMap
    {settings : Settings} {document : Entries} {kinds : List CollectionKind}
    {r : List (String × Value) × List Renaming}
    (hcollections : collections settings document kinds = .ok r) :
    r.1 = kinds.filterMap fun kind =>
      (collection? settings document kind).map fun w => (kind.name, w) := by
  induction kinds generalizing r with
  | nil =>
      cases hcollections
      rfl
  | cons kind kinds ih =>
      cases hc : Collection.ofValue? (document.getD kind.name) with
      | none =>
          rw [collections_cons_of_none hc] at hcollections
          simp [collection?, hc, ih hcollections]
      | some c =>
          obtain ⟨one, rest, hone, hrest, rfl⟩ := (collections_cons_eq_ok_iff hc).mp hcollections
          simp [collection?, hc, hone, Except.toOption, ih hrest]

theorem exists_collection_of_collection?
    {settings : Settings} {document : Entries} {kind : CollectionKind} {w : Value}
    (hfound : collection? settings document kind = some w) :
    ∃ c renamings, Collection.ofValue? (document.getD kind.name) = some c ∧
      collection settings kind c = .ok (w, renamings) := by
  unfold collection? at hfound
  obtain ⟨c, hc, hcollection⟩ := Option.bind_eq_some_iff.mp hfound
  cases hone : collection settings kind c with
  | error e => simp [hone, Except.toOption] at hcollection
  | ok one =>
      rw [hone] at hcollection
      cases hcollection
      exact ⟨c, one.2, hc, hone⟩

/-- What a tree without findings is brought into is a fixed point: brought into canonical form
again it is unchanged, and no entry is renamed. -/
theorem restructure_of_canonical
    {settings : Settings} {tree canonical : Value} {renamings : List Renaming}
    (hroot : Rules.root settings tree = [])
    (hrestructure : restructure settings tree = .ok (canonical, renamings)) :
    restructure settings canonical = .ok (canonical, []) := by
  obtain ⟨document, rfl, hall⟩ := Rules.root_eq_nil_iff.mp hroot
  obtain ⟨found, hcollections, heq⟩ := restructure_map_eq_ok_iff.mp hrestructure
  obtain ⟨rfl, -⟩ := Prod.mk.inj heq
  rw [collections_eq_filterMap hcollections]
  have hagain := @collections_of_found settings
    (Entries.named (CollectionKind.all.filterMap fun kind =>
      (collection? settings document kind).map fun w => (kind.name, w)))
    (collection? settings document) (fun kind => ?_) CollectionKind.all
  · simp only [restructure, object, mapping, hagain, bind, Except.bind]
  · rw [Entries.getD, get?_found]
    cases hfound : collection? settings document kind with
    | none => rfl
    | some w =>
        obtain ⟨c, given, hc, hcollection⟩ := exists_collection_of_collection? hfound
        have hkind := hall kind
        simp only [Rules.HasCollection, hc] at hkind
        exact collection_again hkind.1 hkind.2 hcollection

/-- A tree without findings has a canonical form, and that form is a fixed point, unless the tree
holds an integer that cannot be written and has to be. -/
theorem restructure_idempotent
    {settings : Settings} {positions : Positions} {tree : Value}
    (hcheck : tree.check settings positions = .ok []) :
    (∃ canonical renamings, restructure settings tree = .ok (canonical, renamings) ∧
        restructure settings canonical = .ok (canonical, [])) ∨
      (∃ cause, restructure settings tree = .error (.notWritten cause)) ∧
        tree.hasText = false := by
  have hroot := Value.root_eq_nil_of_check hcheck
  refine (succeedsFor_restructure hroot).imp_left ?_
  rintro ⟨⟨canonical, renamings⟩, hrestructure⟩
  exact ⟨canonical, renamings, hrestructure, restructure_of_canonical hroot hrestructure⟩

/-- Two listed screens of one name, one with columns, filters and labels and one with sections,
a listed component and a listed rule. -/
def shorthands : Value :=
  object [("view", .list [
      object [("name", .text "Users"), ("purpose", .text "Everyone"),
        ("display_fields", .list [.text "Name"]), ("filters", .list [.text "Keyword"]),
        ("actions", .list [.text "Save", .text "Back"])],
      object [("name", .text "Users"), ("sections", .list [
        object [("input_fields", .list [object [("label", .text "Age")]])]])]]),
    ("common_components", .list [object [("component_name", .text "Row")]]),
    ("validations", .list [object [("field", .text "Age"), ("rule", .text "Positive")]])]

/-- The second of the two screens is renamed the first time only. -/
theorem restructure_idempotent_shorthands :
    shorthands.check .default [] = .ok [] ∧
      ∃ canonical renamed, restructure .default shorthands = .ok (canonical, [renamed]) ∧
        restructure .default canonical = .ok (canonical, []) := by
  refine ⟨rfl, ?_⟩
  obtain ⟨canonical, renamings, hfirst, hagain⟩ | ⟨-, hlong⟩ :=
    @restructure_idempotent .default [] shorthands rfl
  · cases hfirst
    exact ⟨_, _, rfl, hagain⟩
  · have htext : shorthands.hasText = true := by decide
    cases htext.symm.trans hlong

/-- A screen with a column that is named by an integer of too many digits. -/
def longColumn : Entries :=
  Entries.named [("title", .text "Home"), ("display_fields", .list [.scalar .long])]

/-- The rules find nothing wrong with the screen, and yet it has no canonical form. -/
theorem restructure_longColumn :
    (object [("view", object [("home", .map longColumn)])]).check .default [] = .ok [] ∧
      restructure .default (object [("view", object [("home", .map longColumn)])]) =
        .error (.notWritten .longInteger) := by
  have hcheck : (object [("view", object [("home", .map longColumn)])]).check .default [] =
      .ok [] := by decide +kernel
  have hlong : ¬ HaveTexts [.scalar .long] (longColumn.getD "filters")
      (longColumn.getD "name") := fun htexts => by
    have htext := htexts.columns (.scalar .long) List.mem_cons_self
    rw [Value.hasText_scalar, Scalar.hasText_long] at htext
    cases htext
  have hcontent : content .default longColumn = .error (.notWritten .longInteger) := by
    rw [content_of_columns .default (fun _ _ hsections => by cases hsections) rfl rfl,
      table_eq_error_iff.mpr hlong]
    rfl
  have hscreen := screen_eq_error hcontent
  refine ⟨hcheck, restructure_eq_error hcheck fun r hok => ?_⟩
  obtain ⟨found, hfound, -⟩ := restructure_map_eq_ok_iff.mp hok
  obtain ⟨one, -, hone, -⟩ := (collections_cons_eq_ok_iff rfl).mp hfound
  obtain ⟨es, hkeyed, -⟩ := collection_keyed_eq_ok_iff.mp hone
  obtain ⟨done, hdone, -⟩ := keyed_eq_ok_iff.mp hkeyed
  cases hdone with
  | cons hentry _ => cases hscreen.symm.trans hentry.2

end Canonical

end Wireframe
