import Mathlib.Data.List.Forall2
import Mathlib.Tactic
import Wireframe.Canonical.Document
import Wireframe.Proofs.Grammar
import Wireframe.Proofs.WrittenNames

/-!
# Bringing checked trees into canonical form

A screen can be walked when what its canonical form goes through is there.  Both the rules
for keyed and those for listed screens see to that.  What such a screen contains afterwards
is one of five cases, and every collection of a checked tree has a canonical form whose
entries are canonical forms of its entries, unless a name cannot be written.
-/

namespace Wireframe

namespace Canonical

open Rules

/-! ## Picked attributes -/

theorem find?_pick
    (name : String) (names : List String) (entries : Entries) :
    (pick names entries).find? (fun a => a.1 == name) =
      if name ∈ names ∧ (entries.getD name).isPresent = true then
        some (name, entries.getD name)
      else none := by
  induction names with
  | nil => simp [pick]
  | cons n ns ih =>
      by_cases hpresent : (entries.getD n).isPresent = true
      · by_cases hname : n = name
        · subst hname
          simp [pick, hpresent]
        · simpa [pick, hpresent, hname, Ne.symm hname] using ih
      · by_cases hname : n = name
        · subst hname
          simpa [pick, hpresent] using ih
        · simpa [pick, hpresent, Ne.symm hname] using ih

theorem get?_pick
    (name : String) (names : List String) (entries : Entries) :
    Entries.get? name (Entries.named (pick names entries)) =
      if name ∈ names ∧ (entries.getD name).isPresent = true then some (entries.getD name)
      else none := by
  rw [Entries.get?_named, find?_pick]
  split_ifs <;> rfl

theorem getD_pick
    {name : String} {names : List String} {entries : Entries} (hname : name ∈ names) :
    Entries.getD name (Entries.named (pick names entries)) = entries.getD name := by
  rw [Entries.getD, get?_pick]
  by_cases hpresent : (entries.getD name).isPresent = true
  · simp [hname, hpresent]
  · rw [if_neg fun h => hpresent h.2, Value.eq_null_of_not_isPresent hpresent]
    rfl

/-! ## Screens that can be walked -/

/-- The containers of a screen that its canonical form goes through are sequences, and its
sections are mappings. -/
structure IsWalkable (raw : Entries) : Prop where
  sections : raw.MayHave "sections" (Value.IsMapOf fun entries =>
    entries.MayHave "input_fields" fun _ => True)
  fields : raw.MayHave "fields" fun _ => True

theorem mayHave_mono
    {key : String} {P Q : Value → Prop} {entries : Entries}
    (hmono : ∀ v, P v → Q v) (hmay : entries.MayHave key P) :
    entries.MayHave key Q := by
  intro hpresent
  obtain ⟨items, hitems, hall⟩ := hmay hpresent
  exact ⟨items, hitems, fun v hv => hmono v (hall v hv)⟩

theorem isMapOf_mono
    {P Q : Entries → Prop} {v : Value}
    (hmono : ∀ entries, P entries → Q entries) (hmap : v.IsMapOf P) :
    v.IsMapOf Q :=
  hmap.imp fun entries h => ⟨h.1, hmono entries h.2⟩

theorem isWalkable_of_isScreen
    {settings : Settings} {raw : Entries} (hscreen : IsScreen settings raw) :
    IsWalkable raw where
  sections := mayHave_mono (fun _ => isMapOf_mono fun _ hsection =>
    mayHave_mono (fun _ _ => trivial) hsection.fields) hscreen.sections
  fields := mayHave_mono (fun _ _ => trivial) hscreen.fields

theorem isWalkable_of_isListedScreen
    {raw : Entries} (hscreen : IsListedScreen raw) :
    IsWalkable raw where
  sections := mayHave_mono (fun _ => isMapOf_mono fun _ hsection =>
    mayHave_mono (fun _ _ => trivial) hsection) hscreen.sections
  fields := mayHave_mono (fun _ _ => trivial) hscreen.fields

/-! ## The content of a screen -/

/-- The attributes that a section keeps. -/
def sectionNames : List String := ["section_name", "icon", "publish_toggle", "input_fields"]

/-- The fields that are written in a section. -/
def ownFields (entries : Entries) : List Value :=
  ((entries.getD "input_fields").items?).getD []

/-- A screen without sections, whether it has an empty list of them or something else. -/
def LacksSections (raw : Entries) : Prop :=
  ∀ first rest, (raw.getD "sections").items? ≠ some (first :: rest)

/-- What the content of a screen can be. -/
inductive HasContent (settings : Settings) (raw : Entries) : List (String × Value) → Prop
  | sections {first rest}
      (hsections : (raw.getD "sections").items? = some ((first :: rest).map Value.map)) :
      HasContent settings raw
        [("sections", .list ((first :: rest).map fun s => object (pick sectionNames s))),
          ("fields", .list ((first :: rest).flatMap ownFields))]
  | fields {items} (hlacks : LacksSections raw)
      (hfields : (raw.getD "fields").items? = some items) :
      HasContent settings raw [("fields", .list items)]
  | columns {names t} (hlacks : LacksSections raw)
      (hfields : (raw.getD "fields").isPresent = false)
      (hcolumns : (raw.getD "display_fields").items? = some names)
      (htable : table settings names (raw.getD "filters") (raw.getD "name") = .ok t) :
      HasContent settings raw [("fields", .list [t])]
  | inputFields {items} (hlacks : LacksSections raw)
      (hfields : (raw.getD "fields").isPresent = false)
      (hinput : (raw.getD "input_fields").items? = some items) :
      HasContent settings raw [("fields", .list items)]
  | nothing (hlacks : LacksSections raw) (hfields : (raw.getD "fields").isPresent = false) :
      HasContent settings raw []

theorem elements_of_items?
    {v : Value} {items : List Value} (hitems : v.items? = some items) :
    elements v = .ok items := by
  cases v <;> simp_all [Value.items?, elements]

theorem sectionFields_pick
    {entries : Entries} (hmay : entries.MayHave "input_fields" fun _ => True) :
    sectionFields (pick sectionNames entries) = .ok (ownFields entries) := by
  unfold sectionFields ownFields
  rw [find?_pick]
  by_cases hpresent : (entries.getD "input_fields").isPresent = true
  · obtain ⟨items, hitems, -⟩ := hmay hpresent
    simp [sectionNames, hpresent, hitems, elements_of_items? hitems]
  · have hnone : (entries.getD "input_fields").items? = none := by
      by_contra hsome
      obtain ⟨items, hitems⟩ := Option.ne_none_iff_exists'.mp hsome
      exact hpresent (Value.isPresent_of_items? hitems)
    simp [hpresent, hnone]

theorem withSections_map
    {sections : List Entries}
    (hsections : ∀ s ∈ sections, s.MayHave "input_fields" fun _ => True) :
    withSections (sections.map Value.map) =
      .ok [("sections", .list (sections.map fun s => object (pick sectionNames s))),
        ("fields", .list (sections.flatMap ownFields))] := by
  have hkept : (sections.map Value.map).mapM formSection =
      .ok (sections.map (pick sectionNames)) := by
    rw [mapM_eq_ok_iff, List.forall₂_map_left_iff, List.forall₂_map_right_iff, List.forall₂_same]
    exact fun s _ => rfl
  have hfields : (sections.map (pick sectionNames)).mapM sectionFields =
      .ok (sections.map ownFields) := by
    rw [mapM_eq_ok_iff, List.forall₂_map_left_iff, List.forall₂_map_right_iff, List.forall₂_same]
    exact fun s hs => sectionFields_pick (hsections s hs)
  simp [withSections, hkept, hfields, bind, Except.bind, List.flatMap_def]

theorem eq_map_of_isMapOf
    {P : Entries → Prop} {items : List Value} (hitems : ∀ v ∈ items, v.IsMapOf P) :
    ∃ entries : List Entries, items = entries.map Value.map ∧ ∀ s ∈ entries, P s := by
  induction items with
  | nil => exact ⟨[], by simp⟩
  | cons v vs ih =>
      obtain ⟨entries, heq, hall⟩ := ih fun w hw => hitems w (List.mem_cons_of_mem _ hw)
      obtain ⟨s, rfl, hs⟩ := hitems v List.mem_cons_self
      exact ⟨s :: entries, by simp [heq], by simpa using ⟨hs, hall⟩⟩

/-- The table that is made from the columns of a screen has a name that cannot be written. -/
def LacksText (settings : Settings) (raw : Entries) (cause : NoText) : Prop :=
  ∃ names, (raw.getD "display_fields").items? = some names ∧
    table settings names (raw.getD "filters") (raw.getD "name") = .error cause

theorem not_hasText_of_lacksText
    {settings : Settings} {raw : Entries} {cause : NoText} (hlacks : LacksText settings raw cause) :
    (Value.map raw).hasText = false := by
  obtain ⟨names, hnames, htable⟩ := hlacks
  rw [← Bool.not_eq_true]
  exact fun htext => table_eq_error_iff.mp htable (haveTexts_of_hasText htext hnames)

/-- A screen that can be walked has a content, unless a name for its table cannot be written. -/
theorem content_of_isWalkable
    (settings : Settings) {raw : Entries} (hwalkable : IsWalkable raw) :
    (∃ parts, content settings raw = .ok parts ∧ HasContent settings raw parts) ∨
      ∃ cause, content settings raw = .error (.notWritten cause) ∧
        LacksText settings raw cause := by
  by_cases hlacks : LacksSections raw
  · unfold content
    split
    next first rest heq => exact absurd heq (hlacks first rest)
    next =>
      split_ifs with hfields
      · obtain ⟨items, hitems, -⟩ := hwalkable.fields hfields
        exact .inl ⟨_, by rw [elements_of_items? hitems]; rfl, .fields hlacks hitems⟩
      · have habsent : (raw.getD "fields").isPresent = false := by simpa using hfields
        split
        next names hcolumns =>
          cases htable : table settings names (raw.getD "filters") (raw.getD "name") with
          | ok t => exact .inl ⟨_, rfl, .columns hlacks habsent hcolumns htable⟩
          | error cause => exact .inr ⟨cause, rfl, names, hcolumns, htable⟩
        next =>
          split
          next items hinput => exact .inl ⟨_, rfl, .inputFields hlacks habsent hinput⟩
          next => exact .inl ⟨_, rfl, .nothing hlacks habsent⟩
  · simp only [LacksSections, not_forall, not_not] at hlacks
    obtain ⟨first, rest, hsome⟩ := hlacks
    obtain ⟨items, hitems, hmaps⟩ := hwalkable.sections (Value.isPresent_of_items? hsome)
    have heq : items = first :: rest := by simpa [hitems] using hsome
    obtain ⟨sections, hmap, hsections⟩ := eq_map_of_isMapOf hmaps
    cases sections with
    | nil => simp [heq] at hmap
    | cons s ss =>
        rw [hmap] at heq hitems
        refine .inl ⟨_, ?_, .sections hitems⟩
        rw [← withSections_map hsections]
        simp only [content, hitems, List.map_cons]

/-! ## Screens in canonical form -/

/-- The attributes that a screen keeps as they are. -/
def screenNames : List String := ["app_header", "app_navi", "wizard", "layout"]

/-- The attributes of a screen with that content in canonical form. -/
def screenAttributes (raw : Entries) (parts : List (String × Value)) : List (String × Value) :=
  pick screenNames raw ++ [("title", title raw)] ++ purpose raw ++ parts ++ actions raw

theorem screen_eq_error
    {settings : Settings} {raw : Entries} {o : Obstacle}
    (hcontent : content settings raw = .error o) :
    screen settings (.map raw) = .error o := by
  simp [screen, mapping, hcontent, bind, Except.bind]

theorem screen_of_isWalkable
    (settings : Settings) {raw : Entries} (hwalkable : IsWalkable raw) :
    (∃ parts, HasContent settings raw parts ∧
        screen settings (.map raw) = .ok (object (screenAttributes raw parts))) ∨
      ∃ cause, screen settings (.map raw) = .error (.notWritten cause) ∧
        LacksText settings raw cause := by
  rcases content_of_isWalkable settings hwalkable with
    ⟨parts, hcontent, hparts⟩ | ⟨cause, hcontent, hlacks⟩
  · exact .inl ⟨parts, hparts, by simp [screen, mapping, hcontent, bind, Except.bind,
      screenAttributes, screenNames]⟩
  · exact .inr ⟨cause, screen_eq_error hcontent, hlacks⟩

/-- What a screen that can be walked is brought into. -/
theorem screen_eq_ok
    {settings : Settings} {raw : Entries} (hwalkable : IsWalkable raw) {w : Value}
    (hw : screen settings (.map raw) = .ok w) :
    ∃ parts, HasContent settings raw parts ∧ w = object (screenAttributes raw parts) := by
  rcases screen_of_isWalkable settings hwalkable with ⟨parts, hparts, hok⟩ | ⟨cause, hfail, -⟩
  · exact ⟨parts, hparts, Except.ok.inj (hw.symm.trans hok)⟩
  · cases hw.symm.trans hfail

theorem name_of_hasContent
    {settings : Settings} {raw : Entries} {parts : List (String × Value)}
    (hparts : HasContent settings raw parts) {name : String}
    (hname : name ∈ parts.map Prod.fst) :
    name = "sections" ∨ name = "fields" := by
  cases hparts <;> simp_all

section Lookup

variable {settings : Settings} {raw : Entries} {parts : List (String × Value)}

theorem get?_screenAttributes
    (name : String) (raw : Entries) (parts : List (String × Value)) :
    Entries.get? name (Entries.named (screenAttributes raw parts)) =
      ((((Entries.get? name (Entries.named (pick screenNames raw))).or
        (Entries.get? name (Entries.named [("title", title raw)]))).or
          (Entries.get? name (Entries.named (purpose raw)))).or
            (Entries.get? name (Entries.named parts))).or
              (Entries.get? name (Entries.named (actions raw))) := by
  simp only [screenAttributes, Entries.named_append, Entries.get?_append]

theorem name_of_purpose
    {name : String} (hname : name ∈ (purpose raw).map Prod.fst) :
    name = "description" := by
  unfold purpose at hname
  simp only at hname
  split_ifs at hname
  · simpa using hname
  · cases hname

theorem name_of_actions
    {name : String} (hname : name ∈ (actions raw).map Prod.fst) :
    name = "actions" := by
  unfold actions at hname
  split at hname
  · simpa using hname
  · cases hname

/-- Every screen has a title: one without a title or a name is untitled. -/
theorem isPresent_title
    (raw : Entries) :
    (title raw).isPresent = true := by
  unfold title Value.coalesce
  cases hfind : [raw.getD "title", raw.getD "name", .text "Untitled"].find? Value.isPresent with
  | some v => exact List.find?_some hfind
  | none => exact absurd rfl (List.find?_eq_none.mp hfind (.text "Untitled") (by simp))

theorem get?_pick_of_not_mem
    {name : String} (hname : name ∉ screenNames) :
    Entries.get? name (Entries.named (pick screenNames raw)) = none := by
  rw [get?_pick, if_neg fun h => hname h.1]

theorem get?_title_of_ne
    {name : String} (hname : name ≠ "title") :
    Entries.get? name (Entries.named [("title", title raw)]) = none :=
  Entries.get?_named_of_not_mem (by simpa using hname)

theorem get?_purpose_of_ne
    {name : String} (hname : name ≠ "description") :
    Entries.get? name (Entries.named (purpose raw)) = none :=
  Entries.get?_named_of_not_mem fun h => hname (name_of_purpose h)

theorem get?_content_of_ne
    (hparts : HasContent settings raw parts) {name : String}
    (hsections : name ≠ "sections") (hfields : name ≠ "fields") :
    Entries.get? name (Entries.named parts) = none :=
  Entries.get?_named_of_not_mem fun h => (name_of_hasContent hparts h).elim hsections hfields

theorem get?_actions_of_ne
    {name : String} (hname : name ≠ "actions") :
    Entries.get? name (Entries.named (actions raw)) = none :=
  Entries.get?_named_of_not_mem fun h => hname (name_of_actions h)

theorem get?_screenAttributes_kept
    (hparts : HasContent settings raw parts) {name : String} (hname : name ∈ screenNames) :
    Entries.get? name (Entries.named (screenAttributes raw parts)) =
      if (raw.getD name).isPresent then some (raw.getD name) else none := by
  have hne {other : String} (hother : other ∉ screenNames) : name ≠ other :=
    ne_of_mem_of_not_mem hname hother
  rw [get?_screenAttributes, get?_pick, get?_title_of_ne (hne (by decide)),
    get?_purpose_of_ne (hne (by decide)),
    get?_content_of_ne hparts (hne (by decide)) (hne (by decide)),
    get?_actions_of_ne (hne (by decide))]
  by_cases hpresent : (raw.getD name).isPresent = true <;> simp [hname, hpresent]

theorem get?_screenAttributes_title :
    Entries.get? "title" (Entries.named (screenAttributes raw parts)) = some (title raw) := by
  rw [get?_screenAttributes, get?_pick_of_not_mem (by decide), Entries.get?_named]
  simp

theorem get?_screenAttributes_description
    (hparts : HasContent settings raw parts) :
    Entries.get? "description" (Entries.named (screenAttributes raw parts)) =
      Entries.get? "description" (Entries.named (purpose raw)) := by
  rw [get?_screenAttributes, get?_pick_of_not_mem (by decide), get?_title_of_ne (by decide),
    get?_content_of_ne hparts (by decide) (by decide), get?_actions_of_ne (by decide)]
  simp

theorem get?_screenAttributes_content
    (raw : Entries) (parts : List (String × Value)) {name : String}
    (hname : name = "sections" ∨ name = "fields") :
    Entries.get? name (Entries.named (screenAttributes raw parts)) =
      Entries.get? name (Entries.named parts) := by
  have hne {other : String} (hsections : other ≠ "sections") (hfields : other ≠ "fields") :
      name ≠ other := by
    rcases hname with rfl | rfl
    · exact hsections.symm
    · exact hfields.symm
  have hkept : name ∉ screenNames := by rcases hname with rfl | rfl <;> decide
  rw [get?_screenAttributes, get?_pick_of_not_mem hkept,
    get?_title_of_ne (hne (by decide) (by decide)),
    get?_purpose_of_ne (hne (by decide) (by decide)),
    get?_actions_of_ne (hne (by decide) (by decide))]
  simp

theorem get?_screenAttributes_actions
    (hparts : HasContent settings raw parts) :
    Entries.get? "actions" (Entries.named (screenAttributes raw parts)) =
      Entries.get? "actions" (Entries.named (actions raw)) := by
  rw [get?_screenAttributes, get?_pick_of_not_mem (by decide), get?_title_of_ne (by decide),
    get?_purpose_of_ne (by decide), get?_content_of_ne hparts (by decide) (by decide)]
  simp

end Lookup

/-! ## Collections -/

/-- The canonical form of an entry of a collection as it is written. -/
def entryOf (settings : Settings) (kind : CollectionKind) :
    Collection → Value → Except Obstacle Value
  | .keyed _ => keyedEntry settings kind
  | .listed _ => listedEntry settings kind

/-- The canonical form of a screen is that of its content, whatever its collection. -/
theorem entryOf_screens
    (settings : Settings) (c : Collection) (v : Value) :
    entryOf settings .screens c v = screen settings v := by
  cases c <;> rfl

theorem keyed_eq_ok_iff
    {settings : Settings} {kind : CollectionKind} {entries : Entries}
    {es : List (String × Value)} :
    keyed settings kind entries = .ok es ↔
      ∃ done, List.Forall₂ (fun e x => (e.1.hasText = true ∧ x.1 = e.1.render) ∧
          keyedEntry settings kind e.2 = .ok x.2) entries done ∧
        es = Entries.distinct done := by
  have hentry (e : Key × Value) (x : String × Value) :
      (do
        let key ← e.1.write.mapError Obstacle.notWritten
        .ok (key, ← keyedEntry settings kind e.2) : Except Obstacle (String × Value)) = .ok x ↔
        (e.1.hasText = true ∧ x.1 = e.1.render) ∧ keyedEntry settings kind e.2 = .ok x.2 := by
    obtain ⟨name, v⟩ := x
    rw [← Key.write_eq_ok_iff]
    cases e.1.write <;> cases keyedEntry settings kind e.2 <;>
      simp [bind, Except.bind, Except.mapError]
  unfold keyed
  simp only [← hentry, ← mapM_eq_ok_iff]
  cases entries.mapM fun e => (do
    let key ← e.1.write.mapError Obstacle.notWritten
    .ok (key, ← keyedEntry settings kind e.2) : Except Obstacle (String × Value)) <;>
    simp [bind, Except.bind, eq_comm]

/-- The first entry takes a key that is free, and the others are keyed after it. -/
theorem listed_cons_eq_ok
    {settings : Settings} {kind : CollectionKind} {taken : List (String × Value)} {place : Nat}
    {v : Value} {vs : List Value} {r : List (String × Value) × List Renaming}
    (hlisted : listed settings kind taken place (v :: vs) = .ok r) :
    ∃ raw entry wanted r', v = .map raw ∧ listedEntry settings kind v = .ok entry ∧
      wantedKey kind raw place = .ok wanted ∧
      listed settings kind (taken ++ [(Slug.unique (taken.map Prod.fst) wanted, entry)])
        (place + 1) vs = .ok r' ∧
      r.1 = r'.1 := by
  cases hentry : listedEntry settings kind v with
  | error e => simp [listed, hentry, bind, Except.bind] at hlisted
  | ok entry =>
      cases v with
      | map raw =>
          cases hwanted : wantedKey kind raw place with
          | error cause =>
              simp [listed, hentry, mapping, hwanted, bind, Except.bind, Except.mapError] at hlisted
          | ok wanted =>
              simp only [listed, hentry, mapping, hwanted, bind, Except.bind,
                Except.mapError] at hlisted
              split at hlisted
              · cases hlisted
              next r' hrest =>
                cases hlisted
                exact ⟨raw, entry, wanted, r', rfl, rfl, hwanted, hrest, rfl⟩
      | _ => simp [listed, hentry, mapping, bind, Except.bind] at hlisted

theorem mem_of_listed
    {settings : Settings} {kind : CollectionKind} {taken : List (String × Value)} {place : Nat}
    {items : List Value} {r : List (String × Value) × List Renaming}
    (hlisted : listed settings kind taken place items = .ok r) {x : String × Value}
    (hx : x ∈ r.1) :
    x ∈ taken ∨ ∃ v ∈ items, listedEntry settings kind v = .ok x.2 := by
  induction items generalizing taken place r with
  | nil =>
      cases hlisted
      exact .inl hx
  | cons v vs ih =>
      obtain ⟨raw, entry, wanted, r', -, hentry, -, hrest, heq⟩ := listed_cons_eq_ok hlisted
      rw [heq] at hx
      rcases ih hrest hx with hmem | ⟨w, hw, hentry'⟩
      · rcases List.mem_append.mp hmem with hold | hnew
        · exact .inl hold
        · rw [List.mem_singleton.mp hnew]
          exact .inr ⟨v, List.mem_cons_self, hentry⟩
      · exact .inr ⟨w, List.mem_cons_of_mem _ hw, hentry'⟩

theorem exists_step_of_mem
    {items : List Value} {v : Value} (hv : v ∈ items) :
    ∃ step, (step, v) ∈ (Collection.listed items).steps := by
  obtain ⟨i, hi, rfl⟩ := List.getElem_of_mem hv
  exact ⟨.place i, List.mem_map.mpr
    ⟨(items[i], i), List.mk_mem_zipIdx_iff_getElem?.mpr (by simp), rfl⟩⟩

theorem collection_keyed_eq_ok_iff
    {settings : Settings} {kind : CollectionKind} {entries : Entries}
    {r : Value × List Renaming} :
    collection settings kind (.keyed entries) = .ok r ↔
      ∃ es, keyed settings kind entries = .ok es ∧ r = (object es, []) := by
  simp only [collection]
  cases keyed settings kind entries <;> simp [Except.map, eq_comm]

theorem collection_listed_eq_ok_iff
    {settings : Settings} {kind : CollectionKind} {items : List Value}
    {r : Value × List Renaming} :
    collection settings kind (.listed items) = .ok r ↔
      ∃ done, listed settings kind [] 0 items = .ok done ∧ r = (object done.1, done.2) := by
  simp only [collection]
  cases listed settings kind [] 0 items <;> simp [Except.map, eq_comm]

/-- Every entry of a collection in canonical form is the canonical form of an entry. -/
theorem collection_eq_ok
    {settings : Settings} {kind : CollectionKind} {c : Collection}
    {r : Value × List Renaming} (hcollection : collection settings kind c = .ok r) :
    ∃ es, r.1 = object es ∧ ∀ x ∈ es, ∃ y ∈ c.steps, entryOf settings kind c y.2 = .ok x.2 := by
  cases c with
  | keyed entries =>
      obtain ⟨es, hkeyed, rfl⟩ := collection_keyed_eq_ok_iff.mp hcollection
      obtain ⟨done, hdone, rfl⟩ := keyed_eq_ok_iff.mp hkeyed
      refine ⟨_, rfl, fun x hx => ?_⟩
      obtain ⟨e, he, hx⟩ := exists_of_mem_right hdone (Entries.mem_of_mem_distinct hx)
      exact ⟨(.name e.1.render, e.2), List.mem_map.mpr ⟨e, he, rfl⟩, hx.2⟩
  | listed items =>
      obtain ⟨done, hlisted, rfl⟩ := collection_listed_eq_ok_iff.mp hcollection
      refine ⟨_, rfl, fun x hx => ?_⟩
      obtain ⟨v, hv, hentry⟩ := (mem_of_listed hlisted hx).resolve_left List.not_mem_nil
      obtain ⟨step, hstep⟩ := exists_step_of_mem hv
      exact ⟨(step, v), hstep, hentry⟩

/-! ## Documents -/

/-- What canonical form has for a collection: nothing if it is not written as one, and else
canonical forms of its entries by name. -/
def IsCanonical (settings : Settings) (document : Entries) (kind : CollectionKind)
    (found : Option Value) : Prop :=
  match Collection.ofValue? (document.getD kind.name) with
  | some c => ∃ es, found = some (object es) ∧
      ∀ x ∈ es, ∃ y ∈ c.steps, entryOf settings kind c y.2 = .ok x.2
  | none => found = none

theorem name_injective {k l : CollectionKind} (hname : k.name = l.name) : k = l := by
  cases k <;> cases l <;> first | rfl | exact absurd hname (by decide)

theorem collections_cons_of_none
    {settings : Settings} {document : Entries} {kind : CollectionKind}
    (hc : Collection.ofValue? (document.getD kind.name) = none) (kinds : List CollectionKind) :
    collections settings document (kind :: kinds) = collections settings document kinds := by
  simp only [collections, hc]

theorem collections_cons_eq_ok_iff
    {settings : Settings} {document : Entries} {kind : CollectionKind} {c : Collection}
    (hc : Collection.ofValue? (document.getD kind.name) = some c) {kinds : List CollectionKind}
    {r : List (String × Value) × List Renaming} :
    collections settings document (kind :: kinds) = .ok r ↔
      ∃ one rest, collection settings kind c = .ok one ∧
        collections settings document kinds = .ok rest ∧
        r = ((kind.name, one.1) :: rest.1, one.2 ++ rest.2) := by
  simp only [collections, hc]
  cases collection settings kind c with
  | error e => simp [bind, Except.bind]
  | ok one =>
      cases collections settings document kinds <;> simp [bind, Except.bind, eq_comm]

theorem restructure_map_eq_ok_iff
    {settings : Settings} {document : Entries} {r : Value × List Renaming} :
    restructure settings (.map document) = .ok r ↔
      ∃ found, collections settings document CollectionKind.all = .ok found ∧
        r = (object found.1, found.2) := by
  simp only [restructure, mapping, bind, Except.bind]
  cases collections settings document CollectionKind.all <;> simp [eq_comm]

theorem collections_eq_ok
    {settings : Settings} {document : Entries} {kinds : List CollectionKind}
    (hkinds : kinds.Nodup) {r : List (String × Value) × List Renaming}
    (hcollections : collections settings document kinds = .ok r) :
    (∀ x ∈ r.1, ∃ kind ∈ kinds,
        x.1 = kind.name ∧ IsCanonical settings document kind (some x.2)) ∧
      ∀ kind ∈ kinds,
        IsCanonical settings document kind (Entries.get? kind.name (Entries.named r.1)) := by
  induction kinds generalizing r with
  | nil =>
      cases hcollections
      simp
  | cons kind kinds ih =>
      rw [List.nodup_cons] at hkinds
      cases hc : Collection.ofValue? (document.getD kind.name) with
      | none =>
          rw [collections_cons_of_none hc] at hcollections
          obtain ⟨hnames, hall⟩ := ih hkinds.2 hcollections
          refine ⟨fun x hx => ?_, fun other hother => ?_⟩
          · obtain ⟨other, hother, hname⟩ := hnames x hx
            exact ⟨other, List.mem_cons_of_mem _ hother, hname⟩
          · rcases List.mem_cons.mp hother with rfl | hmem
            · simp only [IsCanonical, hc]
              refine Entries.get?_named_of_not_mem fun h => ?_
              obtain ⟨x, hx, hname⟩ := List.mem_map.mp h
              obtain ⟨kind, hkind, hsame, -⟩ := hnames x hx
              rw [name_injective (hname.symm.trans hsame)] at hkinds
              exact hkinds.1 hkind
            · exact hall other hmem
      | some c =>
          obtain ⟨one, rest, hone, hrest, rfl⟩ := (collections_cons_eq_ok_iff hc).mp hcollections
          obtain ⟨hnames, hall⟩ := ih hkinds.2 hrest
          obtain ⟨es, hes, hentries⟩ := collection_eq_ok hone
          have hcanonical : IsCanonical settings document kind (some one.1) := by
            simp only [IsCanonical, hc]
            exact ⟨es, by rw [hes], hentries⟩
          refine ⟨fun x hx => ?_, fun other hother => ?_⟩
          · rcases List.mem_cons.mp hx with rfl | hmem
            · exact ⟨kind, List.mem_cons_self, rfl, hcanonical⟩
            · obtain ⟨other, hother, hname⟩ := hnames x hmem
              exact ⟨other, List.mem_cons_of_mem _ hother, hname⟩
          · rcases List.mem_cons.mp hother with rfl | hmem
            · simpa [Entries.get?_named] using hcanonical
            · have hne : kind.name ≠ other.name := fun h => hkinds.1 (name_injective h ▸ hmem)
              have hget : Entries.get? other.name (Entries.named ((kind.name, one.1) :: rest.1)) =
                  Entries.get? other.name (Entries.named rest.1) := by
                simp [Entries.get?_named, hne]
              rw [hget]
              exact hall other hmem

/-- The canonical form of a document has canonical forms of its collections. -/
theorem restructure_eq_ok
    {settings : Settings} {tree : Value} {r : Value × List Renaming}
    (hrestructure : restructure settings tree = .ok r) :
    ∃ document attributes, tree = .map document ∧ r.1 = object attributes ∧
      (∀ x ∈ attributes, ∃ kind, IsCanonical settings document kind (some x.2)) ∧
      ∀ kind, IsCanonical settings document kind
        (Entries.get? kind.name (Entries.named attributes)) := by
  cases tree with
  | map document =>
      obtain ⟨found, hcollections, rfl⟩ := restructure_map_eq_ok_iff.mp hrestructure
      obtain ⟨hnames, hall⟩ := collections_eq_ok (by decide) hcollections
      refine ⟨document, found.1, rfl, rfl, fun x hx => ?_,
        fun kind => hall kind (by cases kind <;> decide)⟩
      obtain ⟨kind, -, -, hkind⟩ := hnames x hx
      exact ⟨kind, hkind⟩
  | _ => cases hrestructure

theorem listedComponent_eq_ok
    {raw : Entries} (hhas : raw.Has ["component_name"]) :
    listedComponent (.map raw) =
      .ok (object (pick ["description", "used_in"] raw ++
        [("name", raw.getD "component_name"), ("type", .text ComponentType.fieldGroup.tag)])) := by
  have hname := Entries.get?_of_isPresent (hhas "component_name" (by simp))
  simp [listedComponent, mapping, hname, bind, Except.bind]

theorem listedRule_eq_ok
    {raw : Entries} (hhas : raw.Has ["field", "rule"]) :
    listedRule (.map raw) =
      .ok (object [("name", raw.getD "field"), ("rules", object [("message", raw.getD "rule")]),
        ("message", raw.getD "rule")]) := by
  have hfield := Entries.get?_of_isPresent (hhas "field" (by simp))
  have hrule := Entries.get?_of_isPresent (hhas "rule" (by simp))
  simp [listedRule, hfield, hrule]

theorem isWalkable_of_isEntry
    {settings : Settings} {c : Collection} {v : Value} (hentry : IsEntry settings .screens c v) :
    ∃ raw, v = .map raw ∧ IsWalkable raw := by
  cases c with
  | keyed entries => exact hentry.imp fun raw h => ⟨h.1, isWalkable_of_isScreen h.2⟩
  | listed items => exact hentry.imp fun raw h => ⟨h.1, isWalkable_of_isListedScreen h.2⟩

/-! ## Totality -/

/-- There is a result, unless something in the value cannot be written. -/
def SucceedsFor {α : Type} (v : Value) (outcome : Except Obstacle α) : Prop :=
  (∃ a, outcome = .ok a) ∨ (∃ cause, outcome = .error (.notWritten cause)) ∧ v.hasText = false

theorem SucceedsFor.mono
    {α : Type} {v w : Value} {outcome : Except Obstacle α} (hsucceeds : SucceedsFor v outcome)
    (hpart : w.hasText = true → v.hasText = true) :
    SucceedsFor w outcome := by
  refine hsucceeds.imp_right (And.imp_right fun hlong => ?_)
  rw [← Bool.not_eq_true] at hlong ⊢
  exact fun hwhole => hlong (hpart hwhole)

section Results

variable {α β : Type} {v : Value}

theorem SucceedsFor.exists_ok
    {outcome : Except Obstacle α} (hsucceeds : SucceedsFor v outcome)
    (htext : v.hasText = true) :
    ∃ a, outcome = .ok a := by
  refine hsucceeds.resolve_right fun ⟨_, hlong⟩ => ?_
  cases hlong.symm.trans htext

theorem succeedsFor_ok (v : Value) (a : α) : SucceedsFor v (.ok a) := .inl ⟨a, rfl⟩

theorem SucceedsFor.bind
    {outcome : Except Obstacle α} {next : α → Except Obstacle β}
    (hsucceeds : SucceedsFor v outcome)
    (hnext : ∀ a, outcome = .ok a → SucceedsFor v (next a)) :
    SucceedsFor v (outcome >>= next) := by
  rcases hsucceeds with ⟨a, rfl⟩ | ⟨⟨cause, rfl⟩, hlong⟩
  · exact hnext a rfl
  · exact .inr ⟨⟨cause, rfl⟩, hlong⟩

theorem succeedsFor_mapM
    {items : List α} {f : α → Except Obstacle β} (hitems : ∀ x ∈ items, SucceedsFor v (f x)) :
    SucceedsFor v (items.mapM f) := by
  induction items with
  | nil => exact succeedsFor_ok v _
  | cons x xs ih =>
      rw [List.mapM_cons]
      refine (hitems x List.mem_cons_self).bind fun y _ => ?_
      refine (ih fun x hx => hitems x (List.mem_cons_of_mem _ hx)).bind fun ys _ => ?_
      exact succeedsFor_ok v _

theorem succeedsFor_write
    {k : Key} (hkey : v.hasText = true → k.hasText = true) :
    SucceedsFor v (k.write.mapError Obstacle.notWritten) := by
  cases hwritten : k.write with
  | ok s => exact succeedsFor_ok v s
  | error cause =>
      refine .inr ⟨⟨cause, rfl⟩, ?_⟩
      have hnone := Key.write_eq_error_iff.mp hwritten
      rw [← Bool.not_eq_true] at hnone ⊢
      exact fun htext => hnone (hkey htext)

end Results

theorem succeedsFor_entryOf
    {settings : Settings} {kind : CollectionKind} {c : Collection} {v : Value}
    (hentry : IsEntry settings kind c v) :
    (∃ raw, v = .map raw) ∧ SucceedsFor v (entryOf settings kind c v) := by
  cases kind with
  | screens =>
      obtain ⟨raw, rfl, hwalkable⟩ := isWalkable_of_isEntry hentry
      rw [entryOf_screens]
      refine ⟨⟨raw, rfl⟩, ?_⟩
      rcases screen_of_isWalkable settings hwalkable with
        ⟨parts, -, hok⟩ | ⟨cause, hfail, hlacks⟩
      · exact .inl ⟨_, hok⟩
      · exact .inr ⟨⟨cause, hfail⟩, not_hasText_of_lacksText hlacks⟩
  | components =>
      cases c with
      | keyed entries =>
          obtain ⟨raw, rfl, -⟩ := hentry
          exact ⟨⟨raw, rfl⟩, .inl ⟨_, rfl⟩⟩
      | listed items =>
          obtain ⟨raw, rfl, hhas⟩ := hentry
          exact ⟨⟨raw, rfl⟩, .inl ⟨_, listedComponent_eq_ok hhas⟩⟩
  | rules =>
      cases c with
      | keyed entries =>
          obtain ⟨raw, rfl, -⟩ := hentry
          exact ⟨⟨raw, rfl⟩, .inl ⟨_, rfl⟩⟩
      | listed items =>
          obtain ⟨raw, rfl, hhas⟩ := hentry
          exact ⟨⟨raw, rfl⟩, .inl ⟨_, listedRule_eq_ok hhas⟩⟩

theorem succeedsFor_wantedKey
    {raw : Entries} (kind : CollectionKind) (place : Nat) :
    SucceedsFor (.map raw) ((wantedKey kind raw place).mapError Obstacle.notWritten) := by
  cases hwanted : wantedKey kind raw place with
  | ok s => exact succeedsFor_ok _ s
  | error cause =>
      refine .inr ⟨⟨cause, rfl⟩, ?_⟩
      rw [← Bool.not_eq_true]
      intro htext
      cases hwanted.symm.trans (wantedKey_eq_ok_iff.mpr ⟨Value.hasText_getD htext _, rfl⟩)

theorem succeedsFor_keyed
    {settings : Settings} {kind : CollectionKind} {entries : Entries}
    (hentries : ∀ e ∈ entries, SucceedsFor e.2 (keyedEntry settings kind e.2)) :
    SucceedsFor (.map entries) (keyed settings kind entries) := by
  have hwritten (e : Key × Value) (he : e ∈ entries) (htext : (Value.map entries).hasText = true) :=
    (Value.hasText_map entries).mp htext e he
  unfold keyed
  refine SucceedsFor.bind (succeedsFor_mapM fun e he => ?_) fun done _ => succeedsFor_ok _ _
  refine (succeedsFor_write fun htext => (hwritten e he htext).1).bind fun key _ => ?_
  refine ((hentries e he).mono fun htext => (hwritten e he htext).2).bind fun w _ => ?_
  exact succeedsFor_ok _ _

theorem succeedsFor_listed
    {settings : Settings} {kind : CollectionKind} {v : Value} {items : List Value}
    (htexts : v.hasText = true → ∀ x ∈ items, x.hasText = true)
    (hitems : ∀ x ∈ items, (∃ raw, x = .map raw) ∧
      SucceedsFor x (listedEntry settings kind x))
    (taken : List (String × Value)) (place : Nat) :
    SucceedsFor v (listed settings kind taken place items) := by
  induction items generalizing taken place with
  | nil => exact succeedsFor_ok _ _
  | cons x xs ih =>
      obtain ⟨⟨raw, rfl⟩, hentry⟩ := hitems x List.mem_cons_self
      have htext (hwhole : v.hasText = true) := htexts hwhole (.map raw) List.mem_cons_self
      have hrest := ih (fun hwhole x hx => htexts hwhole x (List.mem_cons_of_mem _ hx))
        fun x hx => hitems x (List.mem_cons_of_mem _ hx)
      unfold listed
      refine (hentry.mono htext).bind fun entry _ => ?_
      refine SucceedsFor.bind (succeedsFor_ok v raw) fun raw' hraw => ?_
      cases hraw
      refine ((succeedsFor_wantedKey kind place).mono htext).bind fun wanted _ => ?_
      exact (hrest _ _).bind fun r _ => succeedsFor_ok _ _

theorem succeedsFor_collection
    {settings : Settings} {kind : CollectionKind} {v : Value} {c : Collection}
    (hc : Collection.ofValue? v = some c)
    (hentries : ∀ x ∈ c.steps, IsEntry settings kind c x.2) :
    SucceedsFor v (collection settings kind c) := by
  cases c with
  | keyed entries =>
      have hv : v = .map entries := by
        cases v <;> cases hc
        rfl
      subst hv
      refine SucceedsFor.bind (succeedsFor_keyed fun e he => ?_) fun es _ => succeedsFor_ok _ _
      have hstep : (Step.name e.1.render, e.2) ∈ (Collection.keyed entries).steps :=
        List.mem_map.mpr ⟨e, he, rfl⟩
      exact (succeedsFor_entryOf (hentries _ hstep)).2
  | listed items =>
      have hitems : v.items? = some items := by
        cases v <;> cases hc <;> rfl
      refine SucceedsFor.bind (succeedsFor_listed (fun htext => Value.hasText_items htext hitems)
        (fun x hx => ?_) [] 0) fun done _ => succeedsFor_ok _ _
      obtain ⟨step, hstep⟩ := exists_step_of_mem hx
      exact succeedsFor_entryOf (hentries _ hstep)

/-- A tree without findings has a canonical form, unless something in it cannot be written. -/
theorem succeedsFor_restructure
    {settings : Settings} {tree : Value} (hroot : Rules.root settings tree = []) :
    SucceedsFor tree (restructure settings tree) := by
  obtain ⟨document, rfl, hall⟩ := root_eq_nil_iff.mp hroot
  have hcollections (kinds : List CollectionKind) :
      SucceedsFor (.map document) (collections settings document kinds) := by
    induction kinds with
    | nil => exact succeedsFor_ok _ _
    | cons kind kinds ih =>
        have hkind := hall kind
        unfold HasCollection at hkind
        unfold collections
        split
        next hc => exact ih
        next c hc =>
          simp only [hc] at hkind
          refine ((succeedsFor_collection hc hkind.2).mono fun htext =>
            Value.hasText_getD htext _).bind fun one _ => ?_
          exact ih.bind fun rest _ => succeedsFor_ok _ _
  exact SucceedsFor.bind (succeedsFor_ok _ document) fun found hfound => by
    cases hfound
    exact (hcollections _).bind fun r _ => succeedsFor_ok _ _

end Canonical

end Wireframe
