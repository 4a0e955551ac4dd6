import Mathlib.Tactic
import Wireframe.Proofs.Correspondence
import Wireframe.Proofs.Coverage
import Wireframe.Proofs.Nodes
import Wireframe.Proofs.Shorthands

/-!
# Origins of faults

What cannot be read in the canonical form of an entry is written in the entry.  Canonical
form carries values over or moves them, and what it makes itself is read without fail.  So a
fault that is followed through a canonical form leads to a value that is found in the entry as
well, at the same location or where it was moved from.
-/

namespace Wireframe

namespace Canonical

open Reading Rules

/-- The locations in an entry whose values are somewhere else in canonical form, and where. -/
inductive IsMoved (raw : Entries) : CollectionKind → (keyed : Bool) → Location → Location → Prop
  | title (l : Location) : IsMoved raw .screens false (.name "name" :: l) (.name "title" :: l)
  | description (keyed : Bool) (l : Location) :
      IsMoved raw .screens keyed (.name "purpose" :: l) (.name "description" :: l)
  | inputFields (keyed : Bool) (l : Location) :
      IsMoved raw .screens keyed (.name "input_fields" :: l) (.name "fields" :: l)
  | sectionField (keyed : Bool) {sections : List Entries} (i j : Nat) (l : Location)
      (hsections : (raw.getD "sections").items? = some (sections.map Value.map)) :
      IsMoved raw .screens keyed
        (.name "sections" :: .place i :: .name "input_fields" :: .place j :: l)
        (.name "fields" :: .place (((sections.take i).flatMap ownFields).length + j : Nat) :: l)
  | componentName (l : Location) :
      IsMoved raw .components false (.name "component_name" :: l) (.name "name" :: l)
  | ruleName (l : Location) :
      IsMoved raw .rules false (.name "field" :: l) (.name "name" :: l)
  | ruleMessage (l : Location) :
      IsMoved raw .rules false (.name "rule" :: l) (.name "message" :: l)
  | ruleContent (l : Location) :
      IsMoved raw .rules false (.name "rule" :: l) (.name "rules" :: .name "message" :: l)

/-- What is at one location of an entry is at the other in its canonical form. -/
def Carries (raw : Entries) (kind : CollectionKind) (keyed : Bool) (source target : Location) :
    Prop :=
  source = target ∨ IsMoved raw kind keyed source target

/-- The location is followed through the canonical form `w` of an entry to a value that is
written in the entry. -/
def IsTraced (raw : Entries) (kind : CollectionKind) (keyed : Bool) (w : Value) (l : Location) :
    Prop :=
  ∃ source x, Carries raw kind keyed source (w.trail l) ∧
    (Value.map raw).At Step.Meets source x ∧ w.At Step.Meets (w.trail l) x

/-- The faults of the canonical form of an entry are traced to the entry. -/
def AreTraced (raw : Entries) (kind : CollectionKind) (keyed : Bool) (w : Value)
    (faults : List Fault) : Prop :=
  ∀ f ∈ faults, IsTraced raw kind keyed w f.location

section Traces

variable {raw : Entries} {kind : CollectionKind} {keyed : Bool} {w x : Value}

/-- Below a value that is carried over everything is traced. -/
theorem isTraced_append
    {source target : Location} (hdescend : w.descend? target = some x)
    (hsource : (Value.map raw).At Step.Meets source x)
    (hcarries : ∀ l, Carries raw kind keyed (source ++ l) (target ++ l)) (l : Location) :
    IsTraced raw kind keyed w (target ++ l) := by
  obtain ⟨y, hy⟩ := Value.exists_at_trail x l
  refine ⟨source ++ x.trail l, y, ?_, hsource.append hy, ?_⟩
  · rw [Value.trail_append hdescend]
    exact hcarries _
  · rw [Value.trail_append hdescend]
    exact (Value.at_of_descend? hdescend).append hy

theorem isAdditive_areTraced : IsAdditive (AreTraced raw kind keyed w) := isAdditive_forall _

theorem isAdditive_under
    {Q : List Fault → Prop} (hadd : IsAdditive Q) (step : Step) :
    IsAdditive fun faults => Q (Fault.under step faults) := by
  intro fs gs hfs hgs
  rw [Fault.under, List.map_append]
  exact hadd _ _ hfs hgs

theorem areTraced_under
    {step : Step} (htraced : ∀ l, IsTraced raw kind keyed w (step :: l)) (faults : List Fault) :
    AreTraced raw kind keyed w (Fault.under step faults) := by
  simp only [AreTraced, Fault.under, List.forall_mem_map]
  exact fun f _ => htraced f.location

theorem fails_under_of_isTraced
    {step : Step} (htraced : ∀ l, IsTraced raw kind keyed w (step :: l))
    (outcome : Outcome) :
    Fails (fun faults => AreTraced raw kind keyed w (Fault.under step faults)) outcome :=
  fun faults _ => areTraced_under htraced faults

theorem isTraced_attribute
    {entries : Entries} {name source : String} (hpresent : (raw.getD source).isPresent = true)
    (hget : Entries.get? name entries = some (raw.getD source))
    (hcarries : ∀ l, Carries raw kind keyed (.name source :: l) (.name name :: l)) (l : Location) :
    IsTraced raw kind keyed (.map entries) (.name name :: l) := by
  have hdescend : (Value.map entries).descend? [.name name] = some (raw.getD source) :=
    Value.descend?_name hget []
  have hsource := (Value.child_of_isPresent hpresent).at.meets
  exact isTraced_append hdescend hsource hcarries l

theorem isTraced_item
    {entries : Entries} {name : String} {items : List Value} {place : Nat}
    (hget : Entries.get? name entries = some (.list items)) (hitem : items[place]? = some x)
    {source : Location} (hsource : (Value.map raw).At Step.Spells source x)
    (hcarries : ∀ l, Carries raw kind keyed (source ++ l) (.name name :: .place place :: l))
    (l : Location) :
    IsTraced raw kind keyed (.map entries) (.name name :: .place place :: l) := by
  have hdescend : (Value.map entries).descend? [.name name, .place place] = some x := by
    rw [Value.descend?_name hget, Value.descend?_place hitem]
    rfl
  exact isTraced_append hdescend hsource.meets hcarries l

theorem at_of_items?
    {name : String} {items : List Value}
    (hitems : (raw.getD name).items? = some items) {place : Nat} (hitem : items[place]? = some x) :
    (Value.map raw).At Step.Spells [.name name, .place place] x := by
  have hchild := Value.child_of_isPresent (Value.isPresent_of_items? hitems)
  exact .child hchild (.child (.item hitems hitem) .root)

end Traces

/-! ## Screens -/

section Screen

variable {settings : Settings} {keyed : Bool} {raw : Entries} {parts : List (String × Value)}

/-- The title of a screen is written in it. -/
def HasOwnTitle (keyed : Bool) (raw : Entries) : Prop :=
  ∃ source, (raw.getD source).isPresent = true ∧ title raw = raw.getD source ∧
    ∀ l, Carries raw .screens keyed (.name source :: l) (.name "title" :: l)

theorem hasOwnTitle_of_title
    (hpresent : (raw.getD "title").isPresent = true) (keyed : Bool) :
    HasOwnTitle keyed raw :=
  ⟨"title", hpresent, by simp [title, Value.coalesce, hpresent], fun _ => .inl rfl⟩

theorem hasOwnTitle_of_isListedScreen
    (hscreen : IsListedScreen raw) :
    HasOwnTitle false raw := by
  by_cases htitle : (raw.getD "title").isPresent = true
  · exact hasOwnTitle_of_title htitle false
  · have hname : (raw.getD "name").isPresent = true := by
      rcases hscreen.named with hnamed | htitled
      · exact hnamed "name" (by simp)
      · exact absurd (htitled "title" (by simp)) htitle
    refine ⟨"name", hname, ?_, fun l => .inr (.title l)⟩
    simp [title, Value.coalesce, htitle, hname]

/-- The description of a screen is written in it. -/
theorem exists_source_of_purpose
    {v : Value} (hget : Entries.get? "description" (Entries.named (purpose raw)) = some v)
    (keyed : Bool) :
    ∃ source, (raw.getD source).isPresent = true ∧ v = raw.getD source ∧
      ∀ l, Carries raw .screens keyed (.name source :: l) (.name "description" :: l) := by
  by_cases hdescription : (raw.getD "description").isPresent = true
  · refine ⟨"description", hdescription, ?_, fun _ => .inl rfl⟩
    simpa [purpose, Value.coalesce, hdescription, Entries.get?_named, eq_comm] using hget
  · by_cases hpurpose : (raw.getD "purpose").isPresent = true
    · refine ⟨"purpose", hpurpose, ?_, fun l => .inr (.description keyed l)⟩
      simpa [purpose, Value.coalesce, hdescription, hpurpose, Entries.get?_named, eq_comm]
        using hget
    · have hnone : Value.coalesce [raw.getD "description", raw.getD "purpose"] = .null := by
        simp [Value.coalesce, hdescription, hpurpose]
      unfold purpose at hget
      rw [hnone] at hget
      cases hget

theorem fails_section
    {sections : List Entries} {i : Nat} {s : Entries}
    (hsections : (raw.getD "sections").items? = some (sections.map Value.map))
    (hs : sections[i]? = some s) {entries : Entries}
    (hget : Entries.get? "sections" entries =
      some (.list (sections.map fun s => object (pick sectionNames s)))) :
    Fails (fun faults => AreTraced raw .screens keyed (.map entries)
        (Fault.under (.name "sections") (Fault.under (.place i) faults)))
      (ofValue (object (pick sectionNames s)) (.one (.record .formSection))) := by
  have hneeded : ∀ a ∈ RecordType.formSection.attributes, a.default ≠ .required := by decide
  have hitem : (sections.map Value.map)[i]? = some (.map s) := by simp [hs]
  have hkept : (sections.map fun s => object (pick sectionNames s))[i]? =
      some (object (pick sectionNames s)) := by simp [hs]
  have hadd : IsAdditive fun faults => AreTraced raw .screens keyed (.map entries)
      (Fault.under (.name "sections") (Fault.under (.place i) faults)) :=
    isAdditive_under (isAdditive_under isAdditive_areTraced _) _
  rw [object, ofValue_record]
  apply fails_of_written hadd (by simp) (expand_of_not_field (by simp) _)
  · intro a ha name hname v hv faults hfaults
    have hpicked := hv
    rw [get?_pick] at hv
    split_ifs at hv with hpresent
    cases hv
    simp only [AreTraced, Fault.under, List.forall_mem_map]
    intro f _
    have hdescend : (Value.map entries).descend? [.name "sections", .place i, .name name] =
        some (s.getD name) := by
      rw [Value.descend?_name hget, Value.descend?_place hkept]
      exact Value.descend?_name hpicked []
    have hsource : (Value.map raw).At Step.Spells [.name "sections", .place i, .name name]
        (s.getD name) :=
      (at_of_items? hsections hitem).append (Value.child_of_isPresent hpresent.2).at
    exact isTraced_append hdescend hsource.meets (fun _ => .inl rfl) f.location
  · exact fun a ha hrequired => absurd hrequired (hneeded a ha)

/-! ### Fields and actions -/

section Lists

variable {entries : Entries}

theorem fails_of_traced_items
    {kind : CollectionKind} {w : Value} {name : String} {items : List Value} {k : Kind}
    {s : Shape} (hkinds : s.kinds = [.listOf k])
    (hitems : ∀ (i : Nat) (x : Value), items[i]? = some x → IsReadable x (.one k) ∨
      ∀ l, IsTraced raw kind keyed w (.name name :: .place i :: l)) :
    Fails (fun faults => AreTraced raw kind keyed w (Fault.under (.name name) faults))
      (ofValue (.list items) s) := by
  apply fails_of_items (isAdditive_under isAdditive_areTraced _) hkinds
  intro i x hx
  rcases hitems i x hx with hreadable | htraced
  · exact hreadable.fails _
  · intro faults _
    simp only [AreTraced, Fault.under, List.forall_mem_map]
    exact fun f _ => htraced f.location

/-- A field of a section comes after those of the sections before it. -/
theorem exists_place_of_flatMap
    {sections : List Entries} {n : Nat} {x : Value}
    (hx : (sections.flatMap ownFields)[n]? = some x) :
    ∃ (i j : Nat) (s : Entries), sections[i]? = some s ∧ (ownFields s)[j]? = some x ∧
      n = ((sections.take i).flatMap ownFields).length + j := by
  induction sections generalizing n with
  | nil => cases hx
  | cons s rest ih =>
      rw [List.flatMap_cons] at hx
      by_cases hn : n < (ownFields s).length
      · rw [List.getElem?_append_left hn] at hx
        exact ⟨0, n, s, rfl, hx, by simp⟩
      · rw [List.getElem?_append_right (by omega)] at hx
        obtain ⟨i, j, t, hi, hj, hplace⟩ := ih hx
        refine ⟨i + 1, j, t, hi, hj, ?_⟩
        rw [List.take_succ_cons, List.flatMap_cons, List.length_append]
        omega

theorem items?_of_ownFields
    {s : Entries} {j : Nat} {x : Value} (hx : (ownFields s)[j]? = some x) :
    ∃ items, (s.getD "input_fields").items? = some items ∧ items[j]? = some x := by
  unfold ownFields at hx
  cases hitems : (s.getD "input_fields").items? with
  | none =>
      rw [hitems] at hx
      cases hx
  | some items =>
      rw [hitems] at hx
      exact ⟨items, rfl, hx⟩

theorem exists_fields_of_hasContent
    (hparts : HasContent settings raw parts) {v : Value}
    (hcontent : Entries.get? "fields" (Entries.named parts) = some v) :
    ∃ items, v = .list items := by
  cases hparts with
  | nothing hlacks hfields => cases hcontent
  | _ => exact ⟨_, by simpa [Entries.get?_named, eq_comm] using hcontent⟩

theorem exists_list_of_actions
    {v : Value} (hcontent : Entries.get? "actions" (Entries.named (actions raw)) = some v) :
    ∃ items, v = .list items := by
  unfold actions at hcontent
  split at hcontent
  next others hothers => exact ⟨_, by simpa [Entries.get?_named, eq_comm] using hcontent⟩
  next => cases hcontent

theorem isTraced_field
    (hparts : HasContent settings raw parts) {items : List Value}
    (hcontent : Entries.get? "fields" (Entries.named parts) = some (.list items))
    (hget : Entries.get? "fields" entries = some (.list items)) {n : Nat} {x : Value}
    (hx : items[n]? = some x) :
    IsReadable x (.one .field) ∨
      ∀ l, IsTraced raw .screens keyed (.map entries) (.name "fields" :: .place n :: l) := by
  cases hparts with
  | @sections first rest hsections =>
      have hitems : (first :: rest).flatMap ownFields = items := by
        simpa [Entries.get?_named] using hcontent
      obtain ⟨i, j, s, hs, hj, rfl⟩ := exists_place_of_flatMap (hitems ▸ hx)
      obtain ⟨inputs, hinputs, hinput⟩ := items?_of_ownFields hj
      have hsection : ((first :: rest).map Value.map)[i]? = some (.map s) := by
        rw [List.getElem?_map, hs]
        rfl
      have hsource := (at_of_items? hsections hsection).append (at_of_items? hinputs hinput)
      exact .inr (isTraced_item hget hx hsource fun l => .inr (.sectionField keyed i j l hsections))
  | @fields others hlacks hfields =>
      have hitems : others = items := by simpa [Entries.get?_named] using hcontent
      have hsource := at_of_items? hfields (hitems ▸ hx)
      exact .inr (isTraced_item hget hx hsource fun _ => .inl rfl)
  | @columns names t hlacks hfields hcolumns htable =>
      have hitems : [t] = items := by simpa [Entries.get?_named] using hcontent
      have hmem := List.mem_of_getElem? hx
      obtain ⟨-, heq⟩ := table_eq_ok_iff.mp htable
      rw [← hitems, List.mem_singleton, heq] at hmem
      rw [hmem]
      exact .inl (isReadable_tableOf settings _ _ _)
  | @inputFields others hlacks hfields hinput =>
      have hitems : others = items := by simpa [Entries.get?_named] using hcontent
      have hsource := at_of_items? hinput (hitems ▸ hx)
      exact .inr (isTraced_item hget hx hsource fun l => .inr (.inputFields keyed _))
  | nothing hlacks hfields => cases hcontent

theorem isTraced_action
    (hactions : raw.MayHave "actions" fun v => v.isText = true ∨ v.IsMapOf IsAction)
    {items : List Value}
    (hcontent : Entries.get? "actions" (Entries.named (actions raw)) = some (.list items))
    (hget : Entries.get? "actions" entries = some (.list items)) {n : Nat} {x : Value}
    (hx : items[n]? = some x) :
    IsReadable x (.one .action) ∨
      ∀ l, IsTraced raw .screens keyed (.map entries) (.name "actions" :: .place n :: l) := by
  unfold actions at hcontent
  split at hcontent
  next others hothers =>
    have hitems : others.zipIdx.map (fun a => expandAction a.1 a.2) = items := by
      simpa [Entries.get?_named] using hcontent
    have hexpanded := hx
    rw [← hitems, List.getElem?_map, List.getElem?_zipIdx, Option.map_map,
      Option.map_eq_some_iff] at hexpanded
    obtain ⟨y, hy, rfl⟩ := hexpanded
    rcases hactions.forall_items hothers y (List.mem_of_getElem? hy) with htext | hmap
    · obtain ⟨label, rfl⟩ := Value.eq_text_of_isText htext
      exact .inl (isReadable_expandAction label _)
    · obtain ⟨action, rfl, -⟩ := hmap
      exact .inr (isTraced_item hget hx (at_of_items? hothers hy) fun _ => .inl rfl)
  next => cases hcontent

end Lists

theorem fails_sections
    (hparts : HasContent settings raw parts) {entries : Entries} {v : Value}
    (hcontent : Entries.get? "sections" (Entries.named parts) = some v)
    (hget : Entries.get? "sections" entries = some v) {s : Shape}
    (hkinds : s.kinds = [.listOf (.record .formSection)]) :
    Fails (fun faults => AreTraced raw .screens keyed (.map entries)
      (Fault.under (.name "sections") faults)) (ofValue v s) := by
  cases hparts with
  | @sections first rest hsections =>
      have hv : .list ((first :: rest).map fun s => object (pick sectionNames s)) = v := by
        simpa [Entries.get?_named] using hcontent
      subst hv
      apply fails_of_items (isAdditive_under isAdditive_areTraced _) hkinds
      intro i x hx
      rw [List.getElem?_map, Option.map_eq_some_iff] at hx
      obtain ⟨s, hs, rfl⟩ := hx
      exact fails_section hsections hs hget
  | nothing hlacks hfields => cases hcontent
  | _ => simp [Entries.get?_named] at hcontent

/-- What is wrong with a screen in canonical form is written in the screen. -/
theorem fails_screen
    (hparts : HasContent settings raw parts) (htitle : HasOwnTitle keyed raw)
    (hactions : raw.MayHave "actions" fun v => v.isText = true ∨ v.IsMapOf IsAction) :
    Fails (AreTraced raw .screens keyed (object (screenAttributes raw parts)))
      (ofValue (object (screenAttributes raw parts)) (.one (.record .screen))) := by
  have hnames : ∀ a ∈ RecordType.screen.attributes, ∀ name ∈ a.spellings,
      name ∈ screenNames ∨ name = "title" ∨ name = "description" ∨
        (name = "sections" ∧ a.shape.kinds = [.listOf (.record .formSection)]) ∨
        (name = "fields" ∧ a.shape.kinds = [.listOf .field]) ∨
        (name = "actions" ∧ a.shape.kinds = [.listOf .action]) := by decide
  have hneeded : ∀ a ∈ RecordType.screen.attributes,
      a.default = .required → a.name = "title" := by decide
  rw [object, ofValue_record]
  apply fails_of_written isAdditive_areTraced (by simp) (expand_of_not_field (by simp) _)
  · intro a ha name hname v hget
    rcases hnames a ha name hname with hkept | rfl | rfl | ⟨rfl, hkinds⟩ | ⟨rfl, hkinds⟩ |
      ⟨rfl, hkinds⟩
    · have hpicked := hget
      rw [get?_screenAttributes_kept hparts hkept] at hpicked
      split_ifs at hpicked with hpresent
      cases hpicked
      exact fails_under_of_isTraced (isTraced_attribute hpresent hget fun _ => .inl rfl) _
    · obtain ⟨source, hpresent, heq, hcarries⟩ := htitle
      have hv := hget
      rw [get?_screenAttributes_title, heq] at hv
      cases hv
      exact fails_under_of_isTraced (isTraced_attribute hpresent hget hcarries) _
    · have hv := hget
      rw [get?_screenAttributes_description hparts] at hv
      obtain ⟨source, hpresent, rfl, hcarries⟩ := exists_source_of_purpose hv keyed
      exact fails_under_of_isTraced (isTraced_attribute hpresent hget hcarries) _
    · have hcontent := hget
      rw [get?_screenAttributes_content raw parts (.inl rfl)] at hcontent
      exact fails_sections hparts hcontent hget hkinds
    · have hcontent := hget
      rw [get?_screenAttributes_content raw parts (.inr rfl)] at hcontent
      obtain ⟨items, rfl⟩ := exists_fields_of_hasContent hparts hcontent
      exact fails_of_traced_items hkinds fun i x hx => isTraced_field hparts hcontent hget hx
    · have hcontent := hget
      rw [get?_screenAttributes_actions hparts] at hcontent
      obtain ⟨items, rfl⟩ := exists_list_of_actions hcontent
      exact fails_of_traced_items hkinds fun i x hx => isTraced_action hactions hcontent hget hx
  · intro a ha hrequired
    rw [hneeded a ha hrequired, get?_screenAttributes_title]
    exact Option.some_ne_none _

end Screen

/-! ## Entries -/

theorem getD_of_mem_pick
    {names : List String} {raw : Entries} {e : String × Value} (he : e ∈ pick names raw) :
    (raw.getD e.1).isPresent = true ∧ e.2 = raw.getD e.1 := by
  obtain ⟨name, -, heq⟩ := List.mem_filterMap.mp he
  simp only [Option.ite_none_right_eq_some, Option.some.injEq] at heq
  obtain ⟨hpresent, rfl⟩ := heq
  exact ⟨hpresent, rfl⟩

theorem areTraced_self
    (raw : Entries) (kind : CollectionKind) (keyed : Bool) (faults : List Fault) :
    AreTraced raw kind keyed (.map raw) faults := by
  intro f _
  have hself : IsTraced raw kind keyed (.map raw) ([] ++ f.location) :=
    isTraced_append rfl .root (fun _ => .inl rfl) f.location
  exact hself

theorem fails_listedComponent
    {raw : Entries} (hhas : raw.Has ["component_name"]) {w : Value}
    (hw : listedComponent (.map raw) = .ok w) :
    Fails (AreTraced raw .components false w) (ofValue w (.one (.record .component))) := by
  have hname := hhas "component_name" (by simp)
  have htype : AcceptsOnly .component "type"
      (.word ["field_group", "action_group", "layout", "template"]) := by decide
  have hneeded : ∀ a ∈ RecordType.component.attributes, a.default = .required →
      a.name ∈ (pick ["description", "used_in"] raw).map Prod.fst ++ ["name", "type"] := by
    have hall : ∀ a ∈ RecordType.component.attributes,
        a.default = .required → a.name ∈ ["name", "type"] := by decide
    exact fun a ha hrequired => List.mem_append_right _ (hall a ha hrequired)
  rw [listedComponent_eq_ok hhas, Except.ok.injEq] at hw
  rw [← hw, object, ofValue_record]
  apply fails_of_named isAdditive_areTraced (by simp) (expand_of_not_field (by simp) _) _
    List.map_append hneeded
  intro e he hget a ha hspelling
  rcases List.mem_append.mp he with hpicked | hmade
  · obtain ⟨hpresent, heq⟩ := getD_of_mem_pick hpicked
    rw [heq] at hget
    exact fails_under_of_isTraced (isTraced_attribute hpresent hget fun _ => .inl rfl) _
  · fin_cases hmade
    · exact fails_under_of_isTraced
        (isTraced_attribute hname hget fun l => .inr (.componentName l)) _
    · exact (isReadableAs_word htype (by decide)).fails ha hspelling _

/-- A listed rule is the only one to be made of a mapping in a mapping. -/
theorem fails_ruleContent
    {raw entries : Entries} (hrule : (raw.getD "rule").isPresent = true)
    (hget : Entries.get? "rules" entries = some (object [("message", raw.getD "rule")])) :
    Fails (fun faults => AreTraced raw .rules false (.map entries)
        (Fault.under (.name "rules") faults))
      (ofValue (object [("message", raw.getD "rule")]) (.one (.record .validation))) := by
  have hneeded : ∀ a ∈ RecordType.validation.attributes,
      a.default = .required → a.name ∈ ["message"] := by decide
  rw [object, ofValue_record]
  apply fails_of_named (isAdditive_under isAdditive_areTraced _) (by simp)
    (expand_of_not_field (by simp) _) _ rfl hneeded
  intro e he _ a ha _ faults _
  rw [List.mem_singleton.mp he]
  simp only [AreTraced, Fault.under, List.forall_mem_map]
  intro f _
  have hdescend : (Value.map entries).descend? [.name "rules", .name "message"] =
      some (raw.getD "rule") := by
    rw [Value.descend?_name hget]
    rfl
  exact isTraced_append hdescend (Value.child_of_isPresent hrule).at.meets
    (fun l => .inr (.ruleContent l)) f.location

theorem fails_listedRule
    {raw : Entries} (hhas : raw.Has ["field", "rule"]) {w : Value}
    (hw : listedRule (.map raw) = .ok w) :
    Fails (AreTraced raw .rules false w) (ofValue w (.one (.record .rule))) := by
  have hfield := hhas "field" (by simp)
  have hrule := hhas "rule" (by simp)
  have hcontent : AcceptsOnly .rule "rules" (.record .validation) := by decide
  have hneeded : ∀ a ∈ RecordType.rule.attributes,
      a.default = .required → a.name ∈ ["name", "rules", "message"] := by decide
  rw [listedRule_eq_ok hhas, Except.ok.injEq] at hw
  rw [← hw, object, ofValue_record]
  apply fails_of_named isAdditive_areTraced (by simp) (expand_of_not_field (by simp) _) _
    rfl hneeded
  intro e he hget a ha hspelling
  fin_cases he
  · exact fails_under_of_isTraced (isTraced_attribute hfield hget fun l => .inr (.ruleName l)) _
  · have hread := fails_ruleContent hrule hget
    rwa [ofValue_of_kinds (t := .one (.record .validation)) (hcontent a ha hspelling) rfl]
  · exact fails_under_of_isTraced (isTraced_attribute hrule hget fun l => .inr (.ruleMessage l)) _

/-- What is wrong with an entry in canonical form is written in the entry. -/
theorem fails_entryOf
    {settings : Settings} {kind : CollectionKind} {c : Collection} {v w : Value}
    (hentry : IsEntry settings kind c v) (hw : entryOf settings kind c v = .ok w) :
    ∃ raw, v = .map raw ∧
      Fails (AreTraced raw kind c.isKeyed w) (ofValue w (.one (.record (entryType kind)))) := by
  cases kind with
  | screens =>
      obtain ⟨raw, rfl, hwalkable⟩ := isWalkable_of_isEntry hentry
      rw [entryOf_screens] at hw
      obtain ⟨parts, hparts, rfl⟩ := screen_eq_ok hwalkable hw
      refine ⟨raw, rfl, ?_⟩
      cases c with
      | keyed entries =>
          obtain ⟨raw', heq, hscreen⟩ := hentry
          cases heq
          have htitle := hasOwnTitle_of_title (hscreen.title "title" (by simp)) true
          exact fails_screen hparts htitle (mayHave_mono (fun _ => .inr) hscreen.actions)
      | listed items =>
          obtain ⟨raw', heq, hscreen⟩ := hentry
          cases heq
          exact fails_screen hparts (hasOwnTitle_of_isListedScreen hscreen) hscreen.actions
  | components =>
      cases c with
      | keyed entries =>
          obtain ⟨raw, rfl, -⟩ := hentry
          cases hw
          exact ⟨raw, rfl, fun faults _ => areTraced_self raw _ _ faults⟩
      | listed items =>
          obtain ⟨raw, rfl, hhas⟩ := hentry
          exact ⟨raw, rfl, fails_listedComponent hhas hw⟩
  | rules =>
      cases c with
      | keyed entries =>
          obtain ⟨raw, rfl, -⟩ := hentry
          cases hw
          exact ⟨raw, rfl, fun faults _ => areTraced_self raw _ _ faults⟩
      | listed items =>
          obtain ⟨raw, rfl, hhas⟩ := hentry
          exact ⟨raw, rfl, fails_listedRule hhas hw⟩

end Canonical

end Wireframe
