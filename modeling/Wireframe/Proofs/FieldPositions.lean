import Mathlib.Tactic
import Wireframe.Grammar.Check
import Wireframe.Proofs.Grammar

/-!
# Positions of fields

Fields that strict rules look at are in the screens and components of keyed collections, and
below repeaters among these fields.  Nothing else that is wrong in a tree keeps a field from
being looked at: the findings of every such field stand together in the findings of the tree.
-/

namespace Wireframe

/-! ## Positions -/

/-- A sequence is under the key, with that item at that place. -/
def Entries.HasItem (key : String) (place : Nat) (v : Value) (entries : Entries) : Prop :=
  ∃ items, (entries.getD key).items? = some items ∧ items[place]? = some v

/-- A mapping is under that key in a keyed collection. -/
def Value.HasKeyed (kind : CollectionKind) (key : Key) (entries : Entries) (tree : Value) : Prop :=
  ∃ document es, tree = .map document ∧ Entries.getD kind.name document = .map es ∧
    (key, .map entries) ∈ es

namespace Rules

/-- A field of a screen or a component, which no other field repeats. -/
inductive IsTopField (tree : Value) : Location → Value → Prop
  | own {key screen name i v} (hscreen : tree.HasKeyed .screens key screen)
      (hname : name = "fields" ∨ name = "input_fields") (hv : Entries.HasItem name i v screen) :
      IsTopField tree [.name "view", .name key.render, .name name, .place i] v
  | ofSection {key screen part i j v} (hscreen : tree.HasKeyed .screens key screen)
      (hsection : Entries.HasItem "sections" i (.map part) screen)
      (hv : Entries.HasItem "input_fields" j v part) :
      IsTopField tree
        [.name "view", .name key.render, .name "sections", .place i, .name "input_fields",
          .place j] v
  | ofStep {key screen wizard step i j v} (hscreen : tree.HasKeyed .screens key screen)
      (hwizard : Entries.getD "wizard" screen = .map wizard)
      (hstep : Entries.HasItem "steps" i (.map step) wizard)
      (hv : Entries.HasItem "fields" j v step) :
      IsTopField tree
        [.name "view", .name key.render, .name "wizard", .name "steps", .place i, .name "fields",
          .place j] v
  | ofComponent {key component i v} (hcomponent : tree.HasKeyed .components key component)
      (htype : Entries.getD "type" component = .text ComponentType.fieldGroup.tag)
      (hv : Entries.HasItem "fields" i v component) :
      IsTopField tree [.name "common_components", .name key.render, .name "fields", .place i] v

/-- A field that strict rules look at. -/
inductive IsStrictField (tree : Value) : Location → Value → Prop
  | top {location v} (htop : IsTopField tree location v) : IsStrictField tree location v
  | repeated {location entries i v} (hfield : IsStrictField tree location (.map entries))
      (htype : Entries.getD "type" entries = .text FieldType.repeater.tag)
      (hv : Entries.HasItem "item_fields" i v entries) :
      IsStrictField tree (location ++ [.name "item_fields", .place i]) v

/-! ## Findings that stand together -/

section Infix

variable {rule : Rule} {entries : Entries} {key : String} {i : Nat} {v : Value}
  (location : Location)

theorem infix_flatMap
    {α β : Type} {f : α → List β} {items : List α} {a : α} (ha : a ∈ items) :
    f a <:+: items.flatMap f := by
  obtain ⟨before, after, rfl⟩ := List.append_of_mem ha
  rw [List.flatMap_append, List.flatMap_cons, ← List.append_assoc]
  exact List.infix_append _ _ _

theorem infix_each
    {items : List Value} (hv : items[i]? = some v) :
    rule v (location ++ [.place i]) <:+: each rule items location :=
  infix_flatMap (f := fun item : Value × Nat => rule item.1 (location ++ [.place item.2]))
    (List.mk_mem_zipIdx_iff_getElem?.mpr hv)

theorem infix_optional
    {subject : String} (hv : Entries.HasItem key i v entries) :
    rule v (location ++ [.name key, .place i]) <:+:
      optional key subject rule entries location := by
  obtain ⟨items, hitems, hget⟩ := hv
  simp only [optional, Value.isPresent_of_items? hitems, sequence, hitems, if_true]
  rw [List.append_cons]
  exact infix_each _ hget

end Infix

section Strict

variable (settings : Settings) {tree : Value} {entries : Entries} {i : Nat} {v : Value}
  (location : Location)

theorem infix_formSection (hv : Entries.HasItem "input_fields" i v entries) :
    field settings v (location ++ [.name "input_fields", .place i]) <:+:
      formSection settings (.map entries) location :=
  (infix_optional _ hv).trans (List.suffix_append _ _).isInfix

theorem infix_wizardStep (hv : Entries.HasItem "fields" i v entries) :
    field settings v (location ++ [.name "fields", .place i]) <:+:
      wizardStep settings (.map entries) location := by
  obtain ⟨items, hitems, hget⟩ := hv
  refine List.IsInfix.trans ?_ (List.suffix_append _ _).isInfix
  simp only [hitems]
  rw [List.append_cons]
  exact infix_each _ hget

theorem infix_wizard (hstep : Entries.HasItem "steps" i v entries) :
    wizardStep settings v (location ++ [.name "steps", .place i]) <:+:
      wizard settings (.map entries) location := by
  obtain ⟨items, hitems, hget⟩ := hstep
  simp only [wizard, onMap, Value.isPresent_of_items? hitems, sequence, hitems, if_true]
  rw [List.append_cons]
  exact infix_each _ hget

theorem infix_optionalWizard {wizardEntries : Entries}
    (hwizard : Entries.getD "wizard" entries = .map wizardEntries) :
    wizard settings (.map wizardEntries) (location ++ [.name "wizard"]) <:+:
      optionalWizard settings entries location := by
  have hpresent : (Value.map wizardEntries).isPresent = true := rfl
  simp only [optionalWizard, hwizard, hpresent, if_true, List.infix_rfl]

/-- What a screen has to say about its fields stands together. -/
theorem infix_screen {part : List Finding}
    (hpart : part ∈ [optionalWizard settings entries location,
      optional "sections" "Screen sections" (formSection settings) entries location,
      optional "fields" "Screen fields" (field settings) entries location,
      optional "input_fields" "Screen input_fields" (field settings) entries location]) :
    part <:+: screen settings (.map entries) location := by
  have hflatten : screen settings (.map entries) location =
      [require "Screen" ["title"] entries location,
        optionalWizard settings entries location,
        optional "sections" "Screen sections" (formSection settings) entries location,
        optional "fields" "Screen fields" (field settings) entries location,
        optional "input_fields" "Screen input_fields" (field settings) entries location,
        optional "display_fields" "Screen display_fields" columnName entries location,
        optional "filters" "Screen filters" columnName entries location,
        optional "actions" "Screen actions" action entries location].flatten := by
    simp only [screen, onMap, List.flatten_cons, List.flatten_nil, List.append_nil,
      List.append_assoc]
  rw [hflatten]
  apply List.infix_of_mem_flatten
  simp only [List.mem_cons, List.not_mem_nil, or_false] at hpart ⊢
  tauto

theorem componentType?_eq_fieldGroup_iff
    {v : Value} :
    componentType? v = some .fieldGroup ↔ v = .text ComponentType.fieldGroup.tag := by
  constructor
  · intro hknown
    obtain ⟨tag, htag, hfind⟩ := Option.bind_eq_some_iff.mp hknown
    have hsame : ComponentType.fieldGroup.tag = tag := by simpa using List.find?_some hfind
    rw [hsame]
    exact Value.text?_eq_some_iff.mp htag
  · rintro rfl
    rfl

theorem infix_component
    (htype : Entries.getD "type" entries = .text ComponentType.fieldGroup.tag)
    (hv : Entries.HasItem "fields" i v entries) :
    field settings v (location ++ [.name "fields", .place i]) <:+:
      component settings (.map entries) location := by
  have hknown : (componentType? (entries.getD "type") == some .fieldGroup) = true := by
    rw [beq_iff_eq, componentType?_eq_fieldGroup_iff, htype]
  simp only [component, onMap, hknown, if_true]
  refine List.IsInfix.trans ?_ (List.prefix_append _ _).isInfix
  exact (infix_optional _ hv).trans (List.suffix_append _ _).isInfix

theorem infix_field
    (htype : Entries.getD "type" entries = .text FieldType.repeater.tag)
    (hv : Entries.HasItem "item_fields" i v entries) :
    field settings v (location ++ [.name "item_fields", .place i]) <:+:
      field settings (.map entries) location := by
  obtain ⟨items, hitems, hget⟩ := hv
  have hrepeater : isRepeater entries = true := by simp [isRepeater, htype, Value.text?]
  rw [field_map]
  simp only [hrepeater, if_true, hitems]
  refine List.IsInfix.trans ?_ (List.suffix_append _ _).isInfix
  rw [List.append_cons]
  exact infix_each _ hget

theorem infix_entries
    {kind : CollectionKind} {rule : Rule} {seen : List Step} {steps : List (Step × Value)}
    {x : Step × Value} (hx : x ∈ steps) :
    rule x.2 [.name kind.name, x.1] <:+: Rules.entries kind rule seen steps := by
  induction steps generalizing seen with
  | nil => cases hx
  | cons y rest ih =>
      obtain ⟨step, w⟩ := y
      rcases List.mem_cons.mp hx with rfl | hmem
      · exact List.infix_append _ _ _
      · exact (ih hmem).trans (List.suffix_append _ _).isInfix

theorem infix_root_of_hasKeyed
    {kind : CollectionKind} {key : Key} (hkeyed : tree.HasKeyed kind key entries) :
    strict settings kind (.map entries) [.name kind.name, .name key.render] <:+:
      root settings tree := by
  obtain ⟨document, es, rfl, hget, hmem⟩ := hkeyed
  have hkind : kind ∈ CollectionKind.all := by cases kind <;> decide
  have hpart : documentPart settings document kind =
      Rules.entries kind (strict settings kind) [] (Collection.keyed es).steps := by
    have hpresent : (Value.map es).isPresent = true := rfl
    simp [documentPart, hget, hpresent, Collection.ofValue?, collection]
  refine List.IsInfix.trans ?_ (infix_flatMap (f := documentPart settings document) hkind)
  rw [hpart]
  have hstep : (Step.name key.render, Value.map entries) ∈ (Collection.keyed es).steps :=
    List.mem_map.mpr ⟨_, hmem, rfl⟩
  exact infix_entries hstep

theorem infix_root_of_top (htop : IsTopField tree location v) :
    field settings v location <:+: root settings tree := by
  cases htop with
  | @own key screen _ _ _ hscreen hname hv =>
      refine List.IsInfix.trans ?_ (infix_root_of_hasKeyed settings hscreen)
      rcases hname with rfl | rfl
      · refine List.IsInfix.trans ?_ (infix_screen settings _ (.tail _ (.tail _ (.head _))))
        exact infix_optional [.name "view", .name key.render] hv
      · refine List.IsInfix.trans ?_
          (infix_screen settings _ (.tail _ (.tail _ (.tail _ (.head _)))))
        exact infix_optional [.name "view", .name key.render] hv
  | @ofSection key _ _ i _ _ hscreen hsection hv =>
      refine List.IsInfix.trans ?_ (infix_root_of_hasKeyed settings hscreen)
      refine List.IsInfix.trans ?_ (infix_screen settings _ (.tail _ (.head _)))
      refine List.IsInfix.trans ?_ (infix_optional [.name "view", .name key.render] hsection)
      exact infix_formSection settings
        [.name "view", .name key.render, .name "sections", .place i] hv
  | @ofStep key _ _ _ i _ _ hscreen hwizard hstep hv =>
      refine List.IsInfix.trans ?_ (infix_root_of_hasKeyed settings hscreen)
      refine List.IsInfix.trans ?_ (infix_screen settings _ (.head _))
      refine List.IsInfix.trans ?_ (infix_optionalWizard settings _ hwizard)
      refine List.IsInfix.trans ?_
        (infix_wizard settings [.name "view", .name key.render, .name "wizard"] hstep)
      exact infix_wizardStep settings
        [.name "view", .name key.render, .name "wizard", .name "steps", .place i] hv
  | @ofComponent key _ _ _ hcomponent htype hv =>
      refine List.IsInfix.trans ?_ (infix_root_of_hasKeyed settings hcomponent)
      exact infix_component settings [.name "common_components", .name key.render] htype hv

/-- The findings of a field that strict rules look at stand together in those of its tree. -/
theorem infix_root (hfield : IsStrictField tree location v) :
    field settings v location <:+: root settings tree := by
  induction hfield with
  | top htop => exact infix_root_of_top settings _ htop
  | repeated hfield htype hv ih => exact (infix_field settings _ htype hv).trans ih

end Strict

end Rules

end Wireframe
