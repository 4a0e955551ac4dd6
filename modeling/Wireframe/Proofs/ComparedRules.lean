import Mathlib.Tactic
import Wireframe.Proofs.FieldWalks
import Wireframe.Proofs.Nodes

/-!
# Two runs of the rules

Two runs of the rules on two trees go through the same rules as long as the trees look the same
to every rule: values that hold nothing are equal, sequences have like items in the same order,
and mappings have like values under each name.  So findings can be compared rule by rule.  A way
to compare them has to say how it deals with what the runs do not have in common: the types of
fields that the settings exempt, the texts that stand in messages, and the order of the entries
of keyed collections.
-/

namespace Wireframe

namespace Rules

section Parts

variable (Alike : Value → Value → Prop)

/-- The mappings have like values under each name. -/
def SameNames (es fs : Entries) : Prop := ∀ name, Alike (es.getD name) (fs.getD name)

/-- The values look the same to every rule, and their parts are alike. -/
inductive SameParts : Value → Value → Prop
  | leaf {v} (hleaf : ¬ v.IsContainer) : SameParts v v
  | list {xs ys} (hitems : List.Forall₂ Alike xs ys) : SameParts (.list xs) (.list ys)
  | tuple {xs ys} (hitems : List.Forall₂ Alike xs ys) : SameParts (.tuple xs) (.tuple ys)
  | map {es fs} (hnames : SameNames Alike es fs) : SameParts (.map es) (.map fs)

variable {Alike} {v w : Value} (hparts : SameParts Alike v w)

include hparts

theorem SameParts.isPresent_eq : w.isPresent = v.isPresent := by cases hparts <;> rfl

theorem SameParts.isText_eq : w.isText = v.isText := by cases hparts <;> rfl

theorem SameParts.isPlain_eq : w.isPlain = v.isPlain := by cases hparts <;> rfl

theorem SameParts.text?_eq : w.text? = v.text? := by cases hparts <;> rfl

theorem SameParts.isDisplayOnly_eq (settings : Settings) :
    settings.isDisplayOnly w = settings.isDisplayOnly v := by
  cases hparts <;> rfl

theorem SameParts.isPlaceholder_eq (settings : Settings) :
    settings.isPlaceholder w = settings.isPlaceholder v := by
  cases hparts <;> rfl

theorem SameParts.items? : Option.Rel (List.Forall₂ Alike) v.items? w.items? := by
  cases hparts with
  | leaf hleaf =>
      have hnone : v.items? = none := by
        cases hitems : v.items? with
        | none => rfl
        | some items => exact absurd (.inr (by rw [Value.isSequence, hitems]; rfl)) hleaf
      rw [hnone]
      exact .none
  | list hitems | tuple hitems => exact .some hitems
  | map => exact .none

end Parts

/-- A comparison of findings that can be made part by part. -/
structure IsPartwise (Compared : List Finding → List Finding → Prop) : Prop where
  refl : ∀ findings, Compared findings findings
  append : ∀ {fs gs fs' gs'}, Compared fs gs → Compared fs' gs' → Compared (fs ++ fs') (gs ++ gs')

theorem IsPartwise.entries
    {Compared : List Finding → List Finding → Prop} (hpartwise : IsPartwise Compared)
    {rule other : Rule} {steps steps' : List (Step × Value)}
    (hsteps : List.Forall₂ (fun x y => x.1 = y.1 ∧
      ∀ location, Compared (rule x.2 location) (other y.2 location)) steps steps')
    (kind : CollectionKind) (seen : List Step) :
    Compared (entries kind rule seen steps) (entries kind other seen steps') := by
  induction hsteps generalizing seen with
  | nil => exact hpartwise.refl []
  | @cons x y _ _ hentry _ ih =>
      obtain ⟨step, v⟩ := x
      obtain ⟨_, w⟩ := y
      obtain ⟨rfl, hrule⟩ := hentry
      exact hpartwise.append (hpartwise.append (hpartwise.refl _) (hrule _)) (ih _)

/-- What a run under the first settings and one under the second settings may be given in place
of each other, and how the findings of the two runs are compared. -/
structure Comparison (s t : Settings) where
  Alike : Value → Value → Prop
  Compared : List Finding → List Finding → Prop
  partwise : IsPartwise Compared
  parts : ∀ {v w}, Alike v w → SameParts Alike v w
  displayOnly : ∀ type findings, Compared (if s.isDisplayOnly type then [] else findings)
    (if t.isDisplayOnly type then [] else findings)
  placeholder : ∀ type findings, Compared (if s.isPlaceholder type then [] else findings)
    (if t.isPlaceholder type then [] else findings)
  reworded : ∀ {v w}, Alike v w → ∀ {problem : Value → Problem},
    (∀ a b, (problem a).kind = (problem b).kind) → (∀ a, (problem a).hasText = a.hasText) →
      ∀ location, Compared (report (problem v) location) (report (problem w) location)
  keyed : ∀ {es fs : Entries}, Alike (.map es) (.map fs) → ∀ {rule other : Rule},
    (∀ v w, Alike v w → ∀ location, Compared (rule v location) (other w location)) →
      ∀ kind, Compared (entries kind rule [] (Collection.keyed es).steps)
        (entries kind other [] (Collection.keyed fs).steps)

namespace Comparison

variable {s t : Settings} (c : Comparison s t)

/-- The findings of two rules can be compared wherever the rules look at values that are alike. -/
def Parallel (rule other : Rule) : Prop :=
  ∀ v w, c.Alike v w → ∀ location, c.Compared (rule v location) (other w location)

/-! ## Combinations of rules -/

section Combinations

variable {c} {rule other : Rule} {es fs : Entries} (hnames : SameNames c.Alike es fs)
  {location : Location}

theorem refl (c : Comparison s t) (findings : List Finding) : c.Compared findings findings :=
  c.partwise.refl findings

theorem append
    {fs gs fs' gs' : List Finding} (hfs : c.Compared fs gs) (hfs' : c.Compared fs' gs') :
    c.Compared (fs ++ fs') (gs ++ gs') :=
  c.partwise.append hfs hfs'

theorem compared_ite
    {fs gs : List Finding} {p : Prop} [Decidable p] (hfs : p → c.Compared fs gs) :
    c.Compared (if p then fs else []) (if p then gs else []) := by
  split_ifs with hp
  · exact hfs hp
  · exact c.refl []

theorem parallel_onMap
    {subject : String} {inner outer : Entries → Location → List Finding}
    (hinner : ∀ es fs, SameNames c.Alike es fs → ∀ location,
      c.Compared (inner es location) (outer fs location)) :
    c.Parallel (onMap subject inner) (onMap subject outer) := by
  intro v w halike location
  cases c.parts halike with
  | leaf hleaf =>
      cases v with
      | map entries => exact absurd (.inl rfl) hleaf
      | _ => exact c.refl _
  | map hnames => exact hinner _ _ hnames location
  | _ => exact c.refl _

theorem compared_each
    {xs ys : List Value}
    (hitems : List.Forall₂ (fun x y => ∀ location, c.Compared (rule x location) (other y location))
      xs ys) :
    c.Compared (each rule xs location) (each other ys location) := by
  suffices hfrom : ∀ first, c.Compared
      ((xs.zipIdx first).flatMap fun item => rule item.1 (location ++ [.place item.2]))
      ((ys.zipIdx first).flatMap fun item => other item.1 (location ++ [.place item.2])) from
    hfrom 0
  induction hitems with
  | nil => exact fun _ => c.refl []
  | cons hrule _ ih => exact fun first => append (hrule _) (ih (first + 1))

theorem Parallel.each
    (hrule : c.Parallel rule other) {xs ys : List Value} (hitems : List.Forall₂ c.Alike xs ys) :
    c.Compared (Rules.each rule xs location) (Rules.each other ys location) :=
  compared_each (hitems.imp fun x y halike => hrule x y halike)

theorem Parallel.sequence (hrule : c.Parallel rule other) (subject : String) :
    c.Parallel (Rules.sequence subject rule) (Rules.sequence subject other) := by
  intro v w halike location
  have hitems := (c.parts halike).items?
  unfold Rules.sequence
  generalize v.items? = xs, w.items? = ys at hitems
  cases hitems with
  | none => exact c.refl _
  | some hitems => exact hrule.each hitems

variable (location)

include hnames

theorem isPresent_eq (key : String) : (fs.getD key).isPresent = (es.getD key).isPresent :=
  (c.parts (hnames key)).isPresent_eq

theorem text?_eq (key : String) : (fs.getD key).text? = (es.getD key).text? :=
  (c.parts (hnames key)).text?_eq

theorem items? (key : String) :
    Option.Rel (List.Forall₂ c.Alike) (es.getD key).items? (fs.getD key).items? :=
  (c.parts (hnames key)).items?

theorem require_eq (subject : String) (keys : List String) :
    require subject keys fs location = require subject keys es location := by
  simp only [require, isPresent_eq hnames]

theorem lackingItems_eq (subject key : String) :
    lackingItems subject key fs location = lackingItems subject key es location := by
  have hitems := items? hnames key
  unfold lackingItems
  dsimp only
  rw [isPresent_eq hnames]
  generalize (es.getD key).items? = xs, (fs.getD key).items? = ys at hitems
  cases hitems with
  | none => rfl
  | some hitems => cases hitems <;> rfl

theorem compared_require (subject : String) (keys : List String) :
    c.Compared (require subject keys es location) (require subject keys fs location) := by
  rw [require_eq hnames]
  exact c.refl _

theorem compared_optional (hrule : c.Parallel rule other) (key subject : String) :
    c.Compared (optional key subject rule es location)
      (optional key subject other fs location) := by
  unfold optional
  dsimp only
  rw [isPresent_eq hnames]
  exact compared_ite fun _ => hrule.sequence subject _ _ (hnames key) _

/-- Items that are looked at if they are there. -/
theorem compared_items (hrule : c.Parallel rule other) (key : String) :
    c.Compared
      (match (es.getD key).items? with
        | some items => each rule items location
        | none => [])
      (match (fs.getD key).items? with
        | some items => each other items location
        | none => []) := by
  have hitems := items? hnames key
  generalize (es.getD key).items? = xs, (fs.getD key).items? = ys at hitems
  cases hitems with
  | none => exact c.refl []
  | some hitems => exact hrule.each hitems

end Combinations

/-! ## Fields -/

theorem option_parallel : c.Parallel option option :=
  parallel_onMap fun _ _ hnames _ => compared_require hnames _ _ _

theorem compared_options
    {es fs : Entries} (hnames : SameNames c.Alike es fs) (type : String) (location : Location) :
    c.Compared (options type es location) (options type fs location) := by
  have hitems := items? hnames "options"
  unfold options
  dsimp only
  rw [isPresent_eq hnames, (c.parts (hnames "options")).isText_eq]
  generalize (es.getD "options").items? = xs, (fs.getD "options").items? = ys at hitems
  split_ifs
  · exact c.refl _
  · exact c.refl _
  · cases hitems with
    | none => exact c.refl _
    | some hitems =>
        cases hitems with
        | nil => exact c.refl _
        | cons hhead htail => exact c.option_parallel.each (.cons hhead htail)

theorem fieldItself_parallel : c.Parallel (fieldItself s) (fieldItself t) := by
  refine parallel_onMap fun es fs hnames location => ?_
  have htype := c.parts (hnames "type")
  dsimp only
  rw [htype.isDisplayOnly_eq, htype.isPlaceholder_eq, htype.text?_eq, require_eq hnames,
    require_eq hnames, require_eq hnames, lackingItems_eq hnames]
  refine append (append (append (c.displayOnly _ _) (c.refl _)) (c.placeholder _ _)) ?_
  cases (es.getD "type").text? with
  | none => exact c.refl []
  | some tag =>
      dsimp only
      split_ifs
      · exact c.compared_options hnames tag location
      · exact c.refl _
      · exact c.refl _

/-- By induction on the first of the two fields, since the repeated fields are below it. -/
theorem field_parallel : c.Parallel (field s) (field t) := by
  intro v
  induction v using Value.mapInductionOn with
  | map entries ih =>
      intro w halike location
      have hitself := c.fieldItself_parallel _ _ halike location
      cases c.parts halike with
      | leaf hleaf => exact absurd (.inl rfl) hleaf
      | @map _ fs hnames =>
          have hrepeater : isRepeater fs = isRepeater entries := by
            simp only [isRepeater, text?_eq hnames]
          rw [field_map, field_map, hrepeater]
          refine append hitself (compared_ite fun _ => ?_)
          have hitems := items? hnames "item_fields"
          cases hxs : (entries.getD "item_fields").items? with
          | none =>
              rw [hxs] at hitems
              generalize (fs.getD "item_fields").items? = ys at hitems
              cases hitems
              exact c.refl []
          | some xs =>
              obtain ⟨key, hmem, -⟩ :=
                Entries.get?_mem (Entries.get?_of_isPresent (Value.isPresent_of_items? hxs))
              have hbelow := ih _ hmem xs hxs
              rw [hxs] at hitems
              generalize (fs.getD "item_fields").items? = ys at hitems
              cases hitems with
              | some hitems =>
                  refine compared_each ?_
                  exact ((List.forall₂_and_left _ _).mpr ⟨hbelow, hitems⟩).imp
                    fun x y h => h.1 y h.2
  | other v hmap =>
      intro w halike location
      have hitself := c.fieldItself_parallel _ _ halike location
      have hother : w.isMap = false := by
        cases c.parts halike with
        | leaf => exact hmap
        | map => cases hmap
        | _ => rfl
      unfold field
      rw [fieldsBelow_of_not_map hmap, fieldsBelow_of_not_map hother]
      simpa using hitself

/-! ## Screens, components and rules for fields -/

theorem action_parallel : c.Parallel action action := by
  refine parallel_onMap fun es fs hnames location => ?_
  dsimp only
  rw [isPresent_eq hnames, isPresent_eq hnames, text?_eq hnames, require_eq hnames,
    require_eq hnames]
  refine append (append (append (c.refl _) ?_) (c.refl _)) (c.refl _)
  exact compared_ite fun _ => c.reworded (hnames "type") (fun _ _ => rfl) (fun _ => rfl) _

theorem wizardStep_parallel : c.Parallel (wizardStep s) (wizardStep t) := by
  refine parallel_onMap fun es fs hnames location => ?_
  rw [lackingItems_eq hnames]
  exact append (append (compared_require hnames _ _ _) (c.refl _))
    (compared_items hnames _ c.field_parallel _)

theorem wizard_parallel : c.Parallel (wizard s) (wizard t) := by
  refine parallel_onMap fun es fs hnames location => ?_
  dsimp only
  rw [isPresent_eq hnames]
  split_ifs
  · exact c.wizardStep_parallel.sequence _ _ _ (hnames "steps") _
  · exact c.refl _

theorem formSection_parallel : c.Parallel (formSection s) (formSection t) :=
  parallel_onMap fun _ _ hnames _ =>
    append (compared_require hnames _ _ _) (compared_optional hnames _ c.field_parallel _ _)

theorem columnName_parallel : c.Parallel columnName columnName := by
  intro v w halike location
  unfold columnName
  rw [(c.parts halike).isPlain_eq]
  exact c.refl _

theorem compared_optionalWizard
    {es fs : Entries} (hnames : SameNames c.Alike es fs) (location : Location) :
    c.Compared (optionalWizard s es location) (optionalWizard t fs location) := by
  unfold optionalWizard
  dsimp only
  rw [isPresent_eq hnames]
  exact compared_ite fun _ => c.wizard_parallel _ _ (hnames "wizard") _

theorem screen_parallel : c.Parallel (screen s) (screen t) := by
  refine parallel_onMap fun es fs hnames location => ?_
  have hfields (key subject : String) :=
    compared_optional hnames location c.field_parallel key subject
  have hnamed (key subject : String) :=
    compared_optional hnames location c.columnName_parallel key subject
  have hsections := compared_optional hnames location c.formSection_parallel
  have hactions := compared_optional hnames location c.action_parallel
  exact append (append (append (append (append (append (append (compared_require hnames _ _ _)
    (c.compared_optionalWizard hnames location)) (hsections _ _)) (hfields _ _)) (hfields _ _))
    (hnamed _ _)) (hnamed _ _)) (hactions _ _)

theorem listedField_parallel : c.Parallel listedField listedField :=
  parallel_onMap fun _ _ _ _ => c.refl []

theorem listedSection_parallel : c.Parallel listedSection listedSection :=
  parallel_onMap fun _ _ hnames _ => compared_optional hnames _ c.listedField_parallel _ _

theorem listedAction_parallel : c.Parallel listedAction listedAction := by
  intro v w halike location
  unfold listedAction
  rw [(c.parts halike).isText_eq]
  split_ifs
  · exact c.refl []
  · exact c.action_parallel _ _ halike location

theorem listedScreen_parallel : c.Parallel listedScreen listedScreen := by
  refine parallel_onMap fun es fs hnames location => ?_
  have hfields (key subject : String) :=
    compared_optional hnames location c.listedField_parallel key subject
  have hnamed (key subject : String) :=
    compared_optional hnames location c.columnName_parallel key subject
  have hsections := compared_optional hnames location c.listedSection_parallel
  have hactions := compared_optional hnames location c.listedAction_parallel
  rw [isPresent_eq hnames, isPresent_eq hnames]
  exact append (append (append (append (append (append (c.refl _) (hsections _ _)) (hfields _ _))
    (hfields _ _)) (hnamed _ _)) (hnamed _ _)) (hactions _ _)

theorem component_parallel : c.Parallel (component s) (component t) := by
  refine parallel_onMap fun es fs hnames location => ?_
  have hknown : componentType? (fs.getD "type") = componentType? (es.getD "type") := by
    rw [componentType?, componentType?, text?_eq hnames]
  dsimp only
  rw [isPresent_eq hnames, hknown, require_eq hnames]
  refine append (append (append (c.refl _) ?_) ?_) ?_
  · exact compared_ite fun _ => c.reworded (hnames "type") (fun _ _ => rfl) (fun _ => rfl) _
  · exact compared_ite fun _ => compared_optional hnames _ c.field_parallel _ _
  · exact compared_ite fun _ => compared_optional hnames _ c.action_parallel _ _

theorem listedComponent_parallel : c.Parallel listedComponent listedComponent :=
  parallel_onMap fun _ _ hnames _ => compared_require hnames _ _ _

theorem fieldRule_parallel : c.Parallel fieldRule fieldRule := by
  refine parallel_onMap fun es fs hnames location => ?_
  rw [isPresent_eq hnames, require_eq hnames]
  exact c.refl _

theorem listedFieldRule_parallel : c.Parallel listedFieldRule listedFieldRule :=
  parallel_onMap fun _ _ hnames _ => compared_require hnames _ _ _

/-! ## Documents -/

theorem strict_parallel (kind : CollectionKind) : c.Parallel (strict s kind) (strict t kind) := by
  cases kind with
  | screens => exact c.screen_parallel
  | components => exact c.component_parallel
  | rules => exact c.fieldRule_parallel

theorem relaxed_parallel (kind : CollectionKind) : c.Parallel (relaxed kind) (relaxed kind) := by
  cases kind with
  | screens => exact c.listedScreen_parallel
  | components => exact c.listedComponent_parallel
  | rules => exact c.listedFieldRule_parallel

theorem compared_listed
    {xs ys : List Value} (hitems : List.Forall₂ c.Alike xs ys) (kind : CollectionKind) :
    c.Compared (collection s kind (.listed xs)) (collection t kind (.listed ys)) := by
  refine c.partwise.entries ?_ kind []
  suffices hfrom : ∀ first, List.Forall₂ (fun x y => x.1 = y.1 ∧
      ∀ location, c.Compared (relaxed kind x.2 location) (relaxed kind y.2 location))
      ((xs.zipIdx first).map fun x => (Step.place x.2, x.1))
      ((ys.zipIdx first).map fun y => (Step.place y.2, y.1)) from hfrom 0
  induction hitems with
  | nil => exact fun _ => .nil
  | cons halike _ ih =>
      exact fun first => .cons ⟨rfl, c.relaxed_parallel kind _ _ halike⟩ (ih (first + 1))

theorem compared_documentPart
    {es fs : Entries} (hnames : SameNames c.Alike es fs) (kind : CollectionKind) :
    c.Compared (documentPart s es kind) (documentPart t fs kind) := by
  have halike := hnames kind.name
  unfold documentPart
  dsimp only
  rw [isPresent_eq hnames]
  split_ifs
  · exact c.refl _
  · exact c.refl _
  · generalize es.getD kind.name = v, fs.getD kind.name = w at halike
    cases c.parts halike with
    | leaf hleaf =>
        cases v with
        | list | tuple => exact absurd (.inr rfl) hleaf
        | map => exact absurd (.inl rfl) hleaf
        | _ => exact c.refl _
    | list hitems | tuple hitems => exact c.compared_listed hitems kind
    | map => exact c.keyed halike (c.strict_parallel kind) kind

/-- The findings of the two runs can be compared for trees that are alike. -/
theorem compared_root
    {tree other : Value} (halike : c.Alike tree other) :
    c.Compared (root s tree) (root t other) := by
  cases c.parts halike with
  | leaf hleaf =>
      cases tree with
      | map => exact absurd (.inl rfl) hleaf
      | _ => exact c.refl _
  | map hnames =>
      unfold root
      induction CollectionKind.all with
      | nil => exact c.refl []
      | cons kind kinds ih => exact append (c.compared_documentPart hnames kind) ih
  | _ => exact c.refl _

end Comparison

end Rules

end Wireframe
