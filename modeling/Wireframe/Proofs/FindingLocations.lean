import Mathlib.Tactic
import Wireframe.Proofs.Grammar
import Wireframe.Proofs.Nesting
import Wireframe.Proofs.Reports
import Wireframe.Verdict

/-!
# Locations of findings

Every rule looks at one value and goes down into its parts by the names and places that it
then reports.  So a rule finds nothing but nodes of the value that it looks at, and the rules
for a tree find nothing but nodes of the tree.
-/

namespace Wireframe

open Value

/-- The problem is one of a tree as a whole. -/
inductive Problem.IsAboutTree : Problem → Prop
  | tooManyValues (limit : Int) : IsAboutTree (.tooManyValues limit)
  | tooDeep (limit : Int) : IsAboutTree (.tooDeep limit)
  | rootNotObject : IsAboutTree .rootNotObject

namespace Rules

/-- The findings are about nodes of the value, which is at the location, and tell nothing but what
these are.  None of them is the problem of a whole tree. -/
def AreAt (v : Value) (location : Location) (findings : List Finding) : Prop :=
  ∀ f ∈ findings, ¬ f.problem.IsAboutTree ∧
    ∃ l x, f.location = location ++ l ∧ v.At Step.Spells l x ∧
      (x.hasText = true → f.problem.hasText = true)

/-- The rule finds nothing but nodes of what it looks at. -/
def LooksInside (rule : Rule) : Prop := ∀ v location, AreAt v location (rule v location)

section Findings

variable {rule : Rule} {v w : Value} {entries : Entries} {location : Location}
  {findings more : List Finding}

theorem areAt_nil (v : Value) (location : Location) : AreAt v location [] := nofun

theorem AreAt.append
    (hfindings : AreAt v location findings) (hmore : AreAt v location more) :
    AreAt v location (findings ++ more) := by
  intro f hf
  rcases List.mem_append.mp hf with hf | hf
  · exact hfindings f hf
  · exact hmore f hf

theorem areAt_flatMap
    {α : Type} {items : List α} {find : α → List Finding}
    (hfind : ∀ a ∈ items, AreAt v location (find a)) :
    AreAt v location (items.flatMap find) := by
  intro f hf
  obtain ⟨a, ha, hmem⟩ := List.mem_flatMap.mp hf
  exact hfind a ha f hmem

theorem areAt_report
    (problem : Problem) (v : Value) (location : Location)
    (hproblem : ¬ problem.IsAboutTree) (htext : v.hasText = true → problem.hasText = true) :
    AreAt v location (report problem location) := by
  intro f hf
  rw [List.mem_singleton.mp hf]
  exact ⟨hproblem, [], v, (List.append_nil _).symm, .root, htext⟩

theorem areAt_ite
    {c : Prop} [Decidable c] (hthen : AreAt v location findings) (helse : AreAt v location more) :
    AreAt v location (if c then findings else more) := by
  split_ifs
  · exact hthen
  · exact helse

/-- What is about nodes of a part is about nodes of the whole. -/
theorem AreAt.of_child
    {step : Step} (hfindings : AreAt w (location ++ [step]) findings)
    (hchild : v.Child Step.Spells step w) :
    AreAt v location findings := by
  intro f hf
  obtain ⟨hproblem, l, x, hlocation, hx, htext⟩ := hfindings f hf
  exact ⟨hproblem, step :: l, x, by rw [hlocation, List.append_assoc]; rfl, .child hchild hx,
    htext⟩

/-! ## Parts of rules -/

theorem looksInside_onMap
    {subject : String} {inner : Entries → Location → List Finding}
    (hinner : ∀ entries location, AreAt (.map entries) location (inner entries location)) :
    LooksInside (onMap subject inner) := by
  intro v location
  cases v with
  | map entries => exact hinner entries location
  | _ => exact areAt_report _ _ _ nofun fun _ => rfl

theorem areAt_require
    (subject : String) (keys : List String) (entries : Entries) (location : Location) :
    AreAt (.map entries) location (require subject keys entries location) :=
  areAt_flatMap fun _ _ => areAt_ite (areAt_nil _ _) (areAt_report _ _ _ nofun fun _ => rfl)

theorem areAt_each
    {items : List Value} (hitems : v.items? = some items)
    (hrule : ∀ x ∈ items, ∀ location, AreAt x location (rule x location)) (location : Location) :
    AreAt v location (each rule items location) := by
  apply areAt_flatMap
  rintro ⟨x, i⟩ hx
  have hget : items[i]? = some x := List.mk_mem_zipIdx_iff_getElem?.mp hx
  exact (hrule x (List.mem_of_getElem? hget) _).of_child (.item hitems hget)

theorem LooksInside.sequence
    (hrule : LooksInside rule) (subject : String) :
    LooksInside (sequence subject rule) := by
  intro v location
  unfold Rules.sequence
  split
  next items hitems => exact areAt_each hitems (fun x _ => hrule x) location
  next => exact areAt_report _ _ _ nofun fun _ => rfl

theorem LooksInside.areAt_getD
    (hrule : LooksInside rule) {key : String} (hpresent : (entries.getD key).isPresent = true)
    (location : Location) :
    AreAt (.map entries) location (rule (entries.getD key) (location ++ [.name key])) :=
  (hrule _ _).of_child (child_of_isPresent hpresent)

theorem LooksInside.optional
    (hrule : LooksInside rule) (key subject : String) (entries : Entries) (location : Location) :
    AreAt (.map entries) location (optional key subject rule entries location) := by
  unfold Rules.optional
  simp only
  split_ifs with hpresent
  · exact (hrule.sequence subject).areAt_getD hpresent location
  · exact areAt_nil _ _

theorem areAt_report_getD
    {key : String} (hpresent : (entries.getD key).isPresent = true) (problem : Problem)
    (location : Location) (hproblem : ¬ problem.IsAboutTree)
    (htext : (entries.getD key).hasText = true → problem.hasText = true) :
    AreAt (.map entries) location (report problem (location ++ [.name key])) :=
  (areAt_report _ _ _ hproblem htext).of_child (child_of_isPresent hpresent)

theorem areAt_lackingItems
    (subject key : String) (entries : Entries) (location : Location) :
    AreAt (.map entries) location (lackingItems subject key entries location) := by
  unfold lackingItems
  simp only
  split_ifs with habsent
  · exact areAt_report _ _ _ nofun fun _ => rfl
  · have hpresent : (entries.getD key).isPresent = true := by simpa using habsent
    split
    · exact areAt_report_getD hpresent _ _ nofun fun _ => rfl
    · exact areAt_report_getD hpresent _ _ nofun fun _ => rfl
    · exact areAt_nil _ _

end Findings

/-! ## Fields -/

section Fields

variable (settings : Settings) (entries : Entries) (location : Location)

theorem option_looksInside : LooksInside option :=
  looksInside_onMap (areAt_require "Option" ["value", "label"])

theorem areAt_options (type : String) :
    AreAt (.map entries) location (options type entries location) := by
  unfold options
  simp only
  split_ifs with habsent htext
  · exact areAt_report _ _ _ nofun fun _ => rfl
  · exact areAt_nil _ _
  · have hpresent : (entries.getD "options").isPresent = true := by simpa using habsent
    split
    · exact areAt_report_getD hpresent _ _ nofun fun _ => rfl
    · exact areAt_report_getD hpresent _ _ nofun fun _ => rfl
    next items _ hitems =>
      have heach := areAt_each hitems (fun x _ => option_looksInside x)
      exact (heach _).of_child (child_of_isPresent hpresent)

theorem fieldItself_looksInside : LooksInside (fieldItself settings) := by
  apply looksInside_onMap
  intro entries location
  simp only
  refine .append (.append (.append ?_ ?_) ?_) ?_
  · exact areAt_ite (areAt_nil _ _) (areAt_require _ _ _ _)
  · exact areAt_require _ _ _ _
  · exact areAt_ite (areAt_nil _ _) (areAt_require _ _ _ _)
  · split
    · exact areAt_nil _ _
    · refine areAt_ite (areAt_options _ _ _) (areAt_ite ?_ (areAt_nil _ _))
      exact areAt_lackingItems _ _ _ _

/-- A field repeats fields that are nodes below it. -/
theorem field_looksInside : LooksInside (field settings) := by
  intro v
  induction v using Value.mapInductionOn with
  | map entries ih =>
      intro location
      rw [field_map]
      refine (fieldItself_looksInside settings _ _).append (areAt_ite ?_ (areAt_nil _ _))
      split
      next items hitems =>
        have hpresent := Value.isPresent_of_items? hitems
        obtain ⟨key, hmem, -⟩ := Entries.get?_mem (Entries.get?_of_isPresent hpresent)
        have heach := areAt_each hitems (ih _ hmem items hitems)
        exact (heach _).of_child (child_of_isPresent hpresent)
      next => exact areAt_nil _ _
  | other v hmap =>
      intro location
      have hsingle : field settings v location = fieldItself settings v location := by
        cases v with
        | map entries => cases hmap
        | _ => exact List.flatMap_singleton _ _
      rw [hsingle]
      exact fieldItself_looksInside settings v location

end Fields

/-! ## Entries of collections -/

section Entry

variable (settings : Settings)

theorem action_looksInside : LooksInside action := by
  apply looksInside_onMap
  intro entries location
  simp only
  refine .append (.append (.append ?_ ?_) ?_) ?_
  · exact areAt_require _ _ _ _
  · split_ifs with hunknown
    · rw [Bool.and_eq_true] at hunknown
      exact areAt_report_getD hunknown.1 _ _ nofun id
    · exact areAt_nil _ _
  · exact areAt_require _ _ _ _
  · exact areAt_ite (areAt_report _ _ _ nofun fun _ => rfl) (areAt_nil _ _)

theorem wizardStep_looksInside : LooksInside (wizardStep settings) := by
  apply looksInside_onMap
  intro entries location
  refine .append (.append (areAt_require _ _ _ _) (areAt_lackingItems _ _ _ _)) ?_
  split
  next items hitems =>
    have heach := areAt_each hitems fun x _ => field_looksInside settings x
    exact (heach _).of_child (child_of_isPresent (Value.isPresent_of_items? hitems))
  next => exact areAt_nil _ _

theorem wizard_looksInside : LooksInside (wizard settings) := by
  apply looksInside_onMap
  intro entries location
  simp only
  split_ifs with hpresent
  · exact ((wizardStep_looksInside settings).sequence _).areAt_getD hpresent location
  · exact areAt_report _ _ _ nofun fun _ => rfl

theorem formSection_looksInside : LooksInside (formSection settings) :=
  looksInside_onMap fun _ _ =>
    .append (areAt_require _ _ _ _) ((field_looksInside settings).optional _ _ _ _)

theorem columnName_looksInside : LooksInside columnName :=
  fun _ _ => areAt_ite (areAt_nil _ _) (areAt_report _ _ _ nofun fun _ => rfl)

theorem areAt_optionalWizard
    (entries : Entries) (location : Location) :
    AreAt (.map entries) location (optionalWizard settings entries location) := by
  unfold optionalWizard
  simp only
  split_ifs with hpresent
  · exact (wizard_looksInside settings).areAt_getD hpresent location
  · exact areAt_nil _ _

theorem screen_looksInside : LooksInside (screen settings) := by
  have hfield := field_looksInside settings
  apply looksInside_onMap
  intro entries location
  refine .append (.append (.append (.append (.append (.append (.append ?_ ?_) ?_) ?_) ?_) ?_) ?_) ?_
  · exact areAt_require _ _ _ _
  · exact areAt_optionalWizard settings _ _
  · exact (formSection_looksInside settings).optional _ _ _ _
  · exact hfield.optional _ _ _ _
  · exact hfield.optional _ _ _ _
  · exact columnName_looksInside.optional _ _ _ _
  · exact columnName_looksInside.optional _ _ _ _
  · exact action_looksInside.optional _ _ _ _

theorem listedField_looksInside : LooksInside listedField :=
  looksInside_onMap fun _ _ => areAt_nil _ _

theorem listedSection_looksInside : LooksInside listedSection :=
  looksInside_onMap (listedField_looksInside.optional _ _)

theorem listedAction_looksInside : LooksInside listedAction :=
  fun v location => areAt_ite (areAt_nil _ _) (action_looksInside v location)

theorem listedScreen_looksInside : LooksInside listedScreen := by
  apply looksInside_onMap
  intro entries location
  refine .append (.append (.append (.append (.append (.append ?_ ?_) ?_) ?_) ?_) ?_) ?_
  · exact areAt_ite (areAt_nil _ _) (areAt_report _ _ _ nofun fun _ => rfl)
  · exact listedSection_looksInside.optional _ _ _ _
  · exact listedField_looksInside.optional _ _ _ _
  · exact listedField_looksInside.optional _ _ _ _
  · exact columnName_looksInside.optional _ _ _ _
  · exact columnName_looksInside.optional _ _ _ _
  · exact listedAction_looksInside.optional _ _ _ _

theorem component_looksInside : LooksInside (component settings) := by
  apply looksInside_onMap
  intro entries location
  simp only
  refine .append (.append (.append (areAt_require _ _ _ _) ?_) ?_) ?_
  · split_ifs with hunknown
    · rw [Bool.and_eq_true] at hunknown
      exact areAt_report_getD hunknown.1 _ _ nofun id
    · exact areAt_nil _ _
  · exact areAt_ite ((field_looksInside settings).optional _ _ _ _) (areAt_nil _ _)
  · exact areAt_ite (action_looksInside.optional _ _ _ _) (areAt_nil _ _)

theorem fieldRule_looksInside : LooksInside fieldRule :=
  looksInside_onMap fun _ _ =>
    .append (areAt_require _ _ _ _)
      (areAt_ite (areAt_nil _ _) (areAt_report _ _ _ nofun fun _ => rfl))

theorem strict_looksInside (kind : CollectionKind) : LooksInside (strict settings kind) := by
  cases kind with
  | screens => exact screen_looksInside settings
  | components => exact component_looksInside settings
  | rules => exact fieldRule_looksInside

theorem relaxed_looksInside (kind : CollectionKind) : LooksInside (relaxed kind) := by
  cases kind with
  | screens => exact listedScreen_looksInside
  | components => exact looksInside_onMap (areAt_require _ _)
  | rules => exact looksInside_onMap (areAt_require _ _)

end Entry

/-! ## Trees -/

theorem child_of_mem_steps
    {v w : Value} {c : Collection} (hc : Collection.ofValue? v = some c) {step : Step}
    (hmem : (step, w) ∈ c.steps) :
    v.Child Step.Spells step w := by
  refine child_iff_mem_parts.mpr ?_
  cases v with
  | map entries | list items | tuple items =>
      cases hc
      exact hmem
  | _ => cases hc

theorem areAt_entries
    {rule : Rule} (hrule : LooksInside rule) {v : Value} {kind : CollectionKind} {seen : List Step}
    {steps : List (Step × Value)} (hsteps : ∀ x ∈ steps, v.Child Step.Spells x.1 x.2) :
    AreAt v [.name kind.name] (entries kind rule seen steps) := by
  induction steps generalizing seen with
  | nil => exact areAt_nil _ _
  | cons x rest ih =>
      have hfirst := hsteps x List.mem_cons_self
      refine .append (.append ?_ ?_) ?_
      · have htwice := areAt_report (.keyTwice kind x.1.render) x.2 ([.name kind.name] ++ [x.1])
          nofun fun _ => rfl
        exact areAt_ite (htwice.of_child hfirst) (areAt_nil _ _)
      · exact (hrule x.2 _).of_child hfirst
      · exact ih fun y hy => hsteps y (List.mem_cons_of_mem _ hy)

/-- What is found about a collection that is present is about nodes of the collection. -/
theorem areAt_presentPart
    (settings : Settings) {document : Entries} {kind : CollectionKind}
    (hpresent : (document.getD kind.name).isPresent = true) :
    AreAt (document.getD kind.name) [.name kind.name] (documentPart settings document kind) := by
  unfold documentPart
  simp only [hpresent, Bool.not_true, Bool.false_eq_true, if_false]
  split
  next c hc =>
    apply areAt_entries _ fun x hx => child_of_mem_steps hc hx
    cases c with
    | keyed entries => exact strict_looksInside settings kind
    | listed items => exact relaxed_looksInside kind
  next => exact areAt_report _ _ _ nofun fun _ => rfl

theorem documentPart_of_absent
    (settings : Settings) {document : Entries} {kind : CollectionKind}
    (habsent : (document.getD kind.name).isPresent = false) :
    documentPart settings document kind =
      if kind.isRequired then report (.noCollection kind) [] else [] := by
  unfold documentPart
  simp [habsent]

theorem areAt_documentPart
    (settings : Settings) (document : Entries) (kind : CollectionKind) :
    AreAt (.map document) [] (documentPart settings document kind) := by
  by_cases hpresent : (document.getD kind.name).isPresent = true
  · have hwithin : AreAt _ ([] ++ [.name kind.name]) _ := areAt_presentPart settings hpresent
    exact hwithin.of_child (child_of_isPresent hpresent)
  · rw [documentPart_of_absent settings (by simpa using hpresent)]
    exact areAt_ite (areAt_report _ _ _ nofun fun _ => rfl) (areAt_nil _ _)

theorem areAt_root
    (settings : Settings) (document : Entries) :
    AreAt (.map document) [] (root settings (.map document)) :=
  areAt_flatMap fun kind _ => areAt_documentPart settings document kind

/-- What the rules find is located at a node of the tree, and it tells what the node is. -/
theorem exists_at_of_mem_root
    {settings : Settings} {tree : Value} {f : Finding} (hf : f ∈ root settings tree) :
    ∃ x, tree.At Step.Spells f.location x ∧ (x.hasText = true → f.problem.hasText = true) := by
  have hroot : f = ⟨.rootNotObject, []⟩ → ∃ x, tree.At Step.Spells f.location x ∧
      (x.hasText = true → f.problem.hasText = true) := by
    rintro rfl
    exact ⟨tree, .root, fun _ => rfl⟩
  cases tree with
  | map document =>
      obtain ⟨-, l, x, hlocation, hx, htext⟩ := areAt_root settings document f hf
      exact ⟨x, hlocation ▸ hx, htext⟩
  | _ => exact hroot (List.mem_singleton.mp hf)

end Rules

namespace Value

theorem exists_at_of_mem_findings
    {settings : Settings} {tree : Value} {fs : List Finding}
    (hfindings : tree.findings settings = .ok fs) {f : Finding} (hf : f ∈ fs) :
    ∃ x, tree.At Step.Spells f.location x := by
  rcases findings_eq_ok_iff.mp hfindings with
    ⟨-, rfl⟩ | ⟨-, ⟨location, hdeep, rfl⟩ | ⟨-, rfl⟩⟩
  · rw [List.mem_singleton.mp hf]
    exact ⟨tree, .root⟩
  · obtain ⟨l, x, rfl, hx⟩ := exists_at_of_tooDeep? hdeep
    rw [List.mem_singleton.mp hf]
    exact ⟨x, hx⟩
  · exact (Rules.exists_at_of_mem_root hf).imp fun _ hx => hx.1

/-- A tree that can be written has reports, whatever is found. -/
theorem exists_check
    {tree : Value} (htext : tree.hasText = true) (settings : Settings) (positions : Positions) :
    ∃ ds, tree.check settings positions = .ok ds := by
  have hreports {fs : List Finding} (hfindings : tree.findings settings = .ok fs)
      (hwritten : ∀ f ∈ fs, f.problem.hasText = true) :
      ∃ ds, tree.check settings positions = .ok ds :=
    ⟨_, check_eq_ok_iff.mpr ⟨fs, hfindings, hwritten, rfl⟩⟩
  cases hlarge : tree.isTooLarge settings with
  | true =>
      apply hreports (findings_eq_ok_iff.mpr (.inl ⟨hlarge, rfl⟩))
      exact fun f hf => by rw [List.mem_singleton.mp hf]; rfl
  | false =>
      cases hdepth : tree.depthExcess? settings.maxDepth with
      | error cause =>
          rw [depthExcess?_eq] at hdepth
          exact absurd (isLocatable_of_hasText htext) (not_isLocatable_of_tooDeep? hdepth)
      | ok found =>
          cases found with
          | some location =>
              apply hreports (findings_eq_ok_iff.mpr (.inr ⟨hlarge, .inl ⟨_, hdepth, rfl⟩⟩))
              exact fun f hf => by rw [List.mem_singleton.mp hf]; rfl
          | none =>
              apply hreports (findings_eq_root hlarge hdepth)
              intro f hf
              obtain ⟨x, hx, hwritten⟩ := Rules.exists_at_of_mem_root hf
              exact hwritten (hasText_of_at htext hx)

end Value

namespace Verdict

variable {settings : Settings} {reading : Yaml.Reading} {ds : List Diagnostic}

/-- What is reported about a text is that it has too many values, or it is what is found in the
tree that was read. -/
theorem exists_findings_of_check
    (hcheck : check settings reading = .ok ds) :
    ∃ fs, ds = fs.map (Finding.diagnose reading.positions) ∧
      (fs = Rules.report (.tooManyValues settings.maxNodes) [] ∨
        reading.tree.toValue.findings settings = .ok fs) := by
  unfold check at hcheck
  split_ifs at hcheck
  · obtain ⟨-, rfl⟩ := Value.reportAll_eq_ok_iff.mp hcheck
    exact ⟨_, rfl, .inl rfl⟩
  · obtain ⟨fs, hfindings, -, rfl⟩ := Value.check_eq_ok_iff.mp hcheck
    exact ⟨fs, rfl, .inr hfindings⟩

/-- What was read gets reports if its tree can be written. -/
theorem exists_check (htext : reading.tree.toValue.hasText = true) (settings : Settings) :
    ∃ ds, check settings reading = .ok ds := by
  unfold check
  split_ifs
  · exact ⟨_, rfl⟩
  · exact Value.exists_check htext settings _

/-- The path of whatever is reported about a text leads to a node of the tree that was read. -/
theorem exists_at_of_mem_check
    (hcheck : check settings reading = .ok ds) {d : Diagnostic} (hd : d ∈ ds) :
    ∃ l x, d.path = l.render ∧ reading.tree.toValue.At Step.Spells l x := by
  obtain ⟨fs, rfl, hfs⟩ := exists_findings_of_check hcheck
  obtain ⟨f, hf, rfl⟩ := List.mem_map.mp hd
  rcases hfs with rfl | hfindings
  · rw [List.mem_singleton.mp hf]
    exact ⟨[], _, rfl, .root⟩
  · obtain ⟨x, hx⟩ := Value.exists_at_of_mem_findings hfindings hf
    exact ⟨f.location, x, rfl, hx⟩

end Verdict

end Wireframe
