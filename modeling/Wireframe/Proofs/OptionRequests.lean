import Mathlib.Data.List.Nodup
import Mathlib.Tactic
import Wireframe.Canonical.Table
import Wireframe.Proofs.FieldWalks
import Wireframe.Proofs.Reports

/-!
# Requests for options

A field of a selecting type that has no options is reported as such.  The reports of a rule
are those of the fields of its walk, one for each field that lacks its options, and the other
problems that a rule finds never are reports of this kind.
-/

namespace Wireframe

/-- Whether the problem is that a field has no options. -/
def Problem.asksForOptions : Problem → Bool
  | .noOptions _ => true
  | _ => false

namespace Rules

/-- A field of a type with options that has none. -/
def LacksOptions (tag : String) (v : Value) : Prop :=
  ∃ entries, v = .map entries ∧ Entries.getD "type" entries = .text tag ∧
    (FieldType.ofTag tag).isSelect = true ∧ (Entries.getD "options" entries).isPresent = false

/-! ## Reports of fields -/

/-- The reports of missing options among findings. -/
def requests (findings : List Finding) : List Finding :=
  findings.filter fun f => f.problem.asksForOptions

/-- The report of a field that lacks its options, none for another field. -/
def request (p : Location × Value) : List Finding :=
  match p.2 with
  | .map entries =>
    match (Entries.getD "type" entries).text? with
    | some tag =>
      if (FieldType.ofTag tag).isSelect && !(Entries.getD "options" entries).isPresent then
        report (.noOptions tag) p.1
      else []
    | none => []
  | _ => []

/-- The requests of a rule are those of the fields of a walk. -/
def Tells (rule : Rule) (walk : Walk) : Prop :=
  ∀ v location, requests (rule v location) = (walk v location).flatMap request

/-- The rule never asks for options. -/
def IsSilent (rule : Rule) : Prop := ∀ v location, requests (rule v location) = []

section Requests

variable {rule : Rule} {walk : Walk} {entries : Entries} {location : Location}

theorem requests_append
    (fs gs : List Finding) :
    requests (fs ++ gs) = requests fs ++ requests gs :=
  List.filter_append fs gs

theorem requests_flatMap
    {α : Type} (items : List α) (findings : α → List Finding) :
    requests (items.flatMap findings) = items.flatMap fun a => requests (findings a) := by
  induction items with
  | nil => rfl
  | cons a rest ih => rw [List.flatMap_cons, List.flatMap_cons, requests_append, ih]

theorem requests_report
    {problem : Problem} (hasks : problem.asksForOptions = false) (location : Location) :
    requests (report problem location) = [] := by
  simp [requests, report, hasks]

theorem requests_require
    (subject : String) (keys : List String) (entries : Entries) (location : Location) :
    requests (require subject keys entries location) = [] := by
  unfold require
  rw [requests_flatMap, List.flatMap_eq_nil_iff]
  intro key _
  split_ifs
  · rfl
  · exact requests_report rfl location

theorem requests_lackingItems
    (subject key : String) (entries : Entries) (location : Location) :
    requests (lackingItems subject key entries location) = [] := by
  unfold lackingItems
  simp only
  split_ifs
  · exact requests_report rfl _
  · split
    · exact requests_report rfl _
    · exact requests_report rfl _
    · rfl

theorem requests_each
    (htells : Tells rule walk) (items : List Value) (location : Location) :
    requests (each rule items location) =
      (items.zipIdx.flatMap fun item => walk item.1 (location ++ [.place item.2])).flatMap
        request := by
  unfold each
  rw [requests_flatMap, List.flatMap_assoc]
  congr 1
  funext item
  exact htells _ _

theorem requests_sequence
    (htells : Tells rule walk) (subject key : String) (entries : Entries) (location : Location) :
    requests (sequence subject rule (entries.getD key) (location ++ [.name key])) =
      (walkItems walk key entries location).flatMap request := by
  unfold sequence walkItems
  cases (entries.getD key).items? with
  | none => exact requests_report rfl _
  | some items =>
      simp only [requests_each htells, List.append_assoc, List.singleton_append,
        Option.getD_some]

theorem requests_optional
    (htells : Tells rule walk) (key subject : String) (entries : Entries) (location : Location) :
    requests (optional key subject rule entries location) =
      (walkItems walk key entries location).flatMap request := by
  unfold optional
  simp only
  split_ifs with hpresent
  · exact requests_sequence htells subject key entries location
  · rw [walkItems, Value.eq_null_of_not_isPresent hpresent]
    rfl

theorem requests_optional_of_isSilent
    (hsilent : IsSilent rule) (key subject : String) (entries : Entries) (location : Location) :
    requests (optional key subject rule entries location) = [] := by
  have htells : Tells rule fun _ _ => [] := hsilent
  rw [requests_optional htells]
  simp [walkItems]

theorem tells_onMap
    {subject : String} {inner : Entries → Location → List Finding}
    {walk : Entries → Location → List (Location × Value)}
    (hinner : ∀ entries location,
      requests (inner entries location) = (walk entries location).flatMap request) :
    Tells (onMap subject inner) (walkMap walk) := by
  intro v location
  cases v with
  | map entries => exact hinner entries location
  | _ => exact requests_report rfl location

theorem isSilent_onMap
    {subject : String} {inner : Entries → Location → List Finding}
    (hinner : ∀ entries location, requests (inner entries location) = []) :
    IsSilent (onMap subject inner) := by
  intro v location
  cases v with
  | map entries => exact hinner entries location
  | _ => exact requests_report rfl location

end Requests

/-! ## The parts of a tree -/

theorem option_isSilent : IsSilent option :=
  isSilent_onMap fun _ _ => requests_require _ _ _ _

theorem requests_options
    (tag : String) (entries : Entries) (location : Location) :
    requests (options tag entries location) =
      if (entries.getD "options").isPresent then [] else report (.noOptions tag) location := by
  unfold options
  simp only
  cases hpresent : (entries.getD "options").isPresent with
  | false => rfl
  | true =>
      simp only [Bool.not_true, Bool.false_eq_true, if_false, if_true]
      split_ifs
      · rfl
      · split
        · exact requests_report rfl _
        · exact requests_report rfl _
        · unfold each
          rw [requests_flatMap, List.flatMap_eq_nil_iff]
          exact fun _ _ => option_isSilent _ _

theorem requests_fieldItself
    (settings : Settings) (v : Value) (location : Location) :
    requests (fieldItself settings v location) = request (location, v) := by
  cases v with
  | map entries =>
      simp only [fieldItself, onMap, requests_append, requests_require, List.append_nil]
      have hid : requests (if settings.isDisplayOnly (Entries.getD "type" entries) then []
          else require "Field" ["id"] entries location) = [] := by
        split_ifs
        · rfl
        · exact requests_require _ _ _ _
      have hlabel : requests (if settings.isPlaceholder (Entries.getD "type" entries) then []
          else require "Field" ["label"] entries location) = [] := by
        split_ifs
        · rfl
        · exact requests_require _ _ _ _
      rw [hid, hlabel, List.nil_append, List.nil_append]
      unfold request
      dsimp only
      cases (Entries.getD "type" entries).text? with
      | none => rfl
      | some tag =>
          by_cases hselect : (FieldType.ofTag tag).isSelect = true
          · simp only [hselect, if_true, requests_options, Bool.true_and]
            cases (Entries.getD "options" entries).isPresent <;> rfl
          · simp only [hselect, Bool.false_and, Bool.false_eq_true, if_false]
            split_ifs
            · exact requests_lackingItems _ _ _ _
            · rfl
  | _ => exact requests_report rfl location

theorem field_tells (settings : Settings) : Tells (field settings) fieldsBelow := by
  intro v location
  unfold field
  rw [requests_flatMap]
  congr 1
  funext p
  exact requests_fieldItself settings p.2 p.1

theorem action_isSilent : IsSilent action := by
  apply isSilent_onMap
  intro entries location
  simp only [requests_append, requests_require, List.append_nil, List.nil_append]
  split_ifs <;> rfl

theorem columnName_isSilent : IsSilent columnName := by
  intro v location
  unfold columnName
  split_ifs
  · rfl
  · exact requests_report rfl location

theorem wizardStep_tells (settings : Settings) : Tells (wizardStep settings) fieldsInStep := by
  apply tells_onMap
  intro entries location
  rw [requests_append, requests_append, requests_require, requests_lackingItems, List.nil_append,
    List.nil_append]
  unfold walkItems
  cases (entries.getD "fields").items? with
  | none => rfl
  | some items =>
      simp only [requests_each (field_tells settings), List.append_assoc, List.singleton_append,
        Option.getD_some]

theorem wizard_tells (settings : Settings) : Tells (wizard settings) fieldsInWizard := by
  apply tells_onMap
  intro entries location
  simp only
  split_ifs with hpresent
  · exact requests_sequence (wizardStep_tells settings) _ _ entries location
  · rw [requests_report rfl, walkItems, Value.eq_null_of_not_isPresent hpresent]
    rfl

theorem formSection_tells (settings : Settings) : Tells (formSection settings) fieldsInSection := by
  apply tells_onMap
  intro entries location
  rw [requests_append, requests_require, List.nil_append]
  exact requests_optional (field_tells settings) _ _ entries location

theorem requests_optionalWizard
    (settings : Settings) (entries : Entries) (location : Location) :
    requests (optionalWizard settings entries location) =
      (fieldsInWizard (entries.getD "wizard") (location ++ [.name "wizard"])).flatMap request := by
  unfold optionalWizard
  simp only
  split_ifs with hpresent
  · exact wizard_tells settings _ _
  · rw [Value.eq_null_of_not_isPresent hpresent]
    rfl

theorem screen_tells (settings : Settings) : Tells (screen settings) fieldsInScreen := by
  apply tells_onMap
  intro entries location
  simp only [requests_append, requests_require, requests_optionalWizard,
    requests_optional (field_tells settings), requests_optional (formSection_tells settings),
    requests_optional_of_isSilent columnName_isSilent,
    requests_optional_of_isSilent action_isSilent, List.nil_append, List.append_nil,
    List.flatMap_append]

theorem component_tells
    (settings : Settings) : Tells (component settings) fieldsInComponent := by
  apply tells_onMap
  intro entries location
  dsimp only
  have htype : requests (if (entries.getD "type").isPresent &&
      (componentType? (entries.getD "type")).isNone then
        report (.componentType (entries.getD "type")) (location ++ [.name "type"])
      else []) = [] := by
    split_ifs <;> rfl
  have hactions : requests (if componentType? (entries.getD "type") == some .actionGroup then
      optional "actions" "Component actions" action entries location else []) = [] := by
    split_ifs
    · exact requests_optional_of_isSilent action_isSilent _ _ _ _
    · rfl
  rw [requests_append, requests_append, requests_append, requests_require, htype, hactions,
    List.nil_append, List.nil_append, List.append_nil]
  split_ifs
  · exact requests_optional (field_tells settings) _ _ entries location
  · rfl

theorem fieldRule_isSilent : IsSilent fieldRule := by
  apply isSilent_onMap
  intro entries location
  rw [requests_append, requests_require, List.nil_append]
  split_ifs <;> rfl

theorem strict_tells
    (settings : Settings) (kind : CollectionKind) :
    Tells (strict settings kind) (fieldsInEntry kind) := by
  cases kind with
  | screens => exact screen_tells settings
  | components => exact component_tells settings
  | rules => exact fieldRule_isSilent

theorem listedField_isSilent : IsSilent listedField :=
  isSilent_onMap fun _ _ => rfl

theorem listedSection_isSilent : IsSilent listedSection :=
  isSilent_onMap fun _ _ => requests_optional_of_isSilent listedField_isSilent _ _ _ _

theorem listedAction_isSilent : IsSilent listedAction := by
  intro v location
  unfold listedAction
  split_ifs
  · rfl
  · exact action_isSilent v location

theorem relaxed_isSilent (kind : CollectionKind) : IsSilent (relaxed kind) := by
  cases kind with
  | screens =>
      apply isSilent_onMap
      intro entries location
      have hname : requests (if (entries.getD "name").isPresent || (entries.getD "title").isPresent
          then [] else report .noScreenName location) = [] := by
        split_ifs <;> rfl
      simp only [requests_append, hname, requests_optional_of_isSilent listedField_isSilent,
        requests_optional_of_isSilent listedSection_isSilent,
        requests_optional_of_isSilent listedAction_isSilent,
        requests_optional_of_isSilent columnName_isSilent, List.nil_append]
  | components => exact isSilent_onMap fun _ _ => requests_require _ _ _ _
  | rules => exact isSilent_onMap fun _ _ => requests_require _ _ _ _

theorem requests_entries
    {kind : CollectionKind} {rule : Rule} {walk : Walk} (htells : Tells rule walk)
    (seen : List Step) (steps : List (Step × Value)) :
    requests (entries kind rule seen steps) =
      (steps.flatMap fun x => walk x.2 [.name kind.name, x.1]).flatMap request := by
  induction steps generalizing seen with
  | nil => rfl
  | cons x rest ih =>
      obtain ⟨step, v⟩ := x
      have htwice : requests (if seen.contains step then
          report (.keyTwice kind step.render) [.name kind.name, step] else []) = [] := by
        split_ifs <;> rfl
      rw [entries, requests_append, requests_append, htwice, List.nil_append, htells, ih,
        List.flatMap_cons, List.flatMap_append]

theorem requests_documentPart
    (settings : Settings) (document : Entries) (kind : CollectionKind) :
    requests (documentPart settings document kind) =
      (fieldsInCollection document kind).flatMap request := by
  unfold documentPart fieldsInCollection
  have hlisted (items : List Value) :
      requests (collection settings kind (.listed items)) = [] := by
    have htells : Tells (relaxed kind) fun _ _ => [] := relaxed_isSilent kind
    rw [collection, requests_entries htells]
    simp
  have hpresent :
      requests (if kind.isRequired then report (.noCollection kind) [] else []) = [] := by
    split_ifs <;> rfl
  cases document.getD kind.name with
  | map es =>
      have hkeyed : requests (collection settings kind (.keyed es)) = _ :=
        requests_entries (strict_tells settings kind) _ _
      simpa [Value.isPresent, Collection.ofValue?, Collection.steps, List.flatMap_map] using hkeyed
  | list items => exact hlisted items
  | tuple items => exact hlisted items
  | scalar s => cases s <;> first | exact hpresent | rfl
  | _ => rfl

/-- The requests for options in the findings of a tree are those of its strict fields. -/
theorem requests_root
    (settings : Settings) (tree : Value) :
    requests (root settings tree) = (fieldsInTree tree).flatMap request := by
  cases tree with
  | map document =>
      unfold root fieldsInTree
      rw [requests_flatMap, List.flatMap_assoc]
      congr 1
      funext kind
      exact requests_documentPart settings document kind
  | _ => rfl

theorem request_of_lacksOptions
    {tag : String} {location : Location} {v : Value} (hlacks : LacksOptions tag v) :
    request (location, v) = [⟨.noOptions tag, location⟩] := by
  obtain ⟨entries, rfl, htype, hselect, habsent⟩ := hlacks
  simp [request, htype, Value.text?, hselect, habsent, report]

theorem request_of_not_lacksOptions
    {location : Location} {v : Value} (hlacks : ¬ ∃ tag, LacksOptions tag v) :
    request (location, v) = [] := by
  cases v with
  | map entries =>
      unfold request
      dsimp only
      cases htype : (Entries.getD "type" entries).text? with
      | none => rfl
      | some tag =>
          dsimp only
          split_ifs with hrequest
          · rw [Bool.and_eq_true, Bool.not_eq_true'] at hrequest
            exact absurd ⟨tag, entries, rfl, Value.text?_eq_some_iff.mp htype, hrequest⟩ hlacks
          · rfl
  | _ => rfl

/-- The requests of fields are one for each field that lacks its options. -/
theorem forall₂_requests (fields : List (Location × Value)) :
    ∃ lacking : List (Location × Value),
      lacking.Sublist fields ∧
      (∀ p, p ∈ lacking ↔ p ∈ fields ∧ ∃ tag, LacksOptions tag p.2) ∧
      List.Forall₂ (fun p f => ∃ tag, LacksOptions tag p.2 ∧ f = ⟨.noOptions tag, p.1⟩) lacking
        (fields.flatMap request) := by
  induction fields with
  | nil => exact ⟨[], .slnil, by simp, .nil⟩
  | cons p rest ih =>
      obtain ⟨lacking, hsublist, hmem, hrequests⟩ := ih
      rw [List.flatMap_cons]
      by_cases hlacks : ∃ tag, LacksOptions tag p.2
      · obtain ⟨tag, htag⟩ := hlacks
        rw [show request p = [⟨.noOptions tag, p.1⟩] from request_of_lacksOptions htag,
          List.singleton_append]
        refine ⟨p :: lacking, hsublist.cons_cons p, ?_, .cons ⟨tag, htag, rfl⟩ hrequests⟩
        intro q
        rw [List.mem_cons, List.mem_cons, hmem]
        constructor
        · rintro (rfl | ⟨hq, hlacks⟩)
          · exact ⟨.inl rfl, tag, htag⟩
          · exact ⟨.inr hq, hlacks⟩
        · rintro ⟨rfl | hq, hlacks⟩
          · exact .inl rfl
          · exact .inr ⟨hq, hlacks⟩
      · rw [show request p = [] from request_of_not_lacksOptions hlacks, List.nil_append]
        refine ⟨lacking, hsublist.cons p, ?_, hrequests⟩
        intro q
        rw [List.mem_cons, hmem]
        constructor
        · rintro ⟨hq, hlacks⟩
          exact ⟨.inr hq, hlacks⟩
        · rintro ⟨rfl | hq, hq'⟩
          · exact absurd hq' hlacks
          · exact ⟨hq, hq'⟩

end Rules

namespace Value

open Rules

/-- Whatever else is wrong in a tree that is neither too large nor too deep, the diagnostics
of each strict field stand together in its check.  If the keys of its keyed collections have
different texts, its requests for options are one for each strict field without them. -/
theorem check_strictFields
    {settings : Settings} {tree : Value} (hsize : tree.isTooLarge settings = false)
    (hdepth : tree.depthExcess? settings.maxDepth = .ok none) (positions : Positions) :
    (∀ ds, tree.check settings positions = .ok ds → ∀ location v, IsStrictField tree location v →
        (field settings v location).map (Finding.diagnose positions) <:+: ds) ∧
      (HasDistinctTexts tree →
        ∃ (findings : List Finding) (lacking : List (Location × Value)),
          tree.findings settings = .ok findings ∧ (lacking.map Prod.fst).Nodup ∧
          (∀ location v, (location, v) ∈ lacking ↔
            IsStrictField tree location v ∧ ∃ tag, LacksOptions tag v) ∧
          List.Forall₂ (fun p f => ∃ tag, LacksOptions tag p.2 ∧ f = ⟨.noOptions tag, p.1⟩)
            lacking (requests findings)) := by
  have hfindings := findings_eq_root hsize hdepth
  constructor
  · intro ds hds location v hfield
    obtain ⟨fs, hfs, -, rfl⟩ := check_eq_ok_iff.mp hds
    cases hfindings.symm.trans hfs
    exact (infix_root settings location hfield).map _
  · intro hdistinct
    obtain ⟨lacking, hsublist, hmem, hrequests⟩ := forall₂_requests (fieldsInTree tree)
    refine ⟨_, lacking, hfindings, (nodup_fieldsInTree hdistinct).sublist (hsublist.map _), ?_, ?_⟩
    · intro location v
      rw [hmem, mem_fieldsInTree_iff]
    · rw [requests_root]
      exact hrequests

/-- A field without options. -/
def sizeField : Value :=
  Canonical.object [("id", .text "size"), ("type", .text "select"), ("label", .text "Size")]

/-- A screen without a title, with a wizard that is none and with a repeater without a name
that repeats a field without options. -/
def untitled : Value :=
  Canonical.object [("view", Canonical.object [("home", Canonical.object [
    ("wizard", .text "none"),
    ("fields", .list [Canonical.object [
      ("type", .text "repeater"), ("item_fields", .list [sizeField])]])])])]

theorem hasDistinctTexts_untitled : HasDistinctTexts untitled := by
  intro document hdocument kind es hes
  cases hdocument
  cases kind with
  | screens =>
      cases hes
      decide
  | components => cases hes
  | rules => cases hes

theorem isStrictField_untitled :
    IsStrictField untitled
      [.name "view", .name "home", .name "fields", .place 0, .name "item_fields", .place 0]
      sizeField := by
  have hscreen : untitled.HasKeyed .screens (.text "home") _ :=
    ⟨_, _, rfl, rfl, List.mem_cons_self⟩
  have hrepeater : IsStrictField untitled
      [.name "view", .name "home", .name "fields", .place 0] _ :=
    .top (.own hscreen (.inl rfl) ⟨_, rfl, rfl⟩)
  exact .repeated hrepeater rfl ⟨_, rfl, rfl⟩

/-- The missing options of the repeated field are reported all the same, and only they are. -/
theorem check_strictFields_untitled :
    untitled.isTooLarge .default = false ∧
      untitled.depthExcess? Settings.default.maxDepth = .ok none ∧
      (∃ ds, untitled.check .default [] = .ok ds ∧
        (field .default sizeField
          [.name "view", .name "home", .name "fields", .place 0, .name "item_fields",
            .place 0]).map (Finding.diagnose []) <:+: ds) ∧
      ∃ (findings : List Finding) (lacking : List (Location × Value)),
        untitled.findings .default = .ok findings ∧ (lacking.map Prod.fst).Nodup ∧
        (∀ location v, (location, v) ∈ lacking ↔
          IsStrictField untitled location v ∧ ∃ tag, LacksOptions tag v) ∧
        List.Forall₂ (fun p f => ∃ tag, LacksOptions tag p.2 ∧ f = ⟨.noOptions tag, p.1⟩)
          lacking (requests findings) := by
  obtain ⟨hfields, hlacking⟩ := @check_strictFields .default untitled rfl rfl []
  exact ⟨rfl, rfl, ⟨_, rfl, hfields _ rfl _ _ isStrictField_untitled⟩,
    hlacking hasDistinctTexts_untitled⟩

end Value

end Wireframe
