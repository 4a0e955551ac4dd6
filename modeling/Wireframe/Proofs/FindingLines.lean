import Mathlib.Tactic
import Wireframe.Proofs.FindingLocations
import Wireframe.Proofs.Lines

/-!
# Lines of findings

Every rule words what it finds with fixed words and with keys and types of the value that it
looks at.  So the findings of a tree are told in one line each, unless a key or a text of the
tree is not one line itself.
-/

namespace Wireframe

open Text

/-! ## Paths -/

theorem isOneLine_extend
    {path : String} {step : Step} (hpath : Text.IsOneLine path)
    (hstep : Text.IsOneLine step.render) :
    Text.IsOneLine (Location.extend path step) := by
  cases step with
  | place i =>
      exact isOneLine_append.mpr
        ⟨isOneLine_append.mpr ⟨isOneLine_append.mpr ⟨hpath, by decide⟩, hstep⟩, by decide⟩
  | flag b =>
      refine isOneLine_append.mpr ⟨hpath, ?_⟩
      cases b <;> decide
  | name s =>
      unfold Location.extend
      split_ifs
      · exact hstep
      · exact isOneLine_append.mpr ⟨isOneLine_append.mpr ⟨hpath, by decide⟩, hstep⟩

theorem Location.isOneLine_render
    {location : Location} (hsteps : ∀ step ∈ location, Text.IsOneLine step.render) :
    Text.IsOneLine location.render := by
  suffices hfold : ∀ path, Text.IsOneLine path → Text.IsOneLine (location.foldl extend path) from
    hfold "" (by decide)
  induction location with
  | nil => exact fun _ hpath => hpath
  | cons step location ih =>
      intro path hpath
      have hextend := isOneLine_extend hpath (hsteps step List.mem_cons_self)
      exact ih (fun s hs => hsteps s (List.mem_cons_of_mem _ hs)) _ hextend

/-! ## Messages -/

namespace Problem

/-- The words that the message has from elsewhere. -/
def words : Problem → List String
  | keyTwice _ key => [key]
  | notObject subject | notArray subject => [subject]
  | emptyArray subject key | noAttribute subject key | noItems subject key => [subject, key]
  | noOptions type => [type]
  | actionType type | componentType type => [type.render]
  | _ => []

theorem isOneLine_message
    {problem : Problem} (hwords : ∀ s ∈ problem.words, Text.IsOneLine s) :
    Text.IsOneLine problem.message := by
  have harticle (key : String) : Text.IsOneLine (article key) := by
    unfold article
    split
    · split_ifs <;> decide
    · decide
  have hkind (kind : CollectionKind) :
      Text.IsOneLine kind.name ∧ Text.IsOneLine kind.elementTitle := by
    cases kind <;> exact ⟨isOneLine_of_all rfl, isOneLine_of_all rfl⟩
  have hafter {subject after : String} (hsubject : Text.IsOneLine subject)
      (hafter : Text.IsOneLine after) : Text.IsOneLine (subject ++ after) :=
    isOneLine_append.mpr ⟨hsubject, hafter⟩
  cases problem with
  | tooManyValues limit =>
      exact isOneLine_around (isOneLine_of_all rfl) (isOneLine_intText limit) (isOneLine_of_all rfl)
  | tooDeep limit =>
      exact isOneLine_around (isOneLine_of_all rfl) (isOneLine_intText limit) (isOneLine_of_all rfl)
  | noCollection kind =>
      exact isOneLine_around (isOneLine_of_all rfl) (hkind kind).1 (isOneLine_of_all rfl)
  | notCollection kind =>
      exact isOneLine_around (isOneLine_of_all rfl) (hkind kind).1 (isOneLine_of_all rfl)
  | keyTwice kind key =>
      refine isOneLine_around (hafter (hkind kind).2 ?_) ?_ (isOneLine_of_all rfl)
      · exact isOneLine_of_all rfl
      · exact List.forall_mem_singleton.mp hwords
  | notObject subject => exact hafter (List.forall_mem_singleton.mp hwords) (isOneLine_of_all rfl)
  | notArray subject => exact hafter (List.forall_mem_singleton.mp hwords) (isOneLine_of_all rfl)
  | emptyArray subject key =>
      obtain ⟨hsubject, hkey⟩ := List.forall_mem_cons.mp hwords
      refine isOneLine_around (hafter hsubject (isOneLine_of_all rfl)) ?_ (isOneLine_of_all rfl)
      exact List.forall_mem_singleton.mp hkey
  | noAttribute subject key =>
      obtain ⟨hsubject, hkey⟩ := List.forall_mem_cons.mp hwords
      refine isOneLine_around (hafter (hafter (hafter hsubject ?_) (harticle key)) ?_) ?_
        (isOneLine_of_all rfl)
      · exact isOneLine_of_all rfl
      · exact isOneLine_of_all rfl
      · exact List.forall_mem_singleton.mp hkey
  | noItems subject key =>
      obtain ⟨hsubject, hkey⟩ := List.forall_mem_cons.mp hwords
      refine isOneLine_around (hafter hsubject (isOneLine_of_all rfl)) ?_ (isOneLine_of_all rfl)
      exact List.forall_mem_singleton.mp hkey
  | noOptions type =>
      have htype := List.forall_mem_singleton.mp hwords
      exact isOneLine_around (isOneLine_of_all rfl) htype (isOneLine_of_all rfl)
  | actionType type =>
      have htext := List.forall_mem_singleton.mp hwords
      refine hafter (isOneLine_around (isOneLine_of_all rfl) htext (isOneLine_of_all rfl)) ?_
      exact isOneLine_intercalate (by decide) (by decide)
  | componentType type =>
      have htext := List.forall_mem_singleton.mp hwords
      refine hafter (isOneLine_around (isOneLine_of_all rfl) htext (isOneLine_of_all rfl)) ?_
      exact isOneLine_intercalate (by decide) (by decide)
  | _ => exact isOneLine_of_all rfl

end Problem

/-! ## Findings -/

/-- Every key and every text of the value is one line. -/
structure Value.IsOneLined (v : Value) : Prop where
  keys : ∀ l x, v.At Step.Spells l x → ∀ step ∈ l, Text.IsOneLine step.render
  texts : ∀ l t, v.At Step.Spells l (.text t) → Text.IsOneLine t

theorem Value.IsOneLined.child
    {v w : Value} {step : Step} (hv : v.IsOneLined) (hchild : v.Child Step.Spells step w) :
    w.IsOneLined where
  keys l x hat s hs := hv.keys (step :: l) x (.child hchild hat) s (List.mem_cons_of_mem _ hs)
  texts l t hat := hv.texts (step :: l) t (.child hchild hat)

theorem Value.IsOneLined.render {v : Value} (hv : v.IsOneLined) : Text.IsOneLine v.render :=
  isOneLine_render fun t ht => hv.texts [] t (ht ▸ .root)

namespace Rules

/-- The message of each finding is one line. -/
def AreTerse (findings : List Finding) : Prop :=
  ∀ f ∈ findings, Text.IsOneLine f.problem.message

/-- What the rule finds in a value of one-lined keys and texts is told in one line each. -/
def IsTerse (rule : Rule) : Prop := ∀ v location, v.IsOneLined → AreTerse (rule v location)

section Findings

variable {rule : Rule} {entries : Entries} {location : Location} {findings more : List Finding}

theorem areTerse_nil : AreTerse [] := nofun

theorem AreTerse.append (hfindings : AreTerse findings) (hmore : AreTerse more) :
    AreTerse (findings ++ more) :=
  List.forall_mem_append.mpr ⟨hfindings, hmore⟩

theorem areTerse_flatMap
    {α : Type} {items : List α} {find : α → List Finding}
    (hfind : ∀ a ∈ items, AreTerse (find a)) :
    AreTerse (items.flatMap find) := by
  intro f hf
  obtain ⟨a, ha, hmem⟩ := List.mem_flatMap.mp hf
  exact hfind a ha f hmem

theorem areTerse_report
    (problem : Problem) (hwords : ∀ s ∈ problem.words, Text.IsOneLine s) (location : Location) :
    AreTerse (report problem location) :=
  List.forall_mem_singleton.mpr (Problem.isOneLine_message hwords)

theorem areTerse_ite
    {c : Prop} [Decidable c] (hthen : AreTerse findings) (helse : AreTerse more) :
    AreTerse (if c then findings else more) := by
  split_ifs
  · exact hthen
  · exact helse

theorem isTerse_onMap
    {subject : String} (hsubject : Text.IsOneLine subject)
    {inner : Entries → Location → List Finding}
    (hinner : ∀ entries location, (Value.map entries).IsOneLined →
      AreTerse (inner entries location)) :
    IsTerse (onMap subject inner) := by
  intro v location hv
  cases v with
  | map entries => exact hinner entries location hv
  | _ => exact areTerse_report (.notObject subject) (List.forall_mem_singleton.mpr hsubject) _

theorem areTerse_require
    {subject : String} {keys : List String} (hwords : ∀ s ∈ subject :: keys, Text.IsOneLine s)
    (entries : Entries) (location : Location) :
    AreTerse (require subject keys entries location) := by
  obtain ⟨hsubject, hkeys⟩ := List.forall_mem_cons.mp hwords
  refine areTerse_flatMap fun key hkey => areTerse_ite areTerse_nil
    (areTerse_report (.noAttribute subject key) ?_ _)
  exact List.forall_mem_cons.mpr ⟨hsubject, List.forall_mem_singleton.mpr (hkeys key hkey)⟩

theorem IsTerse.each
    (hrule : IsTerse rule) {v : Value} (hv : v.IsOneLined) {items : List Value}
    (hitems : v.items? = some items) (location : Location) :
    AreTerse (each rule items location) := by
  apply areTerse_flatMap
  rintro ⟨x, i⟩ hx
  exact hrule x _ (hv.child (.item hitems (List.mk_mem_zipIdx_iff_getElem?.mp hx)))

theorem IsTerse.sequence
    (hrule : IsTerse rule) {subject : String} (hsubject : Text.IsOneLine subject) :
    IsTerse (sequence subject rule) := by
  intro v location hv
  unfold Rules.sequence
  split
  next items hitems => exact hrule.each hv hitems location
  next => exact areTerse_report (.notArray subject) (List.forall_mem_singleton.mpr hsubject) _

theorem IsTerse.getD
    (hrule : IsTerse rule) (hentries : (Value.map entries).IsOneLined) {key : String}
    (hpresent : (entries.getD key).isPresent = true) (location : Location) :
    AreTerse (rule (entries.getD key) location) :=
  hrule _ _ (hentries.child (Value.child_of_isPresent hpresent))

theorem IsTerse.optional
    (hrule : IsTerse rule) {subject : String} (hsubject : Text.IsOneLine subject) (key : String)
    (hentries : (Value.map entries).IsOneLined) (location : Location) :
    AreTerse (optional key subject rule entries location) := by
  unfold Rules.optional
  simp only
  split_ifs with hpresent
  · exact (hrule.sequence hsubject).getD hentries hpresent _
  · exact areTerse_nil

theorem areTerse_lackingItems
    {subject key : String} (hsubject : Text.IsOneLine subject) (hkey : Text.IsOneLine key)
    (entries : Entries) (location : Location) :
    AreTerse (lackingItems subject key entries location) := by
  have hboth := List.forall_mem_cons.mpr ⟨hsubject, List.forall_mem_singleton.mpr hkey⟩
  have hpart : Text.IsOneLine (subject ++ " " ++ key) :=
    isOneLine_append.mpr ⟨isOneLine_append.mpr ⟨hsubject, by decide⟩, hkey⟩
  unfold lackingItems
  simp only
  split_ifs
  · exact areTerse_report (.noItems subject key) hboth _
  · split
    · exact areTerse_report (.notArray _) (List.forall_mem_singleton.mpr hpart) _
    · exact areTerse_report (.emptyArray subject key) hboth _
    · exact areTerse_nil

end Findings

section Fields

variable (settings : Settings)

theorem option_isTerse : IsTerse option :=
  isTerse_onMap (by decide) fun _ _ _ => areTerse_require (by decide) _ _

theorem areTerse_options
    {type : String} (htype : Text.IsOneLine type) {entries : Entries}
    (hentries : (Value.map entries).IsOneLined) (location : Location) :
    AreTerse (options type entries location) := by
  unfold options
  simp only
  split_ifs with habsent
  · exact areTerse_report (.noOptions type) (List.forall_mem_singleton.mpr htype) _
  · exact areTerse_nil
  · have hpresent : (entries.getD "options").isPresent = true := by simpa using habsent
    split
    · exact areTerse_report .notOptions nofun _
    · exact areTerse_report .emptyOptions nofun _
    next hitems =>
      have hoptions := hentries.child (Value.child_of_isPresent hpresent)
      exact option_isTerse.each hoptions hitems _

theorem fieldItself_isTerse : IsTerse (fieldItself settings) := by
  apply isTerse_onMap (by decide)
  intro entries location hentries
  simp only
  refine .append (.append (.append ?_ ?_) ?_) ?_
  · exact areTerse_ite areTerse_nil (areTerse_require (by decide) _ _)
  · exact areTerse_require (by decide) _ _
  · exact areTerse_ite areTerse_nil (areTerse_require (by decide) _ _)
  · split
    · exact areTerse_nil
    next tag htag =>
      have htext : Entries.getD "type" entries = .text tag := Value.text?_eq_some_iff.mp htag
      have hpresent : (Entries.getD "type" entries).isPresent = true := htext ▸ rfl
      have htype : Text.IsOneLine tag := by
        have hrender := (hentries.child (Value.child_of_isPresent hpresent)).render
        rwa [htext] at hrender
      refine areTerse_ite (areTerse_options htype hentries _) (areTerse_ite ?_ areTerse_nil)
      exact areTerse_lackingItems (by decide) (by decide) _ _

theorem field_isTerse : IsTerse (field settings) := by
  intro v
  induction v using Value.mapInductionOn with
  | map entries ih =>
      intro location hentries
      rw [field_map]
      refine (fieldItself_isTerse settings _ _ hentries).append (areTerse_ite ?_ areTerse_nil)
      split
      next items hitems =>
        have hpresent := Value.isPresent_of_items? hitems
        obtain ⟨key, hmem, -⟩ := Entries.get?_mem (Entries.get?_of_isPresent hpresent)
        have hlist := hentries.child (Value.child_of_isPresent hpresent)
        apply areTerse_flatMap
        rintro ⟨x, i⟩ hx
        have hget := List.mk_mem_zipIdx_iff_getElem?.mp hx
        exact ih _ hmem items hitems x (List.mem_of_getElem? hget) _
          (hlist.child (.item hitems hget))
      next => exact areTerse_nil
  | other v hmap =>
      intro location hv
      have hsingle : field settings v location = fieldItself settings v location := by
        cases v with
        | map entries => cases hmap
        | _ => exact List.flatMap_singleton _ _
      rw [hsingle]
      exact fieldItself_isTerse settings v location hv

end Fields

section Entry

variable (settings : Settings)

/-- A type that is unknown is shown as it is written. -/
theorem areTerse_type
    {entries : Entries} (hentries : (Value.map entries).IsOneLined) (problem : Problem)
    (hwords : problem.words = [(entries.getD "type").render]) {known : Bool}
    (location : Location) :
    AreTerse (if ((entries.getD "type").isPresent && known) = true then
      report problem location else []) := by
  split_ifs with hunknown
  · rw [Bool.and_eq_true] at hunknown
    have htype := (hentries.child (Value.child_of_isPresent hunknown.1)).render
    exact areTerse_report problem (by simpa [hwords] using htype) _
  · exact areTerse_nil

theorem action_isTerse : IsTerse action := by
  apply isTerse_onMap (by decide)
  intro entries location hentries
  simp only
  refine .append (.append (.append ?_ ?_) ?_) ?_
  · exact areTerse_require (by decide) _ _
  · exact areTerse_type hentries _ rfl _
  · exact areTerse_require (by decide) _ _
  · exact areTerse_ite (areTerse_report .noDestination nofun _) areTerse_nil

theorem wizardStep_isTerse : IsTerse (wizardStep settings) := by
  apply isTerse_onMap (by decide)
  intro entries location hentries
  refine .append (.append (areTerse_require (by decide) _ _)
    (areTerse_lackingItems (by decide) (by decide) _ _)) ?_
  split
  next items hitems =>
    have hfields := hentries.child (Value.child_of_isPresent (Value.isPresent_of_items? hitems))
    exact (field_isTerse settings).each hfields hitems _
  next => exact areTerse_nil

theorem wizard_isTerse : IsTerse (wizard settings) := by
  apply isTerse_onMap (by decide)
  intro entries location hentries
  simp only
  split_ifs with hpresent
  · exact ((wizardStep_isTerse settings).sequence (by decide)).getD hentries hpresent _
  · exact areTerse_report (.noItems "Wizard" "steps") (by decide) _

theorem formSection_isTerse : IsTerse (formSection settings) :=
  isTerse_onMap (by decide) fun _ _ hentries =>
    .append (areTerse_require (by decide) _ _)
      ((field_isTerse settings).optional (by decide) _ hentries _)

theorem columnName_isTerse : IsTerse columnName :=
  fun _ _ _ => areTerse_ite areTerse_nil (areTerse_report .notName nofun _)

theorem areTerse_optionalWizard
    {entries : Entries} (hentries : (Value.map entries).IsOneLined) (location : Location) :
    AreTerse (optionalWizard settings entries location) := by
  unfold optionalWizard
  simp only
  split_ifs with hpresent
  · exact (wizard_isTerse settings).getD hentries hpresent _
  · exact areTerse_nil

theorem screen_isTerse : IsTerse (screen settings) := by
  have hfield := field_isTerse settings
  apply isTerse_onMap (by decide)
  intro entries location hentries
  refine .append (.append (.append (.append (.append (.append (.append ?_ ?_) ?_) ?_) ?_) ?_) ?_) ?_
  · exact areTerse_require (by decide) _ _
  · exact areTerse_optionalWizard settings hentries _
  · exact (formSection_isTerse settings).optional (by decide) _ hentries _
  · exact hfield.optional (by decide) _ hentries _
  · exact hfield.optional (by decide) _ hentries _
  · exact columnName_isTerse.optional (by decide) _ hentries _
  · exact columnName_isTerse.optional (by decide) _ hentries _
  · exact action_isTerse.optional (by decide) _ hentries _

theorem listedField_isTerse : IsTerse listedField :=
  isTerse_onMap (by decide) fun _ _ _ => areTerse_nil

theorem listedSection_isTerse : IsTerse listedSection :=
  isTerse_onMap (by decide) fun _ _ hentries =>
    listedField_isTerse.optional (by decide) _ hentries _

theorem listedAction_isTerse : IsTerse listedAction :=
  fun v location hv => areTerse_ite areTerse_nil (action_isTerse v location hv)

theorem listedScreen_isTerse : IsTerse listedScreen := by
  apply isTerse_onMap (by decide)
  intro entries location hentries
  refine .append (.append (.append (.append (.append (.append ?_ ?_) ?_) ?_) ?_) ?_) ?_
  · exact areTerse_ite areTerse_nil (areTerse_report .noScreenName nofun _)
  · exact listedSection_isTerse.optional (by decide) _ hentries _
  · exact listedField_isTerse.optional (by decide) _ hentries _
  · exact listedField_isTerse.optional (by decide) _ hentries _
  · exact columnName_isTerse.optional (by decide) _ hentries _
  · exact columnName_isTerse.optional (by decide) _ hentries _
  · exact listedAction_isTerse.optional (by decide) _ hentries _

theorem component_isTerse : IsTerse (component settings) := by
  apply isTerse_onMap (by decide)
  intro entries location hentries
  simp only
  refine .append (.append (.append (areTerse_require (by decide) _ _) ?_) ?_) ?_
  · exact areTerse_type hentries _ rfl _
  · exact areTerse_ite ((field_isTerse settings).optional (by decide) _ hentries _) areTerse_nil
  · exact areTerse_ite (action_isTerse.optional (by decide) _ hentries _) areTerse_nil

theorem fieldRule_isTerse : IsTerse fieldRule :=
  isTerse_onMap (by decide) fun _ _ _ =>
    .append (areTerse_require (by decide) _ _)
      (areTerse_ite areTerse_nil
        (areTerse_report (.noItems "Validation rule" "rules") (by decide) _))

theorem strict_isTerse (kind : CollectionKind) : IsTerse (strict settings kind) := by
  cases kind with
  | screens => exact screen_isTerse settings
  | components => exact component_isTerse settings
  | rules => exact fieldRule_isTerse

theorem relaxed_isTerse (kind : CollectionKind) : IsTerse (relaxed kind) := by
  cases kind with
  | screens => exact listedScreen_isTerse
  | components => exact isTerse_onMap (by decide) fun _ _ _ => areTerse_require (by decide) _ _
  | rules => exact isTerse_onMap (by decide) fun _ _ _ => areTerse_require (by decide) _ _

end Entry

theorem areTerse_entries
    {rule : Rule} (hrule : IsTerse rule) {v : Value} (hv : v.IsOneLined) {kind : CollectionKind}
    {seen : List Step} {steps : List (Step × Value)}
    (hsteps : ∀ x ∈ steps, v.Child Step.Spells x.1 x.2) :
    AreTerse (entries kind rule seen steps) := by
  induction steps generalizing seen with
  | nil => exact areTerse_nil
  | cons x rest ih =>
      have hfirst := hsteps x List.mem_cons_self
      have hkey := hv.keys [x.1] x.2 hfirst.at x.1 List.mem_cons_self
      refine .append (.append (areTerse_ite (areTerse_report (.keyTwice kind _) ?_ _) areTerse_nil)
        (hrule x.2 _ (hv.child hfirst))) ?_
      · exact List.forall_mem_singleton.mpr hkey
      · exact ih fun y hy => hsteps y (List.mem_cons_of_mem _ hy)

theorem areTerse_documentPart
    (settings : Settings) {document : Entries} (hdocument : (Value.map document).IsOneLined)
    (kind : CollectionKind) :
    AreTerse (documentPart settings document kind) := by
  unfold documentPart
  simp only
  split_ifs with habsent hrequired
  · exact areTerse_report (.noCollection kind) nofun _
  · exact areTerse_nil
  · have hpresent : (document.getD kind.name).isPresent = true := by simpa using habsent
    split
    next c hc =>
      refine areTerse_entries ?_ (hdocument.child (Value.child_of_isPresent hpresent))
        fun x hx => child_of_mem_steps hc hx
      cases c with
      | keyed entries => exact strict_isTerse settings kind
      | listed items => exact relaxed_isTerse kind
    next => exact areTerse_report (.notCollection kind) nofun _

theorem root_isTerse (settings : Settings) {tree : Value} (htree : tree.IsOneLined) :
    AreTerse (root settings tree) := by
  cases tree with
  | map document => exact areTerse_flatMap fun kind _ => areTerse_documentPart settings htree kind
  | _ => exact areTerse_report .rootNotObject nofun _

end Rules

namespace Value

variable {settings : Settings} {tree : Value}

theorem areTerse_findings
    (htree : tree.IsOneLined) {fs : List Finding} (hfindings : tree.findings settings = .ok fs) :
    Rules.AreTerse fs := by
  rcases findings_eq_ok_iff.mp hfindings with ⟨-, rfl⟩ | ⟨-, ⟨location, -, rfl⟩ | ⟨-, rfl⟩⟩
  · exact Rules.areTerse_report (.tooManyValues settings.maxNodes) nofun _
  · exact Rules.areTerse_report (.tooDeep settings.maxDepth) nofun _
  · exact Rules.root_isTerse settings htree

end Value

end Wireframe
