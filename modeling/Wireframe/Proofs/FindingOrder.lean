import Mathlib.Tactic
import Wireframe.Proofs.FindingLocations

/-!
# Order of findings

A node comes before what is in it, and what is in it comes in the order in which it is written.
The rules look at the collections of a document, and at the attributes of a screen, in an order
of their own, and at the label of an action behind its type.  Where a document is arranged in
that order, its findings come in the order of their nodes.
-/

namespace Wireframe

namespace Value

/-- Both steps lead to parts of the value, and the first part is written before the second. -/
inductive Earlier : Value → Step → Step → Prop
  | entry {entries : Entries} {e f : Key × Value} {s t : Step} (hpair : [e, f].Sublist entries)
      (hs : s.Spells e.1) (ht : t.Spells f.1) : Earlier (.map entries) s t
  | item {v : Value} {items : List Value} {i j : Nat} (hitems : v.items? = some items)
      (hij : i < j) (hj : j < items.length) : Earlier v (.place i) (.place j)

/-- What is at the first location is around what is at the second, or comes before it. -/
inductive Before : Value → Location → Location → Prop
  | around (v : Value) (l : Location) : Before v [] l
  | within {v w : Value} {s : Step} {l m : Location} (hchild : v.Child Step.Spells s w)
      (hrest : Before w l m) : Before v (s :: l) (s :: m)
  | across {v : Value} {s t : Step} (hearlier : v.Earlier s t) (l m : Location) :
      Before v (s :: l) (t :: m)

theorem earlier_of_zipIdx {v : Value} {items : List Value} (hitems : v.items? = some items) :
    items.zipIdx.Pairwise fun x y => v.Earlier (.place x.2) (.place y.2) := by
  rw [List.pairwise_iff_getElem]
  intro i j hi hj hij
  rw [List.length_zipIdx] at hj
  simp only [List.getElem_zipIdx, Nat.zero_add]
  exact .item hitems hij hj

end Value

/-! ## Values of a kind -/

namespace Value

/-- The entries are of the kind, if the value is a mapping. -/
def OnEntries (P : Entries → Prop) : Value → Prop
  | map entries => P entries
  | _ => True

/-- The items are of the kind, if the value is a list or a tuple. -/
def OnItems (P : Value → Prop) (v : Value) : Prop := ∀ x ∈ v.items?.getD [], P x

instance {P : Entries → Prop} [DecidablePred P] : DecidablePred (OnEntries P)
  | map entries => inferInstanceAs (Decidable (P entries))
  | scalar _ | list _ | tuple _ | set _ | back _ => .isTrue trivial

instance {P : Value → Prop} [DecidablePred P] : DecidablePred (OnItems P) :=
  fun v => inferInstanceAs (Decidable (∀ x ∈ v.items?.getD [], P x))

end Value

/-! ## Keys in an order -/

/-- Those of the keys that are written come in this order, each once. -/
def Entries.Follows (keys : List String) (entries : Entries) : Prop :=
  ((entries.filterMap fun e => e.1.text?).filter keys.contains).Sublist keys

instance (keys : List String) (entries : Entries) : Decidable (entries.Follows keys) :=
  inferInstanceAs (Decidable (List.Sublist _ _))

section Follows

variable {keys : List String} {entries : Entries} {a b : String}

theorem not_pair_sublist_of_nodup
    {l : List String} (hnodup : l.Nodup) (hab : [a, b].Sublist l) : ¬ [b, a].Sublist l := by
  induction l with
  | nil => cases hab
  | cons x l ih =>
      obtain ⟨hx, hl⟩ := List.nodup_cons.mp hnodup
      intro hba
      cases hab with
      | cons _ hrest =>
          cases hba with
          | cons _ hother => exact ih hl hrest hother
          | cons_cons _ => exact hx (hrest.subset (List.mem_cons_of_mem _ List.mem_cons_self))
      | cons_cons _ hrest =>
          cases hba with
          | cons _ hother => exact hx (hother.subset (List.mem_cons_of_mem _ List.mem_cons_self))
          | cons_cons _ => exact hx (hrest.subset List.mem_cons_self)

theorem pair_sublist_of_mem
    {α : Type} {l : List α} {x y : α} (hx : x ∈ l) (hy : y ∈ l) (hne : x ≠ y) :
    [x, y].Sublist l ∨ [y, x].Sublist l := by
  induction l with
  | nil => cases hx
  | cons z l ih =>
      rcases List.mem_cons.mp hx with rfl | hxl
      · rcases List.mem_cons.mp hy with rfl | hyl
        · exact absurd rfl hne
        · exact .inl (List.cons_sublist_cons.mpr (List.singleton_sublist.mpr hyl))
      · rcases List.mem_cons.mp hy with rfl | hyl
        · exact .inr (List.cons_sublist_cons.mpr (List.singleton_sublist.mpr hxl))
        · exact (ih hxl hyl).imp (fun h => h.cons z) (fun h => h.cons z)

/-- Of two keys of the order that are present, the first is written first. -/
theorem Entries.Follows.earlier
    (hfollows : entries.Follows keys) (hnodup : keys.Nodup) (hab : [a, b].Sublist keys)
    (ha : (entries.getD a).isPresent = true) (hb : (entries.getD b).isPresent = true) :
    (Value.map entries).Earlier (.name a) (.name b) := by
  obtain ⟨key, hkey, hkeyText⟩ := Entries.get?_mem (Entries.get?_of_isPresent ha)
  obtain ⟨other, hother, hotherText⟩ := Entries.get?_mem (Entries.get?_of_isPresent hb)
  have hne : a ≠ b := by
    rintro rfl
    have hpair := hnodup.sublist hab
    simp at hpair
  have hentries : (key, entries.getD a) ≠ (other, entries.getD b) := by
    intro heq
    cases (Prod.mk.inj heq).1
    exact hne (Option.some.inj (hkeyText.symm.trans hotherText))
  rcases pair_sublist_of_mem hkey hother hentries with hpair | hpair
  · exact .entry hpair (Step.spells_of_text? hkeyText) (Step.spells_of_text? hotherText)
  · have hmem : a ∈ keys ∧ b ∈ keys :=
      ⟨hab.subset List.mem_cons_self, hab.subset (List.mem_cons_of_mem _ List.mem_cons_self)⟩
    have hwritten := (hpair.filterMap fun e => e.1.text?).filter keys.contains
    simp only [List.filterMap_cons, hotherText, hkeyText, List.filterMap_nil,
      List.filter_cons, List.contains_iff_mem.mpr hmem.1, List.contains_iff_mem.mpr hmem.2,
      if_true, List.filter_nil] at hwritten
    exact absurd (hwritten.trans hfollows) (not_pair_sublist_of_nodup hnodup hab)

end Follows

namespace Rules

/-! ## Findings in order -/

/-- The findings are about the value at the location itself. -/
def AreOwn (location : Location) (findings : List Finding) : Prop :=
  ∀ f ∈ findings, f.location = location

/-- The findings are about nodes of the value at the location, in the order of the nodes. -/
def AreOrdered (v : Value) (location : Location) (findings : List Finding) : Prop :=
  findings.Pairwise fun f g =>
    ∃ l m, f.location = location ++ l ∧ g.location = location ++ m ∧ v.Before l m

/-- The findings are about what the step leads to. -/
def AreBelow (location : Location) (step : Step) (findings : List Finding) : Prop :=
  ∀ f ∈ findings, ∃ l, f.location = location ++ step :: l

section Findings

variable {rule : Rule} {v w : Value} {entries : Entries} {location : Location} {step : Step}
  {findings more : List Finding}

theorem areOwn_nil (location : Location) : AreOwn location [] := nofun

theorem areOwn_report (problem : Problem) (location : Location) :
    AreOwn location (report problem location) := by
  intro f hf
  rw [List.mem_singleton.mp hf]

theorem areOwn_require
    (subject : String) (keys : List String) (entries : Entries) (location : Location) :
    AreOwn location (require subject keys entries location) := by
  intro f hf
  obtain ⟨key, -, hf⟩ := List.mem_flatMap.mp hf
  split_ifs at hf
  · cases hf
  · exact areOwn_report _ _ f hf

theorem AreOwn.append (hfindings : AreOwn location findings) (hmore : AreOwn location more) :
    AreOwn location (findings ++ more) := by
  intro f hf
  rcases List.mem_append.mp hf with hf | hf
  · exact hfindings f hf
  · exact hmore f hf

theorem areOwn_ite
    {c : Prop} [Decidable c] (hthen : AreOwn location findings) (helse : AreOwn location more) :
    AreOwn location (if c then findings else more) := by
  split_ifs
  · exact hthen
  · exact helse

theorem areOrdered_nil (v : Value) (location : Location) : AreOrdered v location [] := .nil

theorem areOrdered_report (problem : Problem) (v : Value) (location other : Location) :
    AreOrdered v location (report problem other) :=
  List.pairwise_singleton _ _

theorem AreOwn.ordered (hown : AreOwn location findings) (v : Value) :
    AreOrdered v location findings := by
  refine List.pairwise_of_forall_mem_list fun f hf g hg => ⟨[], [], ?_, ?_, .around v []⟩
  · rw [hown f hf, List.append_nil]
  · rw [hown g hg, List.append_nil]

/-- What is about the value itself may come first. -/
theorem AreOwn.append_ordered
    (hown : AreOwn location findings) (hat : AreAt v location (findings ++ more))
    (hordered : AreOrdered v location more) :
    AreOrdered v location (findings ++ more) := by
  refine List.pairwise_append.mpr ⟨hown.ordered v, hordered, fun f hf g hg => ?_⟩
  obtain ⟨-, m, -, hm, -⟩ := hat g (List.mem_append_right _ hg)
  exact ⟨[], m, by rw [hown f hf, List.append_nil], hm, .around v m⟩

/-- What is in order in a part is in order in the whole. -/
theorem AreOrdered.of_child
    (hordered : AreOrdered w (location ++ [step]) findings)
    (hchild : v.Child Step.Spells step w) :
    AreOrdered v location findings := by
  refine hordered.imp fun {f g} => ?_
  rintro ⟨l, m, hl, hm, hbefore⟩
  rw [List.append_assoc] at hl hm
  exact ⟨step :: l, step :: m, hl, hm, .within hchild hbefore⟩

theorem AreAt.areBelow (hat : AreAt w (location ++ [step]) findings) :
    AreBelow location step findings := by
  intro f hf
  obtain ⟨-, l, -, hl, -⟩ := hat f hf
  exact ⟨l, by rw [hl, List.append_assoc]; rfl⟩

/-- Parts that come one after the other are looked at in order. -/
theorem areOrdered_flatMap
    {α : Type} {items : List α} (step : α → Step) {find : α → List Finding}
    (hordered : ∀ a ∈ items, AreOrdered v location (find a))
    (hbelow : ∀ a ∈ items, AreBelow location (step a) (find a))
    (hearlier : items.Pairwise fun a b =>
      find a ≠ [] → find b ≠ [] → v.Earlier (step a) (step b)) :
    AreOrdered v location (items.flatMap find) := by
  refine List.pairwise_flatMap.mpr ⟨hordered, ?_⟩
  refine hearlier.imp_of_mem fun {a b} ha hb hab f hf g hg => ?_
  obtain ⟨l, hl⟩ := hbelow a ha f hf
  obtain ⟨m, hm⟩ := hbelow b hb g hg
  have hstep := hab (List.ne_nil_of_mem hf) (List.ne_nil_of_mem hg)
  exact ⟨_, _, hl, hm, .across hstep l m⟩

/-! ## Parts of rules -/

theorem areOrdered_onMap
    {subject : String} {inner : Entries → Location → List Finding}
    (hinner : ∀ entries, v = .map entries →
      AreOrdered (.map entries) location (inner entries location)) :
    AreOrdered v location (onMap subject inner v location) := by
  cases v with
  | map entries => exact hinner entries rfl
  | _ => exact areOrdered_report _ _ _ _

theorem areOrdered_each
    {items : List Value} (hitems : v.items? = some items) (hinside : LooksInside rule)
    (hrule : ∀ x ∈ items, ∀ location, AreOrdered x location (rule x location)) :
    AreOrdered v location (each rule items location) := by
  have hget {x : Value × Nat} (hx : x ∈ items.zipIdx) : items[x.2]? = some x.1 :=
    List.mk_mem_zipIdx_iff_getElem?.mp hx
  refine areOrdered_flatMap (fun x => .place x.2) (fun x hx => ?_) (fun x _ => ?_) ?_
  · have hordered := hrule x.1 (List.mem_of_getElem? (hget hx)) (location ++ [.place x.2])
    exact hordered.of_child (.item hitems (hget hx))
  · exact (hinside x.1 _).areBelow
  · exact (Value.earlier_of_zipIdx hitems).imp fun hearlier _ _ => hearlier

/-- The rule looks inside every item of a sequence in order. -/
abbrev OrdersItems (rule : Rule) (v : Value) : Prop :=
  v.OnItems fun x => ∀ location, AreOrdered x location (rule x location)

theorem areOrdered_sequence
    (hinside : LooksInside rule) (hrule : OrdersItems rule v) (subject : String) :
    AreOrdered v location (sequence subject rule v location) := by
  unfold Rules.sequence
  split
  next items hitems =>
    refine areOrdered_each hitems hinside fun x hx => hrule x ?_
    rwa [hitems]
  next => exact areOrdered_report _ _ _ _

/-- The findings are about what is under the key, which is present if there are any. -/
structure IsPart (entries : Entries) (location : Location) (key : String)
    (findings : List Finding) : Prop where
  ordered : AreOrdered (.map entries) location findings
  below : AreBelow location (.name key) findings
  present : findings ≠ [] → (entries.getD key).isPresent = true

theorem isPart_nil (entries : Entries) (location : Location) (key : String) :
    IsPart entries location key [] :=
  ⟨.nil, nofun, fun hnone => absurd rfl hnone⟩

theorem isPart_getD
    {key : String} (hpresent : (entries.getD key).isPresent = true) (hinside : LooksInside rule)
    (hordered : ∀ location, AreOrdered (entries.getD key) location
      (rule (entries.getD key) location)) :
    IsPart entries location key (rule (entries.getD key) (location ++ [.name key])) :=
  ⟨(hordered _).of_child (Value.child_of_isPresent hpresent), (hinside _ _).areBelow,
    fun _ => hpresent⟩

theorem isPart_optional
    {key : String} (subject : String) (hinside : LooksInside rule)
    (hrule : OrdersItems rule (entries.getD key)) :
    IsPart entries location key (optional key subject rule entries location) := by
  unfold Rules.optional
  simp only
  split_ifs with hpresent
  · exact isPart_getD hpresent (hinside.sequence subject)
      fun _ => areOrdered_sequence hinside hrule subject
  · exact isPart_nil _ _ _

/-- Parts are looked at in order if their keys are written in the order of the parts. -/
theorem areOrdered_parts
    {parts : List (String × List Finding)} {keys : List String}
    (hparts : ∀ p ∈ parts, IsPart entries location p.1 p.2) (hfollows : entries.Follows keys)
    (hnodup : keys.Nodup) (hkeys : parts.map Prod.fst = keys) :
    AreOrdered (.map entries) location (parts.flatMap Prod.snd) := by
  refine areOrdered_flatMap (fun p => .name p.1) (fun p hp => (hparts p hp).ordered)
    (fun p hp => (hparts p hp).below) ?_
  refine List.pairwise_iff_forall_sublist.mpr fun {p q} hpq hpsome hqsome => ?_
  have hp := hparts p (hpq.subset List.mem_cons_self)
  have hq := hparts q (hpq.subset (List.mem_cons_of_mem _ List.mem_cons_self))
  exact hfollows.earlier hnodup (hkeys ▸ hpq.map Prod.fst) (hp.present hpsome) (hq.present hqsome)

theorem areOrdered_lackingItems
    (subject key : String) (entries : Entries) (location : Location) :
    AreOrdered (.map entries) location (lackingItems subject key entries location) := by
  unfold lackingItems
  simp only
  split_ifs
  · exact areOrdered_report _ _ _ _
  · split
    · exact areOrdered_report _ _ _ _
    · exact areOrdered_report _ _ _ _
    · exact areOrdered_nil _ _

/-- What a sequence lacks is looked at before its items. -/
theorem areOrdered_items
    (subject key : String) (hinside : LooksInside rule)
    (hrule : OrdersItems rule (entries.getD key)) :
    AreOrdered (.map entries) location
      (lackingItems subject key entries location ++
        match (entries.getD key).items? with
        | some items => each rule items (location ++ [.name key])
        | none => []) := by
  cases hitems : (entries.getD key).items? with
  | none =>
      rw [List.append_nil]
      exact areOrdered_lackingItems _ _ _ _
  | some items =>
      have hpresent := Value.isPresent_of_items? hitems
      cases items with
      | nil =>
          dsimp only [each]
          rw [List.zipIdx_nil, List.flatMap_nil, List.append_nil]
          exact areOrdered_lackingItems _ _ _ _
      | cons x xs =>
          rw [lackingItems_eq_nil_iff.mpr ⟨x, xs, hitems⟩, List.nil_append]
          refine (areOrdered_each hitems hinside fun y hy => hrule y ?_).of_child
            (Value.child_of_isPresent hpresent)
          rwa [hitems]

end Findings

/-! ## Fields -/

section Fields

variable (settings : Settings)

theorem areOrdered_options (type : String) (entries : Entries) (location : Location) :
    AreOrdered (.map entries) location (options type entries location) := by
  unfold options
  simp only
  split_ifs with habsent htext
  · exact areOrdered_report _ _ _ _
  · exact areOrdered_nil _ _
  · have hpresent : (entries.getD "options").isPresent = true := by simpa using habsent
    split
    · exact areOrdered_report _ _ _ _
    · exact areOrdered_report _ _ _ _
    next items _ hitems =>
      refine (areOrdered_each hitems option_looksInside fun x _ location => ?_).of_child
        (Value.child_of_isPresent hpresent)
      exact areOrdered_onMap fun (entries : Entries) _ => (areOwn_require _ _ _ _).ordered _

/-- A field comes in order itself, then the fields that it repeats. -/
theorem field_ordered (v : Value) (location : Location) :
    AreOrdered v location (field settings v location) := by
  induction v using Value.mapInductionOn generalizing location with
  | map entries ih =>
      have hinside := field_looksInside settings
      have hat := hinside (.map entries) location
      rw [field_map] at hat ⊢
      simp only [fieldItself, onMap, List.append_assoc] at hat ⊢
      rw [← List.append_assoc, ← List.append_assoc] at hat ⊢
      refine AreOwn.append_ordered (.append (.append ?_ ?_) ?_) hat ?_
      · exact areOwn_ite (areOwn_nil _) (areOwn_require _ _ _ _)
      · exact areOwn_require _ _ _ _
      · exact areOwn_ite (areOwn_nil _) (areOwn_require _ _ _ _)
      · cases hrepeater : isRepeater entries with
        | true =>
            obtain ⟨tag, htag, hknown⟩ := isRepeater_iff.mp hrepeater
            simp only [htag, hknown, if_true]
            refine areOrdered_items _ _ hinside fun x hx location => ?_
            cases hitems : (entries.getD "item_fields").items? with
            | none => simp [hitems] at hx
            | some items =>
                obtain ⟨key, hmem, -⟩ := Entries.get?_mem
                  (Entries.get?_of_isPresent (Value.isPresent_of_items? hitems))
                exact ih _ hmem items hitems x (by simpa [hitems] using hx) location
        | false =>
            simp only [Bool.false_eq_true, if_false, List.append_nil]
            split
            next => exact areOrdered_nil _ _
            next =>
              split_ifs
              · exact areOrdered_options _ _ _
              · exact areOrdered_lackingItems _ _ _ _
              · exact areOrdered_nil _ _
  | other v hmap =>
      have hsingle : field settings v location = report (.notObject "Field") location := by
        cases v with
        | map entries => cases hmap
        | _ => rfl
      rw [hsingle]
      exact areOrdered_report _ _ _ _

theorem orders_fields (v : Value) : OrdersItems (field settings) v :=
  fun x _ location => field_ordered settings x location

end Fields

/-! ## Entries of collections -/

section Entry

variable (settings : Settings)

/-- An action whose type is of no known sort has a label. -/
def LabelsUnknown (entries : Entries) : Prop :=
  (entries.getD "type").isPresent = true →
    (entries.getD "type").text?.bind ActionType.ofTag? = none →
      (entries.getD "label").isPresent = true

instance (entries : Entries) : Decidable (LabelsUnknown entries) :=
  inferInstanceAs (Decidable (_ → _ → _))

theorem action_ordered {v : Value} (hlabel : v.OnEntries LabelsUnknown) (location : Location) :
    AreOrdered v location (action v location) := by
  refine areOrdered_onMap fun (entries : Entries) hv => ?_
  subst hv
  have hat := action_looksInside (.map entries) location
  simp only [action, onMap] at hat ⊢
  generalize hknown : (entries.getD "type").text?.bind ActionType.ofTag? = known at hat ⊢
  by_cases hunknown : ((entries.getD "type").isPresent && known.isNone) = true
  · -- What is found at the type comes last, for the label is there.
    obtain ⟨hpresent, hnone⟩ := Bool.and_eq_true_iff.mp hunknown
    obtain rfl : known = none := Option.isNone_iff_eq_none.mp hnone
    have hhas : entries.Has ["label"] := by simpa [Entries.Has] using hlabel hpresent hknown
    rw [if_pos hunknown, require_eq_nil_iff.mpr hhas, if_neg (by simp), List.append_nil,
      List.append_nil] at hat ⊢
    refine AreOwn.append_ordered (areOwn_require _ _ _ _) hat ?_
    exact areOrdered_report _ _ _ _
  · rw [if_neg hunknown]
    refine AreOwn.ordered (.append (.append (.append ?_ (areOwn_nil _)) ?_) ?_) _
    · exact areOwn_require _ _ _ _
    · exact areOwn_require _ _ _ _
    · exact areOwn_ite (areOwn_report _ _) (areOwn_nil _)

theorem wizardStep_ordered (v : Value) (location : Location) :
    AreOrdered v location (wizardStep settings v location) := by
  refine areOrdered_onMap fun (entries : Entries) hv => ?_
  subst hv
  have hat := wizardStep_looksInside settings (.map entries) location
  simp only [wizardStep, onMap, List.append_assoc] at hat ⊢
  refine AreOwn.append_ordered (areOwn_require _ _ _ _) hat ?_
  exact areOrdered_items _ _ (field_looksInside settings) (orders_fields settings _)

theorem wizard_ordered (v : Value) (location : Location) :
    AreOrdered v location (wizard settings v location) := by
  refine areOrdered_onMap fun (entries : Entries) _ => ?_
  simp only
  split_ifs with hpresent
  · have hsteps : OrdersItems (wizardStep settings) (entries.getD "steps") :=
      fun x _ => wizardStep_ordered settings x
    exact (areOrdered_sequence (wizardStep_looksInside settings) hsteps _).of_child
      (Value.child_of_isPresent hpresent)
  · exact areOrdered_report _ _ _ _

theorem formSection_ordered (v : Value) (location : Location) :
    AreOrdered v location (formSection settings v location) := by
  refine areOrdered_onMap fun (entries : Entries) hv => ?_
  subst hv
  have hat := formSection_looksInside settings (.map entries) location
  refine AreOwn.append_ordered (areOwn_require _ _ _ _) hat ?_
  exact (isPart_optional _ (field_looksInside settings) (orders_fields settings _)).ordered

theorem columnName_ordered (v : Value) (location : Location) :
    AreOrdered v location (columnName v location) := by
  unfold columnName
  split_ifs
  · exact areOrdered_nil _ _
  · exact areOrdered_report _ _ _ _

theorem isPart_optionalWizard (entries : Entries) (location : Location) :
    IsPart entries location "wizard" (optionalWizard settings entries location) := by
  unfold optionalWizard
  simp only
  split_ifs with hpresent
  · exact isPart_getD hpresent (wizard_looksInside settings) (wizard_ordered settings _)
  · exact isPart_nil _ _ _

/-- The order in which the rules look at the attributes of a screen. -/
def screenOrder : List String :=
  ["wizard", "sections", "fields", "input_fields", "display_fields", "filters", "actions"]

theorem screenOrder_nodup : screenOrder.Nodup := by decide

/-- Every action whose type is of no known sort has a label. -/
def LabelsActions (entries : Entries) : Prop :=
  (entries.getD "actions").OnItems fun x => x.OnEntries LabelsUnknown

instance (entries : Entries) : Decidable (LabelsActions entries) :=
  inferInstanceAs (Decidable (Value.OnItems _ _))

/-- The attributes of a screen are written in the order of the rules, and its actions have
labels where that matters. -/
def ArrangesScreen (entries : Entries) : Prop :=
  entries.Follows screenOrder ∧ LabelsActions entries

instance (entries : Entries) : Decidable (ArrangesScreen entries) :=
  inferInstanceAs (Decidable (_ ∧ _))

/-- What is found in the attributes of a keyed screen. -/
def screenParts (entries : Entries) (location : Location) : List (String × List Finding) :=
  let part (key subject : String) (rule : Rule) :=
    (key, optional key subject rule entries location)
  [("wizard", optionalWizard settings entries location),
    part "sections" "Screen sections" (formSection settings),
    part "fields" "Screen fields" (field settings),
    part "input_fields" "Screen input_fields" (field settings),
    part "display_fields" "Screen display_fields" columnName,
    part "filters" "Screen filters" columnName,
    part "actions" "Screen actions" action]

/-- What is found in the attributes of a listed screen, whose wizard is not looked at. -/
def listedScreenParts (entries : Entries) (location : Location) :
    List (String × List Finding) :=
  let part (key : String) (rule : Rule) := (key, optional key key rule entries location)
  [("wizard", []),
    part "sections" listedSection,
    part "fields" listedField,
    part "input_fields" listedField,
    part "display_fields" columnName,
    part "filters" columnName,
    part "actions" listedAction]

theorem screen_map (entries : Entries) (location : Location) :
    screen settings (.map entries) location =
      require "Screen" ["title"] entries location ++
        (screenParts settings entries location).flatMap Prod.snd := by
  simp [screen, onMap, screenParts]

theorem listedScreen_map (entries : Entries) (location : Location) :
    listedScreen (.map entries) location =
      (if (entries.getD "name").isPresent || (entries.getD "title").isPresent then []
        else report .noScreenName location) ++
        (listedScreenParts entries location).flatMap Prod.snd := by
  simp [listedScreen, onMap, listedScreenParts]

theorem screen_ordered
    {v : Value} (harranged : v.OnEntries ArrangesScreen) (location : Location) :
    AreOrdered v location (screen settings v location) := by
  refine areOrdered_onMap fun (entries : Entries) hv => ?_
  subst hv
  obtain ⟨hfollows, hlabels⟩ := harranged
  have hat := screen_looksInside settings (.map entries) location
  have hfield (key subject : String) :
      IsPart entries location key (optional key subject (field settings) entries location) :=
    isPart_optional subject (field_looksInside settings) (orders_fields settings _)
  have hname (key subject : String) :
      IsPart entries location key (optional key subject columnName entries location) :=
    isPart_optional subject columnName_looksInside fun x _ => columnName_ordered x
  rw [screen_map] at hat
  change AreOrdered _ _ (screen settings (.map entries) location)
  rw [screen_map]
  refine AreOwn.append_ordered (areOwn_require _ _ _ _) hat ?_
  refine areOrdered_parts ?_ hfollows screenOrder_nodup rfl
  simp only [screenParts, List.forall_mem_cons]
  refine ⟨isPart_optionalWizard settings _ _, ?_, hfield _ _, hfield _ _, hname _ _, hname _ _,
    ?_, List.forall_mem_nil _⟩
  · exact isPart_optional _ (formSection_looksInside settings)
      fun x _ => formSection_ordered settings x
  · exact isPart_optional _ action_looksInside fun x hx => action_ordered (hlabels x hx)

theorem listedField_ordered (v : Value) (location : Location) :
    AreOrdered v location (listedField v location) :=
  areOrdered_onMap fun _ _ => areOrdered_nil _ _

theorem listedSection_ordered (v : Value) (location : Location) :
    AreOrdered v location (listedSection v location) :=
  areOrdered_onMap fun _ _ =>
    (isPart_optional _ listedField_looksInside fun x _ => listedField_ordered x).ordered

theorem listedAction_ordered
    {v : Value} (hlabel : v.OnEntries LabelsUnknown) (location : Location) :
    AreOrdered v location (listedAction v location) := by
  unfold listedAction
  split_ifs
  · exact areOrdered_nil _ _
  · exact action_ordered hlabel location

theorem listedScreen_ordered
    {v : Value} (harranged : v.OnEntries ArrangesScreen) (location : Location) :
    AreOrdered v location (listedScreen v location) := by
  refine areOrdered_onMap fun (entries : Entries) hv => ?_
  subst hv
  obtain ⟨hfollows, hlabels⟩ := harranged
  have hat := listedScreen_looksInside (.map entries) location
  have hfield (key : String) :
      IsPart entries location key (optional key key listedField entries location) :=
    isPart_optional _ listedField_looksInside fun x _ => listedField_ordered x
  have hname (key : String) :
      IsPart entries location key (optional key key columnName entries location) :=
    isPart_optional _ columnName_looksInside fun x _ => columnName_ordered x
  rw [listedScreen_map] at hat
  change AreOrdered _ _ (listedScreen (.map entries) location)
  rw [listedScreen_map]
  refine AreOwn.append_ordered (areOwn_ite (areOwn_nil _) (areOwn_report _ _)) hat ?_
  refine areOrdered_parts ?_ hfollows screenOrder_nodup rfl
  simp only [listedScreenParts, List.forall_mem_cons]
  refine ⟨isPart_nil _ _ _, ?_, hfield _, hfield _, hname _, hname _, ?_,
    List.forall_mem_nil _⟩
  · exact isPart_optional _ listedSection_looksInside fun x _ => listedSection_ordered x
  · exact isPart_optional _ listedAction_looksInside
      fun x hx => listedAction_ordered (hlabels x hx)

theorem component_ordered
    {v : Value} (hlabels : v.OnEntries LabelsActions) (location : Location) :
    AreOrdered v location (component settings v location) := by
  refine areOrdered_onMap fun (entries : Entries) hv => ?_
  subst hv
  have hat := component_looksInside settings (.map entries) location
  simp only [component, onMap, List.append_assoc] at hat ⊢
  refine AreOwn.append_ordered (areOwn_require _ _ _ _) hat ?_
  cases hknown : componentType? (entries.getD "type") with
  | none =>
      simp only [Option.isNone_none, Bool.and_true, reduceCtorEq, beq_iff_eq, if_false,
        List.append_nil]
      split_ifs
      · exact areOrdered_report _ _ _ _
      · exact areOrdered_nil _ _
  | some type =>
      simp only [Option.isNone_some, Bool.and_false, Bool.false_eq_true, if_false, beq_iff_eq,
        List.nil_append, Option.some.injEq]
      by_cases hfields : type = .fieldGroup
      · subst hfields
        simp only [reduceCtorEq, if_true, if_false, List.append_nil]
        exact (isPart_optional _ (field_looksInside settings) (orders_fields settings _)).ordered
      · rw [if_neg hfields, List.nil_append]
        split_ifs
        · exact (isPart_optional _ action_looksInside
            fun x hx => action_ordered (hlabels x hx)).ordered
        · exact areOrdered_nil _ _

/-- The entries of a collection are arranged as the rules look at them. -/
def ArrangesEntry : CollectionKind → Entries → Prop
  | .screens => ArrangesScreen
  | .components => LabelsActions
  | .rules => fun _ => True

instance (kind : CollectionKind) : DecidablePred (ArrangesEntry kind) :=
  match kind with
  | .screens => fun entries => inferInstanceAs (Decidable (ArrangesScreen entries))
  | .components => fun entries => inferInstanceAs (Decidable (LabelsActions entries))
  | .rules => fun _ => .isTrue trivial

theorem strict_ordered
    {kind : CollectionKind} {v : Value} (harranged : v.OnEntries (ArrangesEntry kind))
    (location : Location) :
    AreOrdered v location (strict settings kind v location) := by
  cases kind with
  | screens => exact screen_ordered settings harranged location
  | components => exact component_ordered settings harranged location
  | rules =>
      refine areOrdered_onMap fun (entries : Entries) _ => AreOwn.ordered ?_ _
      exact .append (areOwn_require _ _ _ _) (areOwn_ite (areOwn_nil _) (areOwn_report _ _))

theorem relaxed_ordered
    {kind : CollectionKind} {v : Value} (harranged : v.OnEntries (ArrangesEntry kind))
    (location : Location) :
    AreOrdered v location (relaxed kind v location) := by
  cases kind with
  | screens => exact listedScreen_ordered harranged location
  | components => exact areOrdered_onMap fun _ _ => (areOwn_require _ _ _ _).ordered _
  | rules => exact areOrdered_onMap fun _ _ => (areOwn_require _ _ _ _).ordered _

end Entry

/-! ## Trees -/

theorem earlier_of_steps
    {v : Value} {c : Collection} (hc : Collection.ofValue? v = some c) :
    c.steps.Pairwise fun x y => v.Earlier x.1 y.1 := by
  cases v with
  | map entries =>
      cases hc
      refine List.pairwise_map.mpr (List.pairwise_iff_forall_sublist.mpr fun {e f} hpair => ?_)
      exact .entry hpair rfl rfl
  | list items =>
      cases hc
      exact List.pairwise_map.mpr (Value.earlier_of_zipIdx (v := .list items) rfl)
  | tuple items =>
      cases hc
      exact List.pairwise_map.mpr (Value.earlier_of_zipIdx (v := .tuple items) rfl)
  | _ => cases hc

/-- What is found about entries is about what one of their steps leads to. -/
theorem exists_step_of_mem_entries
    {kind : CollectionKind} {rule : Rule} (hinside : LooksInside rule) {seen : List Step}
    {steps : List (Step × Value)} {f : Finding} (hf : f ∈ entries kind rule seen steps) :
    ∃ x ∈ steps, ∃ l, f.location = [.name kind.name] ++ x.1 :: l := by
  induction steps generalizing seen with
  | nil => cases hf
  | cons x rest ih =>
      rw [entries, List.mem_append, List.mem_append] at hf
      rcases hf with (htwice | hrule) | hrest
      · split_ifs at htwice
        · rw [List.mem_singleton.mp htwice]
          exact ⟨x, List.mem_cons_self, [], rfl⟩
        · cases htwice
      · obtain ⟨-, l, -, hl, -⟩ := hinside x.2 _ f hrule
        exact ⟨x, List.mem_cons_self, l, hl⟩
      · obtain ⟨y, hy, hl⟩ := ih hrest
        exact ⟨y, List.mem_cons_of_mem _ hy, hl⟩

theorem areOrdered_entries
    {kind : CollectionKind} {rule : Rule} (hinside : LooksInside rule) {v : Value}
    {seen : List Step} {steps : List (Step × Value)}
    (hsteps : ∀ x ∈ steps, v.Child Step.Spells x.1 x.2)
    (hearlier : steps.Pairwise fun x y => v.Earlier x.1 y.1)
    (hrule : ∀ x ∈ steps, ∀ location, AreOrdered x.2 location (rule x.2 location)) :
    AreOrdered v [.name kind.name] (entries kind rule seen steps) := by
  induction steps generalizing seen with
  | nil => exact areOrdered_nil _ _
  | cons x rest ih =>
      obtain ⟨hfirst, hrest⟩ := List.pairwise_cons.mp hearlier
      have htwice : AreOwn ([.name kind.name] ++ [x.1])
          (if seen.contains x.1 then
            report (.keyTwice kind x.1.render) [.name kind.name, x.1] else []) :=
        areOwn_ite (areOwn_report _ _) (areOwn_nil _)
      have hentry := htwice.append_ordered
        (.append (areAt_ite (areAt_report _ _ _ nofun fun _ => rfl) (areAt_nil _ _))
          (hinside x.2 _))
        (hrule x List.mem_cons_self _)
      refine List.pairwise_append.mpr ⟨hentry.of_child (hsteps x List.mem_cons_self), ?_, ?_⟩
      · exact ih (fun y hy => hsteps y (List.mem_cons_of_mem _ hy)) hrest
          fun y hy => hrule y (List.mem_cons_of_mem _ hy)
      · intro f hf g hg
        obtain ⟨y, hy, m, hm⟩ := exists_step_of_mem_entries hinside hg
        obtain ⟨l, hl⟩ : ∃ l, f.location = [.name kind.name] ++ x.1 :: l := by
          rcases List.mem_append.mp hf with hf | hf
          · exact ⟨[], htwice f hf⟩
          · obtain ⟨-, l, -, hl, -⟩ := hinside x.2 _ f hf
            exact ⟨l, hl⟩
        exact ⟨_, _, hl, hm, .across (hfirst y hy) l m⟩

end Rules

namespace Value

/-- The entries of a collection. -/
def members (v : Value) : List Value :=
  ((Collection.ofValue? v).elim [] Collection.steps).map Prod.snd

end Value

/-- The collections of a document are written in the order in which they are checked, and so
is what is in them. -/
def Entries.IsArranged (document : Entries) : Prop :=
  document.Follows (CollectionKind.all.map CollectionKind.name) ∧
    ∀ kind ∈ CollectionKind.all, ∀ v ∈ (document.getD kind.name).members,
      v.OnEntries (Rules.ArrangesEntry kind)

instance (document : Entries) : Decidable document.IsArranged :=
  inferInstanceAs (Decidable (_ ∧ _))

namespace Rules

theorem isPart_documentPart
    (settings : Settings) {document : Entries} (harranged : document.IsArranged)
    {kind : CollectionKind} (hpresent : (document.getD kind.name).isPresent = true) :
    IsPart document [] kind.name (documentPart settings document kind) := by
  have hat : AreAt _ ([] ++ [.name kind.name]) _ := areAt_presentPart settings hpresent
  refine ⟨?_, hat.areBelow, fun _ => hpresent⟩
  suffices hordered : AreOrdered (document.getD kind.name) ([] ++ [.name kind.name])
      (documentPart settings document kind) from
    hordered.of_child (Value.child_of_isPresent hpresent)
  unfold documentPart
  simp only [hpresent, Bool.not_true, Bool.false_eq_true, if_false]
  split
  next c hc =>
    have hmembers {x : Step × Value} (hx : x ∈ c.steps) :
        x.2.OnEntries (ArrangesEntry kind) := by
      refine harranged.2 kind (by cases kind <;> decide) x.2 ?_
      rw [Value.members, hc]
      exact List.mem_map_of_mem hx
    have hsteps (x) (hx : x ∈ c.steps) := child_of_mem_steps hc hx
    have hearlier := earlier_of_steps hc
    cases c with
    | keyed entries =>
        exact areOrdered_entries (strict_looksInside settings kind) hsteps hearlier
          fun x hx => strict_ordered settings (hmembers hx)
    | listed items =>
        exact areOrdered_entries (relaxed_looksInside kind) hsteps hearlier
          fun x hx => relaxed_ordered (hmembers hx)
  next => exact areOrdered_report _ _ _ _

/-- What is found in the collections that are present. -/
def presentParts (settings : Settings) (document : Entries) : List (String × List Finding) :=
  CollectionKind.all.map fun kind =>
    (kind.name, if (document.getD kind.name).isPresent then documentPart settings document kind
      else [])

theorem root_map (settings : Settings) (document : Entries) :
    root settings (.map document) =
      (if (document.getD CollectionKind.screens.name).isPresent then []
        else report (.noCollection .screens) []) ++
        (presentParts settings document).flatMap Prod.snd := by
  have habsent (kind : CollectionKind) :
      documentPart settings document kind =
        (if (document.getD kind.name).isPresent then []
          else if kind.isRequired then report (.noCollection kind) [] else []) ++
          if (document.getD kind.name).isPresent then documentPart settings document kind
            else [] := by
    split_ifs with hpresent hrequired
    · rfl
    · rw [documentPart_of_absent settings (by simpa using hpresent), if_pos hrequired,
        List.append_nil]
    · rw [documentPart_of_absent settings (by simpa using hpresent), if_neg hrequired,
        List.append_nil]
  have hroot : root settings (.map document) = documentPart settings document .screens ++
      (documentPart settings document .components ++ documentPart settings document .rules) := by
    simp [root, CollectionKind.all]
  rw [hroot, habsent .screens, habsent .components, habsent .rules]
  simp [presentParts, CollectionKind.all, CollectionKind.isRequired]

/-- What the rules find in an arranged document comes in the order of the nodes. -/
theorem root_ordered
    (settings : Settings) {tree : Value} (harranged : tree.OnEntries Entries.IsArranged) :
    AreOrdered tree [] (root settings tree) := by
  cases tree with
  | map document =>
      have hat := areAt_root settings document
      rw [root_map] at hat ⊢
      refine AreOwn.append_ordered (areOwn_ite (areOwn_nil _) (areOwn_report _ _)) hat ?_
      refine areOrdered_parts (fun p hp => ?_) harranged.1 (by decide) rfl
      obtain ⟨kind, -, rfl⟩ := List.mem_map.mp hp
      dsimp only
      split_ifs with hpresent
      · exact isPart_documentPart settings harranged hpresent
      · exact isPart_nil _ _ _
  | _ => exact areOrdered_report _ _ _ _

end Rules

namespace Value

/-- The findings of an arranged tree come in the order of their nodes. -/
theorem findings_ordered
    {settings : Settings} {tree : Value} (harranged : tree.OnEntries Entries.IsArranged)
    {fs : List Finding} (hfindings : tree.findings settings = .ok fs) :
    fs.Pairwise fun f g => tree.Before f.location g.location := by
  rcases findings_eq_ok_iff.mp hfindings with ⟨-, rfl⟩ | ⟨-, ⟨location, -, rfl⟩ | ⟨-, rfl⟩⟩
  · exact List.pairwise_singleton _ _
  · exact List.pairwise_singleton _ _
  · refine (Rules.root_ordered settings harranged).imp fun {f g} => ?_
    rintro ⟨l, m, hl, hm, hbefore⟩
    rwa [hl, hm]

end Value

end Wireframe
