import Mathlib.Tactic
import Wireframe.Proofs.Faults
import Wireframe.Proofs.Shapes

/-!
# Locations of faults

A reading looks for a tag only where an action is wanted, and that something is missing is
told of an attribute, never of the value that is read.  So where no action is wanted, no tag
is at fault, and it is enough to follow the attributes that lead to a location to see that
nothing is missing there.
-/

namespace Wireframe

/-- Whether no action is wanted of a value or of anything in it. -/
def Kind.isTagless : Kind → Bool
  | .action => false
  | .record .screen | .record .component | .record .document => false
  | .listOf k | .tableOf k => isTagless k
  | _ => true

namespace RecordType

theorem isTagless_of_mem
    {t : RecordType} (ht : (Kind.record t).isTagless = true) {a : Attribute}
    (ha : a ∈ t.attributes) {k : Kind} (hk : k ∈ a.shape.kinds) :
    k.isTagless = true := by
  have hall : t.attributes.all (fun a => a.shape.kinds.all Kind.isTagless) = true := by
    clear ha hk
    cases t with
    | screen => cases ht
    | component => cases ht
    | document => cases ht
    | action t => cases t <;> decide +kernel
    | field t => cases t <;> decide +kernel
    | _ => decide +kernel
  exact List.all_eq_true.mp (List.all_eq_true.mp hall a ha) k hk

/-- The attributes of those names have one spelling, and no action is wanted of the others. -/
def LeadsBy (t : RecordType) (names : List String) : Prop :=
  ∀ a ∈ t.attributes,
    if a.name ∈ names then a.spellings = [a.name]
    else (∀ k ∈ a.shape.kinds, k.isTagless = true) ∧ ∀ s ∈ a.spellings, s ∉ names

instance (t : RecordType) (names : List String) : Decidable (t.LeadsBy names) :=
  inferInstanceAs (Decidable (∀ a ∈ t.attributes, _))

end RecordType

namespace Reading

/-! ## Where no action is wanted -/

/-- No tag is at fault, and nothing is missing right here. -/
def Mild (faults : List Fault) : Prop :=
  ∀ f ∈ faults, f.cause.isTag = false ∧ (f.cause = .missing → f.location ≠ [])

theorem isTag_eq_false_of_isPlain
    {cause : Cause} (hplain : cause.isPlain = true) :
    cause.isTag = false ∧ cause ≠ .missing := by
  cases cause <;> first | cases hplain; done | exact ⟨rfl, by simp⟩

theorem mild_notWritten : Mild (Fault.here (.notWritten .longInteger)) := by
  intro f hf
  rw [List.mem_singleton.mp hf]
  exact ⟨rfl, nofun⟩

theorem isStable_mild : IsStable Mild where
  add := isAdditive_forall _
  under step faults hfaults f hf := by
    obtain ⟨g, hg, rfl⟩ := List.mem_map.mp hf
    exact ⟨(hfaults g hg).1, fun _ => List.cons_ne_nil _ _⟩
  plain cause hplain f hf := by
    rw [List.mem_singleton.mp hf]
    obtain ⟨htag, hmissing⟩ := isTag_eq_false_of_isPlain hplain
    exact ⟨htag, fun heq => absurd heq hmissing⟩
  missing name f hf := by
    rw [List.mem_singleton.mp hf]
    exact ⟨rfl, fun _ => List.cons_ne_nil _ _⟩

theorem isClosed_isTagless : IsClosed fun k => k.isTagless = true where
  listOf _ hk := hk
  tableOf _ hk := hk
  row _ := rfl
  optionList _ := rfl
  commaList _ := rfl
  attributes _ ht _ ha _ hk := RecordType.isTagless_of_mem ht ha hk
  action hk := nomatch hk
  field _ _ := rfl

theorem offerFails_mild (v : Value) : OfferFails Mild (fun k => k.isTagless = true) (Offer.of v) :=
  offerFails_of isStable_mild isClosed_isTagless (fun h => nomatch h) fun _ => mild_notWritten

theorem mild_of_written?
    {entries : Entries} {t : RecordType} {a : Attribute} {spelling : String} {o : Offer}
    (hwritten : written? a (expand t entries.offers) = some (spelling, o)) {s : Shape}
    (hne : s.kinds ≠ []) (htagless : ∀ k ∈ s.kinds, k.isTagless = true) :
    Fails Mild (o.read s) := by
  have hoffers : EntriesFail Mild (fun k => k.isTagless = true) entries.offers := by
    intro e he
    obtain ⟨x, -, rfl⟩ := List.mem_map.mp he
    exact ⟨fun _ => mild_notWritten, offerFails_mild x.2⟩
  exact offerFails_of_written? hoffers hwritten s hne htagless

/-- What is present under the name of an attribute is written. -/
theorem written?_ne_none
    {entries : Entries} {t : RecordType} {a : Attribute} (ha : a ∈ t.attributes)
    (hfield : ∀ f, t ≠ .field f) (hpresent : (entries.getD a.name).isPresent = true) :
    written? a (expand t entries.offers) ≠ none := by
  intro hnone
  have hspelled : a.name ∈ a.spellings :=
    List.mem_of_find?_eq_some (RecordType.find?_spellings ha)
  rw [expand_of_not_field hfield, written?, List.findSome?_eq_none_iff] at hnone
  have habsent := hnone a.name hspelled
  rw [find?_offers, Entries.get?_of_isPresent hpresent] at habsent
  cases habsent

/-! ## Where something is needed -/

/-- No tag is at fault, and at none of the locations is anything missing. -/
def Spare (needs : Location → Prop) (faults : List Fault) : Prop :=
  ∀ f ∈ faults, f.cause.isTag = false ∧ (f.cause = .missing → ¬ needs f.location)

section Spare

variable {needs : Location → Prop}

theorem isAdditive_spare (needs : Location → Prop) : IsAdditive (Spare needs) :=
  isAdditive_forall _

theorem Spare.mono
    {other : Location → Prop} {faults : List Fault} (hspare : Spare needs faults)
    (himp : ∀ l, other l → needs l) :
    Spare other faults := by
  intro f hf
  obtain ⟨htag, hmissing⟩ := hspare f hf
  exact ⟨htag, fun heq hneeded => hmissing heq (himp _ hneeded)⟩

theorem spare_under
    {step : Step} {faults : List Fault} (hspare : Spare (fun l => needs (step :: l)) faults) :
    Spare needs (Fault.under step faults) := by
  intro f hf
  obtain ⟨g, hg, rfl⟩ := List.mem_map.mp hf
  exact hspare g hg

theorem Fails.spare_mono
    {α : Type} {outcome : Except (List Fault) α} {other : Location → Prop}
    (hfails : Fails (Spare needs) outcome) (himp : ∀ l, other l → needs l) :
    Fails (Spare other) outcome :=
  hfails.mono fun _ hspare => hspare.mono himp

/-- What a part needs is what the whole needs below the step to the part. -/
theorem Fails.spare_below
    {α : Type} {outcome : Except (List Fault) α} {other : Location → Prop} {step : Step}
    (hfails : Fails (Spare needs) outcome) (himp : ∀ l, other (step :: l) → needs l) :
    Fails (fun faults => Spare other (Fault.under step faults)) outcome :=
  (hfails.spare_mono himp).mono fun _ => spare_under

theorem spare_here
    {cause : Cause} (hplain : cause.isPlain = true) :
    Spare needs (Fault.here cause) := by
  intro f hf
  rw [List.mem_singleton.mp hf]
  obtain ⟨htag, hmissing⟩ := isTag_eq_false_of_isPlain hplain
  exact ⟨htag, fun heq => absurd heq hmissing⟩

theorem spare_toText
    {v : Value} {cause : Cause} (hcause : Coercion.toText true v = .error cause) :
    Spare needs (Fault.here cause) := by
  rcases cause_of_toText hcause with hplain | ⟨rfl, -, -, -⟩
  · exact spare_here hplain
  · intro f hf
    rw [List.mem_singleton.mp hf]
    exact ⟨rfl, nofun⟩

theorem spare_of_mild
    (hneeds : ∀ l, needs l → l = []) {faults : List Fault} (hmild : Mild faults) :
    Spare needs faults := by
  intro f hf
  obtain ⟨htag, hmissing⟩ := hmild f hf
  exact ⟨htag, fun heq hneeded => hmissing heq (hneeds _ hneeded)⟩

theorem Fails.spare_under
    {α : Type} {outcome : Except (List Fault) α} {step : Step}
    (hfails : Fails (Spare fun l => needs (step :: l)) outcome) :
    Fails (Spare needs) (Reading.under step outcome) :=
  Fails.under (hfails.mono fun _ => Reading.spare_under)

/-- No tag is at fault below the step, and at none of the locations below it is anything
missing. -/
def SpareBelow (step : Step) (needs : Location → Prop) (faults : List Fault) : Prop :=
  ∀ f ∈ faults, ∀ below, f.location = step :: below →
    f.cause.isTag = false ∧ (f.cause = .missing → ¬ needs below)

theorem isAdditive_spareBelow
    (step : Step) (needs : Location → Prop) :
    IsAdditive (SpareBelow step needs) :=
  isAdditive_forall _

theorem spareBelow_under
    {step other : Step} {faults : List Fault} (hspare : other = step → Spare needs faults) :
    SpareBelow step needs (Fault.under other faults) := by
  intro f hf below hbelow
  obtain ⟨g, hg, rfl⟩ := List.mem_map.mp hf
  obtain ⟨hstep, rfl⟩ := List.cons.inj hbelow
  exact hspare hstep g hg

/-- Nothing is missing right at a value that no action is wanted of. -/
theorem fails_of_isTagless
    {s : Shape} (hne : s.kinds ≠ []) (htagless : ∀ k ∈ s.kinds, k.isTagless = true)
    (hneeds : ∀ l, needs l → l = []) (v : Value) :
    Fails (Spare needs) (ofValue v s) :=
  (offerFails_mild v s hne htagless).mono fun _ => spare_of_mild hneeds

/-- A list needs what its items need. -/
theorem fails_list
    {s : Shape} {k : Kind} (hkinds : s.kinds = [.listOf k]) {P : Value → Prop} {v : Value}
    (hv : v.isPresent = true → ∃ items, v.items? = some items ∧ ∀ x ∈ items, P x)
    (hitems : ∀ x, P x → ∀ i : Nat,
      Fails (Spare fun l => needs (.place i :: l)) (ofValue x (.one k))) :
    Fails (Spare needs) (ofValue v s) := by
  by_cases hpresent : v.isPresent = true
  · obtain ⟨items, hsome, hall⟩ := hv hpresent
    have hparts : partsOf v = .items true (items.map Offer.of) := by
      cases v <;> cases hsome <;> rfl
    rw [ofValue_of_single hkinds hpresent nofun, hparts]
    apply fails_readItems (isAdditive_spare needs)
    intro i o ho
    obtain ⟨x, hx, rfl⟩ := List.mem_map.mp (List.mem_of_getElem? ho)
    exact (hitems x (hall x hx) i).mono fun _ => spare_under
  · have hnull := Value.eq_null_of_not_isPresent hpresent
    subst hnull
    rw [ofValue_eq, readShape_of_single hkinds nofun]
    split_ifs
    · exact fails_ok _
    · exact fails_refuse (spare_here rfl)

/-- A record needs what is needed of the attributes that lead on, and the attributes that are
needed themselves. -/
theorem fails_record
    {t : RecordType} {names : List String} (hleads : t.LeadsBy names)
    (hnames : ∀ name ∈ names, name ≠ "id" ∧ name ≠ "label" ∧ name ≠ "text") {entries : Entries}
    (hneeds : ∀ name l, needs (.name name :: l) → l = [] ∨ name ∈ names)
    (hneeded : ∀ name ∈ t.names, needs [.name name] →
      (∀ f, t ≠ .field f) ∧ (entries.getD name).isPresent = true)
    (hvalues : ∀ a ∈ t.attributes, a.name ∈ names → ∀ v, Entries.get? a.name entries = some v →
      Fails (Spare fun l => needs (.name a.name :: l)) (ofValue v a.shape)) :
    Fails (Spare needs) (readRecord t entries.offers) := by
  apply fails_readRecord (isAdditive_spare needs)
  · intro a ha
    have hlead := hleads a ha
    apply fails_readAttribute
    · intro spelling o hwritten
      by_cases hname : a.name ∈ names
      · rw [if_pos hname] at hlead
        rw [written?_expand_of_single hlead (hnames a.name hname)] at hwritten
        obtain ⟨v, hget, heq⟩ := Option.map_eq_some_iff.mp hwritten
        cases heq
        exact (hvalues a ha hname v hget).mono fun _ => spare_under
      · rw [if_neg hname] at hlead
        have hspelling := hlead.2 spelling (written?_eq_some hwritten).1
        refine (mild_of_written? hwritten (RecordType.kinds_ne_nil ha) hlead.1).mono ?_
        refine fun faults hfaults => spare_under (spare_of_mild ?_ hfaults)
        exact fun l hl => (hneeds spelling l hl).resolve_right hspelling
    · intro hnone _ f hf
      rw [List.mem_singleton.mp hf]
      refine ⟨rfl, fun _ hneed => ?_⟩
      obtain ⟨hfield, hpresent⟩ := hneeded a.name (RecordType.name_mem ha) hneed
      exact written?_ne_none ha hfield hpresent hnone
  · exact fun _ key => spare_under (spare_here rfl)

end Spare

end Reading

end Wireframe
