import Mathlib.Tactic
import Wireframe.Proofs.Attributes
import Wireframe.Proofs.Documents
import Wireframe.Proofs.Faults
import Wireframe.Proofs.Spellings

/-!
# Faults of parts

The faults of a container are exactly those of its parts, each located below the step that leads
to the part.  So along a location that only one part of each container answers to, the faults of
the whole that are located there are the faults of the part that is reached.
-/

namespace Wireframe

namespace Reading

/-- The outcome is a failure that has the fault. -/
def HasFault {α : Type} (outcome : Except (List Fault) α) (f : Fault) : Prop :=
  ∃ faults, outcome = .error faults ∧ f ∈ faults

section Outcomes

variable {α β : Type} {outcome : Except (List Fault) α} {f : Fault}

theorem not_hasFault_ok (a : α) : ¬ HasFault (.ok a) f := by
  rintro ⟨faults, hfaults, -⟩
  cases hfaults

theorem hasFault_error_iff {faults : List Fault} :
    HasFault (.error faults : Except (List Fault) α) f ↔ f ∈ faults :=
  ⟨fun ⟨_, heq, hf⟩ => Except.error.inj heq ▸ hf, fun hf => ⟨faults, rfl, hf⟩⟩

theorem hasFault_map_iff (g : α → β) : HasFault (outcome.map g) f ↔ HasFault outcome f := by
  cases outcome with
  | ok a => exact iff_of_false (not_hasFault_ok _) (not_hasFault_ok a)
  | error faults => exact hasFault_error_iff.trans hasFault_error_iff.symm

theorem hasFault_under_iff {step : Step} :
    HasFault (under step outcome) f ↔
      ∃ below, f.location = step :: below ∧ HasFault outcome ⟨below, f.cause⟩ := by
  cases outcome with
  | ok a =>
      refine iff_of_false (not_hasFault_ok a) ?_
      rintro ⟨below, -, hbelow⟩
      exact not_hasFault_ok a hbelow
  | error faults =>
      simp only [under, Except.mapError, Fault.under, hasFault_error_iff, List.mem_map]
      constructor
      · rintro ⟨g, hg, rfl⟩
        exact ⟨g.location, rfl, hg⟩
      · rintro ⟨below, hlocation, hbelow⟩
        exact ⟨_, hbelow, by rw [← hlocation]⟩

theorem hasFault_refuse_iff {cause : Cause} :
    HasFault (refuse cause : Except (List Fault) α) f ↔ f = ⟨[], cause⟩ :=
  hasFault_error_iff.trans List.mem_singleton

theorem hasFault_collect_iff {read : β → Except (List Fault) α} {parts : List β} :
    HasFault (collect (parts.map read)) f ↔ ∃ p ∈ parts, HasFault (read p) f := by
  induction parts with
  | nil => exact iff_of_false (not_hasFault_ok []) (by simp)
  | cons p rest ih =>
      rw [List.map_cons, List.exists_mem_cons_iff, ← ih]
      cases hfirst : read p with
      | ok a =>
          rw [collect, hasFault_map_iff, or_iff_right (not_hasFault_ok a)]
      | error faults =>
          cases hrest : collect (rest.map read) with
          | ok results =>
              simp only [collect, hrest]
              rw [or_iff_left (not_hasFault_ok results), hasFault_error_iff, hasFault_error_iff]
          | error more =>
              simp only [collect, hrest]
              rw [hasFault_error_iff, hasFault_error_iff, hasFault_error_iff, List.mem_append]

end Outcomes

/-! ## Containers -/

section Containers

variable {f : Fault}

theorem hasFault_readItems_iff
    {read : Offer → Outcome} {offers : List Offer} :
    HasFault (ofItems (readItems read offers)) f ↔
      ∃ (i : Nat) (o : Offer) (below : Location), offers[i]? = some o ∧
        f.location = .place i :: below ∧ HasFault (read o) ⟨below, f.cause⟩ := by
  have hitems : HasFault (ofItems (readItems read offers)) f ↔
      HasFault (readItems read offers) f := by
    unfold ofItems
    split
    next heq => rw [heq]; exact iff_of_false (not_hasFault_ok _) (not_hasFault_ok _)
    next heq => rw [heq, hasFault_error_iff, hasFault_error_iff]
  rw [hitems, readItems, hasFault_collect_iff]
  constructor
  · rintro ⟨⟨o, i⟩, ho, hf⟩
    rw [hasFault_map_iff, hasFault_under_iff] at hf
    obtain ⟨below, hlocation, hbelow⟩ := hf
    exact ⟨i, o, below, List.mk_mem_zipIdx_iff_getElem?.mp ho, hlocation, hbelow⟩
  · rintro ⟨i, o, below, hget, hlocation, hbelow⟩
    refine ⟨(o, i), List.mk_mem_zipIdx_iff_getElem?.mpr hget, ?_⟩
    rw [hasFault_map_iff, hasFault_under_iff]
    exact ⟨below, hlocation, hbelow⟩

/-- Under a key that is a text only the value can be refused. -/
theorem hasFault_readEntry_text_iff
    {k : Kind} {name : String} {offer : Offer} :
    HasFault (readEntry k (.text name) offer) f ↔
      ∃ below, f.location = .name name :: below ∧
        HasFault (offer.read (.one k)) ⟨below, f.cause⟩ := by
  have hkey : Coercion.toText true (Value.ofKey (.text name)) = .ok ⟨name, true⟩ := rfl
  have hvalue : HasFault (readEntry k (.text name) offer) f ↔
      HasFault (under (.name name) (offer.read (.one k))) f := by
    unfold readEntry
    simp only [hkey, keyStep]
    cases under (.name name) (offer.read (.one k)) with
    | ok r => exact iff_of_false (not_hasFault_ok _) (not_hasFault_ok _)
    | error faults => rw [hasFault_error_iff, hasFault_error_iff]
  rw [hvalue, hasFault_under_iff]

/-- Whatever the key is, the faults of an entry are located below it. -/
theorem location_of_hasFault_readEntry
    {k : Kind} {key : Key} {offer : Offer} (hf : HasFault (readEntry k key offer) f) :
    ∃ below, f.location = keyStep key :: below := by
  obtain ⟨faults, hfaults, hmem⟩ := hf
  have hbelow : Fails (fun faults => ∀ f ∈ faults, ∃ below, f.location = keyStep key :: below)
      (readEntry k key offer) := by
    have hunder (faults : List Fault) :
        ∀ f ∈ Fault.under (keyStep key) faults, ∃ below, f.location = keyStep key :: below := by
      intro f hf
      obtain ⟨g, -, rfl⟩ := List.mem_map.mp hf
      exact ⟨g.location, rfl⟩
    refine fails_readEntry (isAdditive_forall _) (fun _ _ => hunder _) ?_
    exact fun faults _ => hunder faults
  exact hbelow faults hfaults f hmem

theorem hasFault_readTable_iff
    {k : Kind} {offers : List (Key × Offer)} :
    HasFault (readTable k offers) f ↔ ∃ o ∈ offers, HasFault (readEntry k o.1 o.2) f := by
  have hentries : HasFault (readTable k offers) f ↔
      HasFault (collect (offers.map fun o => readEntry k o.1 o.2)) f := by
    unfold readTable
    split
    next heq => rw [heq]; exact iff_of_false (not_hasFault_ok _) (not_hasFault_ok _)
    next heq => rw [heq, hasFault_error_iff, hasFault_error_iff]
  rw [hentries, hasFault_collect_iff]

theorem hasFault_readAttribute_iff
    {offers : List (Key × Offer)} {a : Attribute} :
    HasFault (readAttribute offers a) f ↔
      (∃ spelling o below, written? a offers = some (spelling, o) ∧
        f.location = .name spelling :: below ∧ HasFault (o.read a.shape) ⟨below, f.cause⟩) ∨
      (written? a offers = none ∧ Element.ofDefault? a.default = none ∧
        f = ⟨[.name a.name], .missing⟩) := by
  unfold readAttribute
  split
  next spelling o hwritten =>
    rw [hasFault_map_iff, hasFault_under_iff]
    constructor
    · rintro ⟨below, hlocation, hbelow⟩
      exact .inl ⟨spelling, o, below, hwritten, hlocation, hbelow⟩
    · rintro (⟨spelling, o, below, hother, hlocation, hbelow⟩ | ⟨hnone, -⟩)
      · cases hwritten.symm.trans hother
        exact ⟨below, hlocation, hbelow⟩
      · cases hwritten.symm.trans hnone
  next hnone =>
    split
    next e hdefault =>
      simp [not_hasFault_ok, hnone, hdefault]
    next hdefault =>
      obtain ⟨location, cause⟩ := f
      simp only [hasFault_under_iff, hasFault_refuse_iff, Fault.mk.injEq]
      constructor
      · rintro ⟨below, rfl, rfl, rfl⟩
        exact .inr ⟨hnone, hdefault, rfl, rfl⟩
      · rintro (⟨spelling, o, below, hwritten, -⟩ | ⟨-, -, rfl, rfl⟩)
        · cases hnone.symm.trans hwritten
        · exact ⟨[], rfl, rfl, rfl⟩

theorem hasFault_readRecord_iff
    {type : RecordType} {written : List (Key × Offer)} :
    HasFault (readRecord type written) f ↔
      (∃ a ∈ type.attributes, HasFault (readAttribute (expand type written) a) f) ∨
        HasFault (readExtras type (expand type written)) f := by
  rw [← hasFault_collect_iff]
  unfold readRecord
  dsimp only
  split
  next hread hextras => simp [hread, hextras, not_hasFault_ok]
  next hread hextras => simp [hread, hextras, not_hasFault_ok, hasFault_error_iff]
  next hread hextras => simp [hread, hextras, not_hasFault_ok, hasFault_error_iff]
  next hread hextras => simp [hread, hextras, hasFault_error_iff, List.mem_append]

end Containers

/-! ## Faults below a part -/

/-- The reading of a value leads along the location to that of a part, and to no other part:
items have places of their own, no other key is told like the key of the entry, and the
attributes have one spelling. -/
inductive LeadsTo : Value → Shape → Location → Value → Shape → Prop
  | here (v : Value) (s : Shape) : LeadsTo v s [] v s
  | item {v x w : Value} {s t : Shape} {k : Kind} {items : List Value} {i : Nat} {l : Location}
      (hkinds : s.kinds = [.listOf k]) (hitems : v.items? = some items)
      (hget : items[i]? = some x) (hrest : LeadsTo x (.one k) l w t) :
      LeadsTo v s (.place i :: l) w t
  | entry {entries : Entries} {x w : Value} {s t : Shape} {k : Kind} {name : String} {l : Location}
      (hkinds : s.kinds = [.tableOf k]) (hmem : (.text name, x) ∈ entries)
      (honly : ∀ e ∈ entries, keyStep e.1 = .name name → e = (.text name, x))
      (hrest : LeadsTo x (.one k) l w t) :
      LeadsTo (.map entries) s (.name name :: l) w t
  | part {entries : Entries} {x w : Value} {s t : Shape} {type : RecordType} {a : Attribute}
      {l : Location} (hkinds : s.kinds = [.record type]) (ha : a ∈ type.attributes)
      (hsingle : a.spellings = [a.name])
      (hname : a.name ≠ "id" ∧ a.name ≠ "label" ∧ a.name ≠ "text")
      (htype : type ≠ .field .unrecognized) (hget : Entries.get? a.name entries = some x)
      (hrest : LeadsTo x a.shape l w t) :
      LeadsTo (.map entries) s (.name a.name :: l) w t
  | field {entries : Entries} {w : Value} {s t : Shape} {l : Location} (hkinds : s.kinds = [.field])
      (hrest : LeadsTo (.map entries)
        (.one (.record (.field (fieldType (entries.getD "type"))))) l w t) :
      LeadsTo (.map entries) s (.name (fieldType (entries.getD "type")).tag :: l) w t

theorem ofValue_list {v : Value} {items : List Value} (hitems : v.items? = some items) {s : Shape}
    {k : Kind} (hkinds : s.kinds = [.listOf k]) :
    ofValue v s = ofItems (readItems (fun o => o.read (.one k)) (items.map Offer.of)) := by
  rw [ofValue_of_single hkinds (Value.isPresent_of_items? hitems) nofun]
  cases v <;> cases hitems <;> rfl

theorem ofValue_field (entries : Entries) {s : Shape} (hkinds : s.kinds = [.field]) :
    ofValue (.map entries) s =
      under (.name (fieldType (entries.getD "type")).tag)
        (readRecord (.field (fieldType (entries.getD "type"))) entries.offers) := by
  rw [ofValue_of_single hkinds rfl nofun]
  simp only [readKind, partsOf, readField, valueOf_offers]

theorem eq_of_name_eq
    {type : RecordType} {a b : Attribute} (ha : a ∈ type.attributes) (hb : b ∈ type.attributes)
    (hname : b.name = a.name) : b = a :=
  List.inj_on_of_nodup_map type.nodup_names hb ha hname

/-- Only the attribute with that spelling is at fault below a spelling. -/
theorem hasFault_spelling_iff
    {entries : Entries} {type : RecordType} {a : Attribute} (ha : a ∈ type.attributes)
    (htype : type ≠ .field .unrecognized) {s : String} (hs : s ∈ a.spellings) {below : Location}
    {cause : Cause} :
    HasFault (readRecord type entries.offers) ⟨.name s :: below, cause⟩ ↔
      HasFault (readAttribute (expand type entries.offers) a) ⟨.name s :: below, cause⟩ := by
  rw [hasFault_readRecord_iff, readExtras_of_ne htype, or_iff_left (not_hasFault_ok [])]
  refine ⟨?_, fun hfault => ⟨a, ha, hfault⟩⟩
  rintro ⟨b, hb, hfault⟩
  suffices hba : b = a from hba ▸ hfault
  by_contra hne
  rcases hasFault_readAttribute_iff.mp hfault with
    ⟨spelling, o, rest, hwritten, hlocation, -⟩ | ⟨-, -, hmissing⟩
  · cases hlocation
    exact RecordType.not_mem_spellings ha hb hne hs (written?_eq_some hwritten).1
  · have hname : s = b.name := Step.name.inj (List.cons.inj (Fault.mk.inj hmissing).1).1
    have hsame := RecordType.eq_name_of_mem_names ha hs (hname ▸ RecordType.name_mem hb)
    exact hne (eq_of_name_eq ha hb (hname.symm.trans hsame))

/-- Below an attribute with one spelling only its value is at fault. -/
theorem hasFault_attribute_iff
    {entries : Entries} {type : RecordType} {a : Attribute} (ha : a ∈ type.attributes)
    (hsingle : a.spellings = [a.name])
    (hname : a.name ≠ "id" ∧ a.name ≠ "label" ∧ a.name ≠ "text")
    (htype : type ≠ .field .unrecognized) {x : Value}
    (hget : Entries.get? a.name entries = some x) {below : Location} {cause : Cause} :
    HasFault (readRecord type entries.offers) ⟨.name a.name :: below, cause⟩ ↔
      HasFault (ofValue x a.shape) ⟨below, cause⟩ := by
  have hwritten : written? a (expand type entries.offers) = some (a.name, Offer.of x) := by
    rw [written?_expand_of_single hsingle hname, hget]
    rfl
  have hmem : a.name ∈ a.spellings := hsingle ▸ List.mem_singleton_self _
  rw [hasFault_spelling_iff ha htype hmem, hasFault_readAttribute_iff, hwritten]
  constructor
  · rintro (⟨spelling, o, rest, hfound, hlocation, hrest⟩ | ⟨hnone, -⟩)
    · cases hfound
      cases hlocation
      exact hrest
    · cases hnone
  · exact fun hfault => .inl ⟨_, _, _, rfl, rfl, hfault⟩

variable {v w : Value} {s t : Shape} {l below : Location} {cause : Cause}

/-- The faults of the whole below the location of a part are the faults of the part. -/
theorem LeadsTo.hasFault_iff (hleads : LeadsTo v s l w t) :
    HasFault (ofValue v s) ⟨l ++ below, cause⟩ ↔ HasFault (ofValue w t) ⟨below, cause⟩ := by
  induction hleads with
  | here v s => exact Iff.rfl
  | item hkinds hitems hget _ ih =>
      rw [← ih, ofValue_list hitems hkinds, hasFault_readItems_iff]
      constructor
      · rintro ⟨i, o, rest, ho, hlocation, hfault⟩
        cases hlocation
        rw [List.getElem?_map, hget] at ho
        cases ho
        exact hfault
      · intro hfault
        refine ⟨_, Offer.of _, _, ?_, rfl, hfault⟩
        rw [List.getElem?_map, hget]
        rfl
  | @entry entries x w s t k name l hkinds hmem honly _ ih =>
      rw [← ih, ofValue_of_single hkinds rfl nofun]
      refine hasFault_readTable_iff.trans ⟨?_, fun hfault => ?_⟩
      · rintro ⟨o, ho, hfault⟩
        obtain ⟨e, he, rfl⟩ := List.mem_map.mp ho
        obtain ⟨rest, hrest⟩ := location_of_hasFault_readEntry hfault
        cases honly e he (List.cons.inj hrest).1.symm
        obtain ⟨rest, hrest, hvalue⟩ := hasFault_readEntry_text_iff.mp hfault
        cases hrest
        exact hvalue
      · refine ⟨(.text name, Offer.of x), List.mem_map.mpr ⟨_, hmem, rfl⟩, ?_⟩
        exact hasFault_readEntry_text_iff.mpr ⟨_, rfl, hfault⟩
  | part hkinds ha hsingle hname htype hget _ ih =>
      rw [← ih, ofValue_of_single hkinds rfl nofun]
      exact hasFault_attribute_iff ha hsingle hname htype hget
  | field hkinds _ ih =>
      rw [← ih, ofValue_field _ hkinds, hasFault_under_iff, ofValue_record]
      constructor
      · rintro ⟨rest, hlocation, hfault⟩
        cases hlocation
        exact hfault
      · intro hfault
        exact ⟨_, rfl, hfault⟩

end Reading

namespace Document

open Reading

theorem hasFault_build_iff {canonical : Value} {f : Fault} :
    HasFault (build canonical) f ↔ HasFault (ofValue canonical (.one (.record .document))) f := by
  unfold HasFault
  simp only [build_eq_error_iff]

end Document

end Wireframe
