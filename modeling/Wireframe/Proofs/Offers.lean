import Mathlib.Tactic
import Wireframe.Element.Options
import Wireframe.Element.Reading
import Wireframe.Proofs.Trees

/-!
# Offers of values

The parts that a container offers to its reader are the readings of the values in it.
This removes the reading functions from view: a value is read as a shape from its own
form and from the offers of its parts, and a part is found under a name exactly when a
value is written there.
-/

namespace Wireframe

/-- A value as a part of a container. -/
def Offer.of (v : Value) : Offer := ⟨v, Reading.ofValue v⟩

/-- The parts of a mapping. -/
def Entries.offers (entries : Entries) : List (Key × Offer) :=
  entries.map fun e => (e.1, Offer.of e.2)

/-- The first spelling of an attribute that is written in a mapping, with its value. -/
def Attribute.spelling? (a : Attribute) (entries : Entries) : Option (String × Value) :=
  a.spellings.findSome? fun s => (Entries.get? s entries).map fun v => (s, v)

theorem Value.ofKeys_eq_map (ks : List Key) : Value.ofKey.ofKeys ks = ks.map Value.ofKey := by
  induction ks with
  | nil => rfl
  | cons k rest ih => simp [Value.ofKey.ofKeys, ih]

namespace Reading

/-- The parts that a value offers to its reader. -/
def partsOf : Value → Parts
  | .list items | .tuple items => .items true (items.map Offer.of)
  | .set keys => .items false (keys.map fun k => Offer.of (Value.ofKey k))
  | .map entries => .entries (Entries.offers entries)
  | .scalar _ | .back _ => .none

theorem ofValues_eq_map (items : List Value) :
    ofValues items = items.map Offer.of := by
  induction items with
  | nil => rfl
  | cons v vs ih => simp [ofValues, ih, Offer.of]

theorem ofEntries_eq_offers (entries : Entries) :
    ofEntries entries = entries.offers := by
  induction entries with
  | nil => rfl
  | cons e es ih =>
      obtain ⟨k, v⟩ := e
      simpa [ofEntries, Entries.offers, Offer.of] using ih

mutual

theorem ofKey_eq (k : Key) (shape : Shape) :
    ofKey k shape = ofValue (Value.ofKey k) shape := by
  match k with
  | .scalar s => rfl
  | .tuple ks => simp only [ofKey, Value.ofKey, ofValue, ofKeys_eq ks, ofValues_eq_map]

theorem ofKeys_eq (ks : List Key) :
    ofKeys ks = (Value.ofKey.ofKeys ks).map Offer.of := by
  match ks with
  | [] => rfl
  | k :: rest =>
      have hk : ofKey k = ofValue (Value.ofKey k) := funext (ofKey_eq k)
      simp [ofKeys, Value.ofKey.ofKeys, hk, ofKeys_eq rest, Offer.of]

end

theorem ofKeys_eq_map (ks : List Key) :
    ofKeys ks = ks.map fun k => Offer.of (Value.ofKey k) := by
  rw [ofKeys_eq, Value.ofKeys_eq_map, List.map_map]
  rfl

/-- A value is read from its own form and from the offers of its parts. -/
theorem ofValue_eq (v : Value) (shape : Shape) :
    ofValue v shape = readShape v (partsOf v) shape := by
  cases v <;>
    simp [ofValue, partsOf, ofValues_eq_map, ofEntries_eq_offers, ofKeys_eq_map]

/-- Where there is one alternative and it is not an option list, a value is read as that
alternative unless it is null. -/
theorem readShape_of_single
    {shape : Shape} {k : Kind} (hkinds : shape.kinds = [k]) (hk : k ≠ .optionList)
    (v : Value) (parts : Parts) :
    readShape v parts shape =
      if shape.nullable && !v.isPresent then .ok ⟨.null, true⟩ else readKind v parts k := by
  simp [readShape, hkinds, hk.symm]

@[simp] theorem value_of (v : Value) : (Offer.of v).value = v := rfl

@[simp] theorem read_of (v : Value) : (Offer.of v).read = ofValue v := rfl

theorem readRecord_option_ofText (o : Offer) (s : String) :
    readRecord .option [(.text "value", o), (.text "label", Offer.ofText s)] =
      readRecord .option [(.text "value", o), (.text "label", Offer.of (.text s))] := by
  have hlabel :
      readAttribute [(.text "value", o), (.text "label", Offer.ofText s)]
          (.need "label" .text) =
        readAttribute [(.text "value", o), (.text "label", Offer.of (.text s))]
          (.need "label" .text) := rfl
  unfold readRecord
  simp only [expand, RecordType.attributes, List.map_cons, List.map_nil, hlabel]
  rfl

/-- An item of an option list is read like the option that it stands for. -/
theorem readOption_of (v : Value) :
    readOption (Offer.of v) = ofValue v.expandOption (.one (.record .option)) := by
  by_cases hmap : v.isMap = true
  · have hexpand : v.expandOption = v := by
      cases v <;> simp_all [Value.isMap, Value.expandOption]
    simp [readOption, Offer.of, hmap, hexpand]
  · have hexpand :
        v.expandOption = .map [(.text "value", v), (.text "label", .text v.render)] := by
      cases v <;> simp_all [Value.isMap, Value.expandOption]
    rw [readOption, Offer.of, if_neg hmap, hexpand, ofValue_eq]
    exact readRecord_option_ofText _ _

/-! ## Parts under names -/

theorem find?_offers (name : String) (entries : Entries) :
    Offer.find? name entries.offers = (Entries.get? name entries).map Offer.of := by
  induction entries with
  | nil => rfl
  | cons e es ih =>
      by_cases hname : e.1.text? = some name
      · simp [Offer.find?, Entries.offers, Entries.get?, hname]
      · simpa [Offer.find?, Entries.offers, Entries.get?, hname] using ih

theorem valueOf_offers (name : String) (entries : Entries) :
    Offer.valueOf name entries.offers = entries.getD name := by
  rw [Offer.valueOf, find?_offers, Entries.getD]
  cases Entries.get? name entries <;> rfl

theorem written?_offers (a : Attribute) (entries : Entries) :
    written? a entries.offers =
      (a.spelling? entries).map fun p => (p.1, Offer.of p.2) := by
  unfold written? Attribute.spelling?
  induction a.spellings with
  | nil => rfl
  | cons s rest ih =>
      simp only [List.findSome?_cons, find?_offers]
      cases hget : Entries.get? s entries with
      | none => simpa [hget, find?_offers] using ih
      | some v => rfl

theorem written?_eq_some
    {a : Attribute} {offers : List (Key × Offer)} {spelling : String} {o : Offer}
    (hwritten : written? a offers = some (spelling, o)) :
    spelling ∈ a.spellings ∧ Offer.find? spelling offers = some o := by
  obtain ⟨s, hs, hfind⟩ := List.exists_of_findSome?_eq_some hwritten
  obtain ⟨o', hfound, heq⟩ := Option.map_eq_some_iff.mp hfind
  cases heq
  exact ⟨hs, hfound⟩

theorem find?_put_self (name : String) (o : Offer) (offers : List (Key × Offer)) :
    Offer.find? name (Offer.put name o offers) = some o := by
  induction offers with
  | nil => simp [Offer.put, Offer.find?, Key.text?]
  | cons p rest ih =>
      by_cases hname : p.1.text? = some name
      · simp [Offer.put, Offer.find?, hname]
      · simpa [Offer.put, Offer.find?, hname] using ih

theorem find?_put_of_ne
    {name other : String} (hne : other ≠ name)
    (o : Offer) (offers : List (Key × Offer)) :
    Offer.find? other (Offer.put name o offers) = Offer.find? other offers := by
  induction offers with
  | nil => simp [Offer.put, Offer.find?, Key.text?, hne.symm]
  | cons p rest ih =>
      by_cases hname : p.1.text? = some name
      · simp [Offer.put, Offer.find?, hname, hne.symm]
      · by_cases hother : p.1.text? = some other
        · simp [Offer.put, Offer.find?, hother, hne]
        · simpa [Offer.put, Offer.find?, hname, hother] using ih

/-! ## Collecting results -/

section Collect

variable {α β : Type}

theorem collect_map_ok (results : List α) :
    collect (results.map .ok) = .ok results := by
  induction results with
  | nil => rfl
  | cons a rest ih => simp [collect, ih, Except.map]

theorem eq_map_ok_of_collect
    {outcomes : List (Except (List Fault) α)} {results : List α}
    (hcollect : collect outcomes = .ok results) :
    outcomes = results.map .ok := by
  induction outcomes generalizing results with
  | nil => simpa [collect] using hcollect
  | cons outcome rest ih =>
      cases hrest : collect rest with
      | ok tail =>
          cases outcome with
          | ok a =>
              simp only [collect, hrest, Except.map, Except.ok.injEq] at hcollect
              rw [← hcollect, List.map_cons, ← ih hrest]
          | error faults => simp [collect, hrest] at hcollect
      | error more => cases outcome <;> simp [collect, hrest, Except.map] at hcollect

theorem collect_eq_ok_iff
    {outcomes : List (Except (List Fault) α)} {results : List α} :
    collect outcomes = .ok results ↔ outcomes = results.map .ok :=
  ⟨eq_map_ok_of_collect, fun heq => heq ▸ collect_map_ok results⟩

theorem collect_map_eq_ok_iff
    {read : β → Except (List Fault) α} {parts : List β} {results : List α} :
    collect (parts.map read) = .ok results ↔
      List.Forall₂ (fun part result => read part = .ok result) parts results := by
  rw [collect_eq_ok_iff]
  induction parts generalizing results with
  | nil => cases results <;> simp
  | cons p ps ih => cases results <;> simp [ih]

end Collect

end Reading

end Wireframe
