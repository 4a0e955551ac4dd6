import Mathlib.Data.List.Forall2
import Mathlib.Tactic
import Wireframe.Proofs.Offers

/-!
# Reading records

A record is read exactly when each of its attributes is, and an attribute is read from
the value of its first spelling that is written or from its default.  What shorthands
fill in is an identifier, a label or the text of a heading, so every other attribute of
a field is read from what is written.
-/

namespace Wireframe

/-- The element of an attribute that is read from a mapping: that of the value under its
first spelling, or its default. -/
def Attribute.Reads (a : Attribute) (entries : Entries) (e : Element) : Prop :=
  match a.spelling? entries with
  | some p => ∃ exact, Reading.ofValue p.2 a.shape = .ok ⟨e, exact⟩
  | none => Element.ofDefault? a.default = some e

namespace Reading

theorem under_eq_ok_iff
    {α : Type} {step : Step} {outcome : Except (List Fault) α} {a : α} :
    under step outcome = .ok a ↔ outcome = .ok a := by
  cases outcome <;> simp [under, Except.mapError]

theorem map_element_eq_ok_iff
    {outcome : Outcome} {e : Element} :
    outcome.map Reading.element = .ok e ↔ ∃ exact, outcome = .ok ⟨e, exact⟩ := by
  cases outcome with
  | error faults => simp [Except.map]
  | ok r =>
      obtain ⟨element, exact⟩ := r
      simp [Except.map]

theorem readAttribute_eq_ok_iff
    {offers : List (Key × Offer)} {a : Attribute} {x : String × Element} :
    readAttribute offers a = .ok x ↔
      x.1 = a.name ∧
        match written? a offers with
        | some p => ∃ exact, p.2.read a.shape = .ok ⟨x.2, exact⟩
        | none => Element.ofDefault? a.default = some x.2 := by
  obtain ⟨name, e⟩ := x
  unfold readAttribute
  cases written? a offers with
  | some p =>
      cases hread : p.2.read a.shape with
      | ok r =>
          obtain ⟨element, exact⟩ := r
          simp [under, hread, Except.mapError, Except.map, eq_comm]
      | error faults => simp [under, hread, Except.mapError, Except.map]
  | none =>
      cases Element.ofDefault? a.default with
      | some d => simp [eq_comm]
      | none => simp [under, refuse, Except.mapError]

theorem readAttribute_offers_eq_ok_iff
    {entries : Entries} {a : Attribute} {x : String × Element} :
    readAttribute entries.offers a = .ok x ↔ x.1 = a.name ∧ a.Reads entries x.2 := by
  rw [readAttribute_eq_ok_iff, written?_offers, Attribute.Reads]
  cases a.spelling? entries <;> simp

/-- A record is read when its attributes and its extras are, and it is always exact. -/
theorem readRecord_eq_ok_iff
    {t : RecordType} {written : List (Key × Offer)} {r : Reading} :
    readRecord t written = .ok r ↔
      ∃ attributes extras,
        List.Forall₂ (fun a x => readAttribute (expand t written) a = .ok x)
          t.attributes attributes ∧
        readExtras t (expand t written) = .ok extras ∧
        r = ⟨.record t attributes extras, true⟩ := by
  unfold readRecord
  simp only [← collect_map_eq_ok_iff]
  cases collect (t.attributes.map (readAttribute (expand t written))) with
  | ok attributes =>
      cases readExtras t (expand t written) <;> simp [eq_comm]
  | error faults =>
      cases readExtras t (expand t written) <;> simp

/-! ## Lists and tables -/

theorem collect_readItems_iff
    {read : Offer → Outcome} {offers : List Offer} {n : Nat} {items : List Element} :
    collect ((offers.zipIdx n).map fun o =>
        (under (.place o.2) (read o.1)).map Reading.element) = .ok items ↔
      List.Forall₂ (fun o e => ∃ exact, read o = .ok ⟨e, exact⟩) offers items := by
  rw [collect_map_eq_ok_iff]
  induction offers generalizing n items with
  | nil => cases items <;> simp
  | cons o rest ih =>
      cases items with
      | nil => simp
      | cons e es =>
          rw [List.zipIdx_cons, List.forall₂_cons, List.forall₂_cons, ih,
            map_element_eq_ok_iff]
          simp only [under_eq_ok_iff]

theorem readItems_eq_ok_iff
    {read : Offer → Outcome} {offers : List Offer} {items : List Element} :
    readItems read offers = .ok items ↔
      List.Forall₂ (fun o e => ∃ exact, read o = .ok ⟨e, exact⟩) offers items :=
  collect_readItems_iff

theorem ofItems_eq_ok_iff
    {outcome : Except (List Fault) (List Element)} {r : Reading} :
    ofItems outcome = .ok r ↔ ∃ items, outcome = .ok items ∧ r = ⟨.list items, true⟩ := by
  cases outcome <;> simp [ofItems, eq_comm]

theorem readEntry_eq_ok
    {k : Kind} {key : Key} {offer : Offer} {e : String × Element}
    (hread : readEntry k key offer = .ok e) :
    ∃ exact, offer.read (.one k) = .ok ⟨e.2, exact⟩ := by
  unfold readEntry at hread
  simp only at hread
  split at hread
  next s v hname hvalue =>
    cases hread
    exact ⟨v.exact, under_eq_ok_iff.mp hvalue⟩
  all_goals cases hread

theorem readEntry_text
    {k : Kind} {name : String} {offer : Offer} {e : Element} {exact : Bool}
    (hread : offer.read (.one k) = .ok ⟨e, exact⟩) :
    readEntry k (.text name) offer = .ok (name, e) := by
  simp [readEntry, Value.ofKey, Coercion.toText, hread, under, Except.mapError]

theorem readTable_eq_ok_iff
    {k : Kind} {offers : List (Key × Offer)} {r : Reading} :
    readTable k offers = .ok r ↔
      ∃ entries, List.Forall₂ (fun o e => readEntry k o.1 o.2 = .ok e) offers entries ∧
        r = ⟨.table (Entries.distinct entries), true⟩ := by
  unfold readTable
  simp only [← collect_map_eq_ok_iff]
  cases collect (offers.map fun o => readEntry k o.1 o.2) <;> simp [eq_comm]

/-! ## Shorthands -/

theorem find?_fillName_of_ne
    {name : String} (hid : name ≠ "id") (hlabel : name ≠ "label")
    (offers : List (Key × Offer)) :
    Offer.find? name (fillName offers) = Offer.find? name offers := by
  unfold fillName
  cases Offer.find? "field_name" offers with
  | none => rfl
  | some o =>
      simp only [List.foldl_cons, List.foldl_nil]
      split_ifs <;> simp [find?_put_of_ne hid, find?_put_of_ne hlabel]

theorem find?_fillHeading_of_ne
    {name : String} (htext : name ≠ "text") (offers : List (Key × Offer)) :
    Offer.find? name (fillHeading offers) = Offer.find? name offers := by
  unfold fillHeading
  split_ifs
  · rfl
  · exact find?_put_of_ne htext _ _

/-- Shorthands fill in nothing but identifiers, labels and texts. -/
theorem find?_expand_of_ne
    (name : String) (hid : name ≠ "id") (hlabel : name ≠ "label") (htext : name ≠ "text")
    (t : RecordType) (offers : List (Key × Offer)) :
    Offer.find? name (expand t offers) = Offer.find? name offers := by
  unfold expand
  split
  · rw [find?_fillName_of_ne hid hlabel, find?_fillHeading_of_ne htext]
  · exact find?_fillName_of_ne hid hlabel offers
  · rfl

theorem written?_expand_of_single
    {a : Attribute} (hsingle : a.spellings = [a.name])
    (hname : a.name ≠ "id" ∧ a.name ≠ "label" ∧ a.name ≠ "text") (t : RecordType)
    (entries : Entries) :
    written? a (expand t entries.offers) =
      (Entries.get? a.name entries).map fun v => (a.name, Offer.of v) := by
  obtain ⟨hid, hlabel, htext⟩ := hname
  simp only [written?, hsingle, List.findSome?_cons, List.findSome?_nil,
    find?_expand_of_ne a.name hid hlabel htext, find?_offers]
  cases Entries.get? a.name entries <;> rfl

theorem find?_foldl_put_eq_some
    {name : String} {keys : List String} {offers : List (Key × Offer)} {o p : Offer}
    (hfind : Offer.find? name (keys.foldl (fun os key =>
      if (Offer.valueOf key os).isPresent then os else Offer.put key p os) offers) = some o) :
    Offer.find? name offers = some o ∨ o = p := by
  induction keys generalizing offers with
  | nil => exact .inl hfind
  | cons key keys ih =>
      rcases ih hfind with hold | hnew
      · beta_reduce at hold
        split_ifs at hold
        · exact .inl hold
        · by_cases hname : name = key
          · subst hname
            rw [find?_put_self, Option.some.injEq] at hold
            exact .inr hold.symm
          · rw [find?_put_of_ne hname] at hold
            exact .inl hold
      · exact .inr hnew

/-- A part of a field comes from what is written, the name of the field included. -/
theorem find?_fillName_eq_some
    {name : String} {offers : List (Key × Offer)} {o : Offer}
    (hfind : Offer.find? name (fillName offers) = some o) :
    Offer.find? name offers = some o ∨ Offer.find? "field_name" offers = some o := by
  unfold fillName at hfind
  cases hname : Offer.find? "field_name" offers with
  | none => exact .inl (by simpa [hname] using hfind)
  | some p =>
      simp only [hname] at hfind
      split_ifs at hfind
      · exact (find?_foldl_put_eq_some hfind).imp_right fun h => by rw [h]
      · exact .inl hfind

theorem find?_fillHeading_eq_some
    {name : String} {offers : List (Key × Offer)} {o : Offer}
    (hfind : Offer.find? name (fillHeading offers) = some o) :
    (∃ n, Offer.find? n offers = some o) ∨ (name = "text" ∧ o = Offer.ofText "") := by
  by_cases htext : name = "text"
  · subst htext
    unfold fillHeading at hfind
    simp only at hfind
    split_ifs at hfind with hpresent
    · exact .inl ⟨_, hfind⟩
    · rw [find?_put_self, Option.some.injEq] at hfind
      cases hcandidate : (["label", "field_name"].filterMap fun n =>
          Offer.find? n offers).find? (fun o => o.value.isTruthy) with
      | none => exact .inr ⟨rfl, by simpa [hcandidate] using hfind.symm⟩
      | some p =>
          obtain ⟨n, -, hn⟩ := List.mem_filterMap.mp (List.mem_of_find?_eq_some hcandidate)
          simp only [hcandidate, Option.getD_some] at hfind
          exact .inl ⟨n, by rw [hn, hfind]⟩
  · exact .inl ⟨name, by rwa [find?_fillHeading_of_ne htext] at hfind⟩

/-- The only part of a record that need not be written anywhere is the text of a heading. -/
theorem find?_expand_eq_some
    {t : RecordType} {name : String} {offers : List (Key × Offer)} {o : Offer}
    (hfind : Offer.find? name (expand t offers) = some o) :
    (∃ n, Offer.find? n offers = some o) ∨
      (t = .field .heading ∧ name = "text" ∧ o = Offer.ofText "") := by
  unfold expand at hfind
  split at hfind
  · rcases find?_fillName_eq_some hfind with hold | hname
    · exact (find?_fillHeading_eq_some hold).imp_right fun h => ⟨rfl, h⟩
    · rw [find?_fillHeading_of_ne (by decide)] at hname
      exact .inl ⟨_, hname⟩
  · exact .inl ((find?_fillName_eq_some hfind).elim (⟨_, ·⟩) (⟨_, ·⟩))
  · exact .inl ⟨_, hfind⟩

theorem mem_put
    {name : String} {offer : Offer} {offers : List (Key × Offer)} {o : Key × Offer}
    (ho : o ∈ Offer.put name offer offers) :
    o.1 = .text name ∨ ∃ p ∈ offers, p.1 = o.1 := by
  induction offers with
  | nil => exact .inl (congrArg Prod.fst (List.mem_singleton.mp ho))
  | cons p rest ih =>
      unfold Offer.put at ho
      split_ifs at ho
      · rcases List.mem_cons.mp ho with rfl | ho
        · exact .inr ⟨p, List.mem_cons_self, rfl⟩
        · exact .inr ⟨o, List.mem_cons_of_mem _ ho, rfl⟩
      · rcases List.mem_cons.mp ho with rfl | ho
        · exact .inr ⟨o, List.mem_cons_self, rfl⟩
        · rcases ih ho with hname | ⟨q, hq, hkey⟩
          · exact .inl hname
          · exact .inr ⟨q, List.mem_cons_of_mem _ hq, hkey⟩

/-- The keys of a field that are no texts are written. -/
theorem key_of_mem_fillName
    {offers : List (Key × Offer)} {o : Key × Offer} (ho : o ∈ fillName offers) :
    (∃ name, o.1 = .text name) ∨ ∃ p ∈ offers, p.1 = o.1 := by
  unfold fillName at ho
  split at ho
  · exact .inr ⟨o, ho, rfl⟩
  next offer _ =>
    have hput {os : List (Key × Offer)} {key : String} {o : Key × Offer}
        (ho : o ∈ if (Offer.valueOf key os).isPresent then os else Offer.put key offer os) :
        (∃ name, o.1 = .text name) ∨ ∃ p ∈ os, p.1 = o.1 := by
      split_ifs at ho
      · exact .inr ⟨o, ho, rfl⟩
      · exact (mem_put ho).imp_left fun hkey => ⟨key, hkey⟩
    split_ifs at ho
    · rcases hput ho with hname | ⟨p, hp, hkey⟩
      · exact .inl hname
      · exact hkey ▸ hput hp
    · exact .inr ⟨o, ho, rfl⟩

theorem fillName_of_present
    {offers : List (Key × Offer)}
    (hid : (Offer.valueOf "id" offers).isPresent = true)
    (hlabel : (Offer.valueOf "label" offers).isPresent = true) :
    fillName offers = offers := by
  unfold fillName
  cases Offer.find? "field_name" offers with
  | none => rfl
  | some o => simp [hid, hlabel]

theorem fillHeading_of_present
    {offers : List (Key × Offer)}
    (htext : (Offer.valueOf "text" offers).isPresent = true) :
    fillHeading offers = offers := by
  simp [fillHeading, htext]

theorem expand_of_not_field
    {t : RecordType} (ht : ∀ f, t ≠ .field f) (offers : List (Key × Offer)) :
    expand t offers = offers := by
  unfold expand
  split
  · exact absurd rfl (ht _)
  · exact absurd rfl (ht _)
  · rfl

theorem readExtras_of_ne
    {t : RecordType} (ht : t ≠ .field .unrecognized) (offers : List (Key × Offer)) :
    readExtras t offers = .ok [] := by
  unfold readExtras
  split
  · exact absurd rfl ht
  · rfl

end Reading

end Wireframe
