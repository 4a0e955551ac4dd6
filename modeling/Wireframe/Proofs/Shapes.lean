import Mathlib.Data.List.Forall2
import Mathlib.Tactic
import Wireframe.Canonical.Document
import Wireframe.Proofs.ReadBack

/-!
# Readings of mappings, lists and tables

Shapes with one alternative are read without a choice: a mapping attribute by attribute, a
list item by item and a table entry by entry.
-/

namespace Wireframe

namespace Reading

open Element

/-! ## Attributes of records -/

theorem ofValue_record (entries : Entries) (t : RecordType) :
    ofValue (.map entries) (.one (.record t)) = readRecord t entries.offers := by
  rw [ofValue_eq]
  rfl

theorem ofValue_record_eq_ok_iff
    {t : RecordType} (ht : ∀ f, t ≠ .field f) {entries : Entries} {r : Reading} :
    ofValue (.map entries) (.one (.record t)) = .ok r ↔
      ∃ attributes, List.Forall₂ (fun a x => x.1 = a.name ∧ a.Reads entries x.2)
          t.attributes attributes ∧ r = ⟨.record t attributes [], true⟩ := by
  rw [ofValue_record, readRecord_eq_ok_iff]
  simp only [expand_of_not_field ht, readExtras_of_ne (ht _), readAttribute_offers_eq_ok_iff,
    Except.ok.injEq]
  constructor
  · rintro ⟨attributes, extras, hattributes, rfl, rfl⟩
    exact ⟨attributes, hattributes, rfl⟩
  · rintro ⟨attributes, hattributes, rfl⟩
    exact ⟨attributes, [], hattributes, rfl, rfl⟩

theorem exists_attribute?
    {t : RecordType} (ht : ∀ f, t ≠ .field f) {entries : Entries} {r : Reading}
    (hread : ofValue (.map entries) (.one (.record t)) = .ok r)
    {a : Attribute} (ha : a ∈ t.attributes) :
    ∃ e, r.element.attribute? a.name = some e ∧ a.Reads entries e := by
  obtain ⟨attributes, hattributes, rfl⟩ := (ofValue_record_eq_ok_iff ht).mp hread
  obtain ⟨x, hmem, hname, hreads⟩ := exists_of_mem_left hattributes ha
  have hnames : attributes.map Prod.fst = t.names :=
    map_eq_map_of_forall₂ hattributes fun _ _ h => h.1
  refine ⟨x.2, ?_, hreads⟩
  rw [← hname]
  exact Element.attribute?_of_mem t [] (hnames ▸ t.nodup_names) (List.of_mem_zip hmem).2

theorem reads_iff_of_single
    {a : Attribute} (hsingle : a.spellings = [a.name]) {entries : Entries} {e : Element} :
    a.Reads entries e ↔
      match Entries.get? a.name entries with
      | some v => ∃ exact, ofValue v a.shape = .ok ⟨e, exact⟩
      | none => Element.ofDefault? a.default = some e := by
  unfold Attribute.Reads Attribute.spelling?
  rw [hsingle]
  cases hget : Entries.get? a.name entries <;> simp [hget]

/-! ## Shapes with one alternative -/

/-- A value that is present is read alike as shapes of the same kinds. -/
theorem ofValue_of_kinds
    {s t : Shape} (hkinds : s.kinds = t.kinds) {v : Value} (hpresent : v.isPresent = true) :
    ofValue v s = ofValue v t := by
  simp only [ofValue_eq, readShape, hpresent, hkinds, Bool.not_true, Bool.and_false,
    Bool.false_eq_true, if_false]

theorem ofValue_of_single
    {s : Shape} {k : Kind} (hkinds : s.kinds = [k]) {v : Value} (hpresent : v.isPresent = true)
    (hk : k ≠ .optionList) :
    ofValue v s = readKind v (partsOf v) k := by
  simp [ofValue_eq, readShape_of_single hkinds hk, hpresent]

/-- The item of a list that a value is read as. -/
def ReadsAs (k : Kind) (v : Value) (e : Element) : Prop :=
  ∃ exact, ofValue v (.one k) = .ok ⟨e, exact⟩

theorem readsAs_rightUnique (k : Kind) : Relator.RightUnique (ReadsAs k) := by
  rintro v e f ⟨exact, hexact⟩ ⟨other, hother⟩
  rw [hexact] at hother
  cases hother
  rfl

theorem ofValue_list_eq_ok_iff
    {s : Shape} {k : Kind} (hkinds : s.kinds = [.listOf k]) {items : List Value} {e : Element}
    {exact : Bool} :
    ofValue (.list items) s = .ok ⟨e, exact⟩ ↔
      exact = true ∧ ∃ es, e = .list es ∧ List.Forall₂ (ReadsAs k) items es := by
  rw [ofValue_of_single hkinds rfl nofun]
  simp only [readKind, partsOf, ofItems_eq_ok_iff, readItems_eq_ok_iff, List.forall₂_map_left_iff,
    read_of, Reading.mk.injEq]
  constructor
  · rintro ⟨es, hes, rfl, rfl⟩
    exact ⟨rfl, es, rfl, hes⟩
  · rintro ⟨rfl, es, rfl, hes⟩
    exact ⟨es, hes, rfl, rfl⟩

/-- What is read as a list is read item by item, in the order in which a walk meets the items. -/
theorem forall₂_of_elements
    {s : Shape} {k : Kind} (hkinds : s.kinds = [.listOf k]) {v : Value} {items : List Value}
    (hitems : Canonical.elements v = .ok items) {e : Element} {exact : Bool}
    (hread : ofValue v s = .ok ⟨e, exact⟩) :
    ∃ es, e = .list es ∧ List.Forall₂ (ReadsAs k) items es := by
  have hpresent : v.isPresent = true := by
    cases v with
    | scalar s => cases s <;> first | rfl | cases hitems
    | _ => rfl
  rw [ofValue_of_single hkinds hpresent nofun] at hread
  cases v with
  | list xs | tuple xs =>
      cases hitems
      simp only [readKind, partsOf, ofItems_eq_ok_iff, readItems_eq_ok_iff,
        List.forall₂_map_left_iff, read_of, Reading.mk.injEq] at hread
      obtain ⟨es, hes, rfl, -⟩ := hread
      exact ⟨es, rfl, hes⟩
  | set ks =>
      cases hitems
      simp only [readKind, partsOf, ofItems_eq_ok_iff, readItems_eq_ok_iff,
        List.forall₂_map_left_iff, read_of, Reading.mk.injEq] at hread
      obtain ⟨es, hes, rfl, -⟩ := hread
      exact ⟨es, rfl, List.forall₂_map_left_iff.mpr hes⟩
  | _ => cases hread

/-- Of raw trees only null and lists are read as lists that may be absent. -/
theorem eq_list_of_ofValue
    {s : Shape} {k : Kind} (hkinds : s.kinds = [.listOf k]) {v : Value} (hraw : v.isRaw = true)
    (hpresent : v.isPresent = true) {r : Reading} (hread : ofValue v s = .ok r) :
    ∃ items, v = .list items := by
  rw [ofValue_of_single hkinds hpresent nofun] at hread
  cases v with
  | list items => exact ⟨items, rfl⟩
  | tuple items => simp [Value.isRaw] at hraw
  | set keys => simp [Value.isRaw] at hraw
  | _ => cases hread

theorem eq_text_of_ofValue
    {choices : List String} {v : Value} {r : Reading}
    (hread : ofValue v (.one (.word choices)) = .ok r) :
    ∃ x, v = .text x ∧ r.element = .text x := by
  rw [ofValue_eq] at hread
  rcases readShape_eq_ok hread with ⟨hnull, -⟩ | ⟨k, hk, hkind⟩
  · cases hnull
  · rw [List.mem_singleton.mp hk] at hkind
    obtain ⟨c, hword, rfl⟩ := ofCoerced_eq_ok_iff.mp hkind
    unfold Coercion.toWord at hword
    split at hword
    next x =>
      split_ifs at hword
      · cases hword
        exact ⟨x, rfl, rfl⟩
      · cases hword
    next => cases hword

theorem exists_of_mem_table
    {k : Kind} {s : Shape} (hkinds : s.kinds = [.tableOf k]) {es : List (String × Value)}
    {table : List (String × Element)} {exact : Bool}
    (hread : ofValue (.map (Entries.named es)) s = .ok ⟨.table table, exact⟩) {x : String × Element}
    (hx : x ∈ table) :
    ∃ y ∈ es, ReadsAs k y.2 x.2 := by
  rw [ofValue_of_single hkinds rfl nofun] at hread
  obtain ⟨entries, hentries, heq⟩ := readTable_eq_ok_iff.mp hread
  cases heq
  rw [Entries.offers, Entries.named, List.map_map, List.forall₂_map_left_iff] at hentries
  obtain ⟨y, hy, hentry⟩ := exists_of_mem_right hentries (Entries.mem_of_mem_distinct hx)
  exact ⟨y, hy, readEntry_eq_ok hentry⟩

/-! ## Items of records -/

section Items

variable {t : RecordType} (ht : ∀ f, t ≠ .field f) {raw : Entries} {e : Element}
  (hread : ReadsAs (.record t) (.map raw) e)
  {a : Attribute} (ha : a ∈ t.attributes) (hsingle : a.spellings = [a.name]) {k : Kind}
  (hkinds : a.shape.kinds = [.listOf k])

include ht hread ha hsingle hkinds

/-- The items of a list attribute are read from what is written, none if it is absent. -/
theorem forall₂_itemsOf
    (hraw : ∀ e ∈ raw, e.2.isRaw = true) :
    List.Forall₂ (ReadsAs k) (((raw.getD a.name).items?).getD []) (e.itemsOf a.name) := by
  obtain ⟨exact, hread⟩ := hread
  obtain ⟨f, hf, hreads⟩ := exists_attribute? ht hread ha
  have hattribute : e.attribute? a.name = some f := hf
  have hitemsOf : e.itemsOf a.name = f.items := by rw [itemsOf, hattribute]; rfl
  rw [hitemsOf]
  rw [reads_iff_of_single hsingle] at hreads
  cases hget : Entries.get? a.name raw with
  | none =>
      have hnone : raw.getD a.name = .null := by simp [Entries.getD, hget]
      rw [hget] at hreads
      rw [hnone]
      cases hdefault : a.default <;> rw [hdefault] at hreads <;> cases hreads <;> exact .nil
  | some v =>
      have hv : raw.getD a.name = v := Entries.getD_of_get? hget
      have hvRaw : v.isRaw = true := hv ▸ Entries.isRaw_getD hraw
      rw [hget] at hreads
      rw [hv]
      obtain ⟨exact', hvalue⟩ := hreads
      by_cases hpresent : v.isPresent = true
      · obtain ⟨items, rfl⟩ := eq_list_of_ofValue hkinds hvRaw hpresent hvalue
        obtain ⟨-, es, rfl, hes⟩ := (ofValue_list_eq_ok_iff hkinds).mp hvalue
        exact hes
      · have hnull : v = .null := Value.eq_null_of_not_isPresent hpresent
        subst hnull
        rw [ofValue_eq] at hvalue
        rcases readShape_eq_ok hvalue with ⟨-, hnull⟩ | ⟨j, hj, hkind⟩
        · cases hnull
          exact .nil
        · rw [hkinds, List.mem_singleton] at hj
          subst hj
          cases hkind

/-- Every item of a list attribute is read from an item that the rules have looked at. -/
theorem exists_of_mem_itemsOf
    (hraw : ∀ e ∈ raw, e.2.isRaw = true) {P : Value → Prop} (hmay : raw.MayHave a.name P)
    {x : Element} (hx : x ∈ e.itemsOf a.name) :
    ∃ v, v.isRaw = true ∧ P v ∧ ReadsAs k v x := by
  have hes := forall₂_itemsOf ht hread ha hsingle hkinds hraw
  obtain ⟨v, hv, hvx⟩ := exists_of_mem_right hes hx
  cases hitems : (raw.getD a.name).items? with
  | none =>
      rw [hitems] at hv
      cases hv
  | some items =>
      rw [hitems] at hv
      exact ⟨v, Value.isRaw_items (Entries.isRaw_getD hraw) hitems v hv,
        hmay.forall_items hitems v hv, hvx⟩

end Items

end Reading

end Wireframe
