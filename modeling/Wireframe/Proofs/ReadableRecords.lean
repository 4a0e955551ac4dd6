import Mathlib.Data.List.Forall2
import Mathlib.Tactic
import Wireframe.Proofs.Shapes

/-!
# Records that can be read

A record is read when each of its entries is written under the name of an attribute and can be
read as that attribute asks for, and what is not written need not be.  What the record has then
is what is read of its entries, and defaults.
-/

namespace Wireframe

/-- The attribute of that name accepts that shape. -/
def RecordType.Asks (t : RecordType) (name : String) (s : Shape) : Prop :=
  ∃ a ∈ t.attributes, a.name = name ∧ a.shape = s

instance (t : RecordType) (name : String) (s : Shape) : Decidable (t.Asks name s) :=
  inferInstanceAs (Decidable (∃ a ∈ t.attributes, a.name = name ∧ a.shape = s))

/-- The element of an attribute that is read from what is written under its name, or its
default. -/
def Attribute.ReadsName (a : Attribute) (entries : Entries) (x : Element) : Prop :=
  match Entries.get? a.name entries with
  | some v => ∃ exact, Reading.ofValue v a.shape = .ok ⟨x, exact⟩
  | none => Element.ofDefault? a.default = some x

namespace Reading

open Element

/-- What is read as a kind is read as a shape of that kind, whether or not it admits null. -/
theorem ofValue_of_readsAs
    {s : Shape} {k : Kind} (hkinds : s.kinds = [k]) {v : Value} (hpresent : v.isPresent = true)
    {e : Element} (hread : ReadsAs k v e) :
    ∃ exact, ofValue v s = .ok ⟨e, exact⟩ := by
  obtain ⟨exact, hread⟩ := hread
  exact ⟨exact, by rw [ofValue_of_kinds (t := .one k) hkinds hpresent, hread]⟩

section Readable

variable {t : RecordType} {es : List (String × Value)}

/-- What is written under names of attributes can be read as the attributes ask for, and what
is not written need not be. -/
structure CanBeRead (t : RecordType) (es : List (String × Value)) : Prop where
  values : ∀ x ∈ es, ∃ s r, t.Asks x.1 s ∧ ofValue x.2 s = .ok r
  defaults : ∀ a ∈ t.attributes, a.name ∈ es.map Prod.fst ∨ a.default ≠ .required

/-- A record of that type has what is read of the entries. -/
structure IsReadOf (t : RecordType) (es : List (String × Value)) (e : Element) : Prop where
  type : e.type? = some t
  attributes : ∀ a ∈ t.attributes, ∃ x, e.attribute? a.name = some x ∧
    a.ReadsName (Entries.named es) x

theorem reads_iff_of_readable (hes : CanBeRead t es) {a : Attribute} (ha : a ∈ t.attributes)
    {x : Element} :
    a.Reads (Entries.named es) x ↔ a.ReadsName (Entries.named es) x := by
  have hnone {s : String} (hs : s ∉ t.names) : Entries.get? s (Entries.named es) = none := by
    refine Entries.get?_named_of_not_mem fun hmem => hs ?_
    obtain ⟨y, hy, rfl⟩ := List.mem_map.mp hmem
    obtain ⟨s, r, ⟨b, hb, hname, -⟩, -⟩ := hes.values y hy
    exact hname ▸ RecordType.name_mem hb
  unfold Attribute.Reads Attribute.ReadsName
  cases hget : Entries.get? a.name (Entries.named es) with
  | some v =>
      have hspelling : a.spelling? (Entries.named es) = some (a.name, v) := by
        refine findSome?_of_find? (RecordType.find?_spellings ha) (fun s hs => ?_) (by simp [hget])
        rw [hnone (by simpa using hs)]
        rfl
      rw [hspelling]
  | none =>
      have hspelling : a.spelling? (Entries.named es) = none := by
        rw [Attribute.spelling?, List.findSome?_eq_none_iff]
        intro s hs
        rw [Option.map_eq_none_iff]
        by_cases hname : s ∈ t.names
        · rw [RecordType.eq_name_of_mem_names ha hs hname, hget]
        · exact hnone hname
      rw [hspelling]

theorem exists_reads (hes : CanBeRead t es) {a : Attribute} (ha : a ∈ t.attributes) :
    ∃ x, a.Reads (Entries.named es) x := by
  simp only [reads_iff_of_readable hes ha, Attribute.ReadsName]
  cases hget : Entries.get? a.name (Entries.named es) with
  | some v =>
      rw [Entries.get?_named] at hget
      obtain ⟨y, hy, rfl⟩ := Option.map_eq_some_iff.mp hget
      obtain ⟨s, ⟨x, exact⟩, ⟨b, hb, hname, rfl⟩, hread⟩ :=
        hes.values y (List.mem_of_find?_eq_some hy)
      have hsame : y.1 = a.name := by simpa using List.find?_some hy
      obtain rfl := List.inj_on_of_nodup_map t.nodup_names hb ha (hname.trans hsame)
      exact ⟨x, exact, hread⟩
  | none =>
      rcases hes.defaults a ha with hmem | hdefault
      · obtain ⟨y, hy, hname⟩ := List.mem_map.mp hmem
        rw [Entries.get?_named, Option.map_eq_none_iff, List.find?_eq_none] at hget
        exact absurd hname (by simpa using hget y hy)
      · cases hkind : a.default <;> first | exact ⟨_, rfl⟩ | exact absurd hkind hdefault

/-- Entries that can be read are read, unless shorthands put something else for them. -/
theorem exists_readRecord (hes : CanBeRead t es) (ht : t ≠ .field .unrecognized)
    (hexpand : expand t (Entries.offers (Entries.named es)) = Entries.offers (Entries.named es)) :
    ∃ e, readRecord t (Entries.offers (Entries.named es)) = .ok ⟨e, true⟩ ∧ IsReadOf t es e := by
  have hall (bs : List Attribute) (hbs : ∀ a ∈ bs, a ∈ t.attributes) :
      ∃ xs : List (String × Element),
        List.Forall₂ (fun a x => x.1 = a.name ∧ a.Reads (Entries.named es) x.2) bs xs := by
    induction bs with
    | nil => exact ⟨[], .nil⟩
    | cons a bs ih =>
        obtain ⟨x, hx⟩ := exists_reads hes (hbs a List.mem_cons_self)
        obtain ⟨xs, hxs⟩ := ih fun b hb => hbs b (List.mem_cons_of_mem _ hb)
        exact ⟨(a.name, x) :: xs, .cons ⟨rfl, hx⟩ hxs⟩
  obtain ⟨attributes, hattributes⟩ := hall t.attributes fun _ ha => ha
  refine ⟨.record t attributes [], ?_, rfl, fun a ha => ?_⟩
  · refine readRecord_eq_ok_iff.mpr ⟨attributes, [], ?_, readExtras_of_ne ht _, rfl⟩
    rw [hexpand]
    exact hattributes.imp fun _ _ h => readAttribute_offers_eq_ok_iff.mpr h
  · obtain ⟨x, hmem, hname, hreads⟩ := exists_of_mem_left hattributes ha
    have hnames : attributes.map Prod.fst = t.names :=
      map_eq_map_of_forall₂ hattributes fun _ _ h => h.1
    refine ⟨x.2, ?_, (reads_iff_of_readable hes ha).mp hreads⟩
    rw [← hname]
    exact attribute?_of_mem t [] (hnames ▸ t.nodup_names) (List.of_mem_zip hmem).2

theorem exists_readsAs_record (hes : CanBeRead t es) (ht : ∀ f, t ≠ .field f) :
    ∃ e, ReadsAs (.record t) (Canonical.object es) e ∧ IsReadOf t es e := by
  obtain ⟨e, hread, he⟩ := exists_readRecord hes (ht _) (expand_of_not_field ht _)
  exact ⟨e, ⟨true, by rw [Canonical.object, ofValue_record, hread]⟩, he⟩

theorem IsReadOf.attribute?_eq {e : Element} (he : IsReadOf t es e) {name : String} {s : Shape}
    (hasks : t.Asks name s) {v : Value} (hget : Entries.get? name (Entries.named es) = some v)
    {x : Element} {exact : Bool} (hread : ofValue v s = .ok ⟨x, exact⟩) :
    e.attribute? name = some x := by
  obtain ⟨a, ha, rfl, rfl⟩ := hasks
  obtain ⟨y, hy, hvalue⟩ := he.attributes a ha
  rw [Attribute.ReadsName, hget] at hvalue
  obtain ⟨other, hother⟩ := hvalue
  cases hread.symm.trans hother
  exact hy

end Readable

end Reading

end Wireframe
