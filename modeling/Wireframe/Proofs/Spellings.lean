import Mathlib.Tactic
import Wireframe.Proofs.Attributes
import Wireframe.Proofs.RenamedEntries
import Wireframe.Proofs.Shapes

/-!
# Spellings

An attribute may be written under any of its spellings, and the first that is written counts.  No
spelling belongs to two attributes of a record, and what has several spellings is none of the
attributes that shorthands read or fill in.  So it does not matter which spelling is chosen.  What
stands under another spelling, or under a name that is no spelling at all, is not looked at,
except by an unrecognized field, which keeps it.
-/

namespace Wireframe

namespace RecordType

open Reading

/-! ## The spellings of a record -/

/-- No name is a spelling twice, and attributes with several spellings are apart from what
shorthands read or fill in. -/
def spellsApart (t : RecordType) : Bool :=
  decide (t.attributes.flatMap Attribute.spellings).Nodup &&
    t.attributes.all fun a =>
      a.spellings == [a.name] || a.spellings.all fun s => !shorthands.contains s

theorem spellsApart_eq_true (t : RecordType) : t.spellsApart = true := by
  cases t with
  | action t => cases t <;> decide +kernel
  | field t => cases t <;> decide +kernel
  | _ => decide +kernel

variable {t : RecordType} {a b : Attribute} {s : String}

theorem not_mem_spellings
    (ha : a ∈ t.attributes) (hb : b ∈ t.attributes) (hne : b ≠ a) (hs : s ∈ a.spellings) :
    s ∉ b.spellings := by
  have hapart := t.spellsApart_eq_true
  simp only [spellsApart, Bool.and_eq_true, decide_eq_true_eq, List.nodup_flatMap] at hapart
  have : Std.Symm (Function.onFun List.Disjoint Attribute.spellings) :=
    ⟨fun _ _ hdisjoint => hdisjoint.symm⟩
  exact hapart.1.2.forall ha hb hne.symm hs

theorem not_mem_shorthands
    (ha : a ∈ t.attributes) (hseveral : a.spellings ≠ [a.name]) (hs : s ∈ a.spellings) :
    s ∉ shorthands := by
  have hapart := t.spellsApart_eq_true
  simp only [spellsApart, Bool.and_eq_true, List.all_eq_true, Bool.or_eq_true, beq_iff_eq] at hapart
  simpa using (hapart.2 a ha).resolve_left hseveral s hs

end RecordType

/-! ## Readings of records -/

/-- Of the spellings of an attribute one is written in a mapping, and no other. -/
structure Attribute.IsOnlyWrittenAs (a : Attribute) (entries : Entries) (s : String) : Prop where
  mem : s ∈ a.spellings
  written : Entries.get? s entries ≠ none
  only : ∀ x ∈ a.spellings, x ≠ s → Entries.get? x entries = none

/-- A name counts in a mapping that is read as a record: it is a spelling of an attribute and none
of its spellings before it is written, or it is the name of a field, which stands for others. -/
inductive RecordType.Heeds (entries : Entries) : RecordType → String → Prop
  | spelling {t a before s after} (ha : a ∈ attributes t)
      (hspellings : a.spellings = before ++ s :: after)
      (hfirst : ∀ x ∈ before, Entries.get? x entries = none) : Heeds entries t s
  | fieldName {f} : Heeds entries (.field f) "field_name"

namespace Reading

open Entries

variable {t : RecordType} {a : Attribute} {os other : List (Key × Offer)} {old new : String}
  {entries others : Entries} {k : Kind} {r : Reading}

theorem written?_congr (hsame : ∀ s ∈ a.spellings, Offer.find? s other = Offer.find? s os) :
    written? a other = written? a os := by
  unfold written?
  generalize a.spellings = spellings at hsame
  induction spellings with
  | nil => rfl
  | cons s rest ih =>
      obtain ⟨hhead, htail⟩ := List.forall_mem_cons.mp hsame
      rw [List.findSome?_cons, List.findSome?_cons, hhead, ih htail]

theorem written?_of_only
    {s : String} {o : Offer} (hs : s ∈ a.spellings)
    (honly : ∀ x ∈ a.spellings, x ≠ s → Offer.find? x os = none)
    (hfind : Offer.find? s os = some o) :
    written? a os = some (s, o) := by
  obtain ⟨before, after, hspellings, hnot⟩ := List.eq_append_cons_of_mem hs
  have hbefore : (before.findSome? fun s => (Offer.find? s os).map fun o => (s, o)) = none := by
    refine List.findSome?_eq_none_iff.mpr fun x hx => ?_
    rw [honly x (hspellings ▸ List.mem_append_left _ hx) (ne_of_mem_of_not_mem hx hnot)]
    rfl
  rw [written?, hspellings, List.findSome?_append, hbefore, List.findSome?_cons, hfind]
  rfl

theorem find?_expand_of_several
    (ha : a ∈ t.attributes) (hseveral : a.spellings ≠ [a.name]) {s : String}
    (hs : s ∈ a.spellings) (os : List (Key × Offer)) :
    Offer.find? s (expand t os) = Offer.find? s os := by
  have hnot := RecordType.not_mem_shorthands ha hseveral hs
  simp only [shorthands, List.mem_cons, List.not_mem_nil, or_false, not_or] at hnot
  exact find?_expand_of_ne s hnot.2.1 hnot.2.2.1 hnot.2.2.2 t os

/-- The reading of a record tells no more than the readings of its attributes and what is left
over from them. -/
theorem readRecord_congr
    (hattributes : ∀ a ∈ t.attributes, ∀ x, readAttribute (expand t other) a = .ok x ↔
      readAttribute (expand t os) a = .ok x)
    (hextras : readExtras t (expand t other) = readExtras t (expand t os)) :
    readRecord t other = .ok r ↔ readRecord t os = .ok r := by
  have hforall {P Q : Attribute → String × Element → Prop}
      (himp : ∀ a ∈ t.attributes, ∀ x, P a x → Q a x) {xs : List (String × Element)}
      (hxs : List.Forall₂ P t.attributes xs) : List.Forall₂ Q t.attributes xs :=
    ((List.forall₂_and_left _ _).mpr ⟨himp, hxs⟩).imp fun a x h => h.1 x h.2
  rw [readRecord_eq_ok_iff, readRecord_eq_ok_iff, hextras]
  constructor
  · rintro ⟨attributes, extras, hread, hrest⟩
    exact ⟨attributes, extras, hforall (fun a ha x => (hattributes a ha x).mp) hread, hrest⟩
  · rintro ⟨attributes, extras, hread, hrest⟩
    exact ⟨attributes, extras, hforall (fun a ha x => (hattributes a ha x).mpr) hread, hrest⟩

/-! ## Another spelling -/

theorem written?_rename_of_ne
    (ha : a ∈ t.attributes) {b : Attribute} (hb : b ∈ t.attributes) (hne : b ≠ a)
    (hold : old ∈ a.spellings) (hnew : new ∈ a.spellings) :
    written? b (rename old new os) = written? b os :=
  written?_congr fun _ hs => Offer.find?_rename
    (ne_of_mem_of_not_mem hs (RecordType.not_mem_spellings ha hb hne hold))
    (ne_of_mem_of_not_mem hs (RecordType.not_mem_spellings ha hb hne hnew)) os

section Renamed

variable (hnew : new ∈ a.spellings) (hne : old ≠ new)
  (honly : ∀ x ∈ a.spellings, x ≠ old → Offer.find? x os = none)
  {o : Offer} (hfind : Offer.find? old os = some o)

include hnew hne honly hfind

theorem written?_rename_self : written? a (rename old new os) = some (new, o) := by
  refine written?_of_only hnew (fun x hx hother => ?_) ?_
  · by_cases hx' : x = old
    · rw [hx', Offer.find?_rename_old hne]
    · rw [Offer.find?_rename hx' hother, honly x hx hx']
  · rw [Offer.find?_rename_new (honly new hnew hne.symm), hfind]

variable (ha : a ∈ t.attributes) (hold : old ∈ a.spellings)

include ha hold

theorem readAttribute_rename {b : Attribute} (hb : b ∈ t.attributes) (x : String × Element) :
    readAttribute (rename old new os) b = .ok x ↔ readAttribute os b = .ok x := by
  rw [readAttribute_eq_ok_iff, readAttribute_eq_ok_iff]
  by_cases hba : b = a
  · rw [hba, written?_of_only hold honly hfind, written?_rename_self hnew hne honly hfind]
  · rw [written?_rename_of_ne ha hb hba hold hnew]

theorem readExtras_rename : readExtras t (rename old new os) = readExtras t os := by
  by_cases ht : t = .field .unrecognized
  · subst ht
    have hself := written?_of_only hold honly hfind
    have hrenamed := written?_rename_self hnew hne honly hfind
    let used (os : List (Key × Offer)) : List String :=
      (RecordType.field .unrecognized).attributes.filterMap fun b => (written? b os).map Prod.fst
    have hused : old ∈ used os := List.mem_filterMap.mpr ⟨a, ha, by rw [hself]; rfl⟩
    have hused' : new ∈ used (rename old new os) :=
      List.mem_filterMap.mpr ⟨a, ha, by rw [hrenamed]; rfl⟩
    have hothers (s : String) (hsold : s ≠ old) (hsnew : s ≠ new) :
        s ∈ used (rename old new os) ↔ s ∈ used os := by
      simp only [used, List.mem_filterMap]
      refine exists_congr fun b => and_congr_right fun hb => ?_
      by_cases hba : b = a
      · rw [hba, hself, hrenamed]
        exact iff_of_false (fun h => hsnew (Option.some.inj h).symm)
          fun h => hsold (Option.some.inj h).symm
      · rw [written?_rename_of_ne ha hb hba hold hnew]
    have hmap := map_readExtra_rename hused hused' hothers (honly new hnew hne.symm)
    exact congrArg (fun extras => (collect extras).map (List.filterMap id)) hmap
  · rw [readExtras_of_ne ht, readExtras_of_ne ht]

end Renamed

/-- The spelling under which an attribute is written does not matter, if it is the only one. -/
theorem readRecord_rename
    (ha : a ∈ t.attributes) (honly : a.IsOnlyWrittenAs entries old) (hnew : new ∈ a.spellings) :
    readRecord t (offers (rename old new entries)) = .ok r ↔
      readRecord t entries.offers = .ok r := by
  by_cases hne : old = new
  · rw [hne, rename_self]
  have hold := honly.mem
  have hseveral : a.spellings ≠ [a.name] := by
    intro hsingle
    rw [hsingle, List.mem_singleton] at hold hnew
    exact hne (hold.trans hnew.symm)
  have hfind {s : String} (hs : s ∈ a.spellings) :
      Offer.find? s (expand t entries.offers) = (get? s entries).map Offer.of := by
    rw [find?_expand_of_several ha hseveral hs, find?_offers]
  have hothers (x : String) (hx : x ∈ a.spellings) (hother : x ≠ old) :
      Offer.find? x (expand t entries.offers) = none := by
    rw [hfind hx, honly.only x hx hother]
    rfl
  obtain ⟨v, hv⟩ := Option.ne_none_iff_exists'.mp honly.written
  have hwritten : Offer.find? old (expand t entries.offers) = some (Offer.of v) := by
    rw [hfind hold, hv]
    rfl
  have hexpand := expand_rename (RecordType.not_mem_shorthands ha hseveral hold)
    (RecordType.not_mem_shorthands ha hseveral hnew) t entries.offers
  refine readRecord_congr (fun b hb x => ?_) ?_
  · rw [offers_rename, hexpand]
    exact readAttribute_rename hnew hne hothers hwritten ha hold hb x
  · rw [offers_rename, hexpand]
    exact readExtras_rename hnew hne hothers hwritten ha hold

/-! ## Names that count -/

/-- The same parts are written under some names. -/
def Agree (names : String → Prop) (os other : List (Key × Offer)) : Prop :=
  ∀ name, names name → Offer.find? name other = Offer.find? name os

section Agree

variable {names : String → Prop} (hagree : Agree names os other)

include hagree

theorem Agree.valueOf {name : String} (hname : names name) :
    Offer.valueOf name other = Offer.valueOf name os := by
  rw [Offer.valueOf, Offer.valueOf, hagree name hname]

theorem Agree.put (key : String) (o : Offer) :
    Agree names (Offer.put key o os) (Offer.put key o other) := by
  intro name hname
  by_cases hkey : name = key
  · rw [hkey, find?_put_self, find?_put_self]
  · rw [find?_put_of_ne hkey, find?_put_of_ne hkey, hagree name hname]

theorem Agree.fill {key : String} (hkey : names key) (o : Offer) :
    Agree names (if (Offer.valueOf key os).isPresent then os else Offer.put key o os)
      (if (Offer.valueOf key other).isPresent then other else Offer.put key o other) := by
  rw [hagree.valueOf hkey]
  split_ifs
  · exact hagree
  · exact hagree.put key o

theorem Agree.fillName
    (hfieldName : names "field_name") (hid : names "id") (hlabel : names "label") :
    Agree names (fillName os) (fillName other) := by
  unfold Reading.fillName
  rw [hagree _ hfieldName]
  cases Offer.find? "field_name" os with
  | none => exact hagree
  | some o =>
      dsimp only
      split_ifs
      · exact (hagree.fill hid o).fill hlabel o
      · exact hagree

theorem Agree.fillHeading
    (hfieldName : names "field_name") (hlabel : names "label") (htext : names "text") :
    Agree names (fillHeading os) (fillHeading other) := by
  unfold Reading.fillHeading
  simp only [List.filterMap_cons, List.filterMap_nil, hagree _ hfieldName, hagree _ hlabel]
  exact hagree.fill htext _

theorem Agree.expand
    (hfield : ∀ f, t = .field f → names "field_name" ∧ names "id" ∧ names "label")
    (hheading : t = .field .heading → names "text") :
    Agree names (expand t os) (expand t other) := by
  unfold Reading.expand
  split
  next =>
    obtain ⟨hfieldName, hid, hlabel⟩ := hfield _ rfl
    exact (hagree.fillHeading hfieldName hlabel (hheading rfl)).fillName hfieldName hid hlabel
  next =>
    obtain ⟨hfieldName, hid, hlabel⟩ := hfield _ rfl
    exact hagree.fillName hfieldName hid hlabel
  next => exact hagree

end Agree

theorem heeds_of_single (ha : a ∈ t.attributes) {name : String} (hsingle : a.spellings = [name]) :
    t.Heeds entries name := by
  rw [← List.nil_append [name]] at hsingle
  exact .spelling ha hsingle (List.forall_mem_nil _)

theorem heeds_id (entries : Entries) (f : FieldType) : (RecordType.field f).Heeds entries "id" :=
  heeds_of_single (List.mem_append_left _ (List.mem_append_left _ (.tail _ (.head _)))) rfl

theorem heeds_label (entries : Entries) (f : FieldType) :
    (RecordType.field f).Heeds entries "label" :=
  heeds_of_single
    (List.mem_append_left _ (List.mem_append_left _ (.tail _ (.tail _ (.head _))))) rfl

theorem heeds_text (entries : Entries) : (RecordType.field .heading).Heeds entries "text" := by
  have htext : ∃ a ∈ (RecordType.field .heading).attributes, a.spellings = ["text"] := by decide
  obtain ⟨a, ha, hsingle⟩ := htext
  exact heeds_of_single ha hsingle

theorem typeAttribute_mem (f : FieldType) : f.typeAttribute ∈ (RecordType.field f).attributes :=
  List.mem_append_right _ (.head _)

theorem spellings_typeAttribute (f : FieldType) : f.typeAttribute.spellings = ["type"] := by
  cases f <;> rfl

theorem heeds_type (entries : Entries) (f : FieldType) :
    (RecordType.field f).Heeds entries "type" :=
  heeds_of_single (typeAttribute_mem f) (spellings_typeAttribute f)

section Heeds

variable (hsame : ∀ name, t.Heeds entries name → get? name others = get? name entries)

include hsame

theorem agree_offers : Agree (t.Heeds entries) entries.offers others.offers := by
  intro name hname
  rw [find?_offers, find?_offers, hsame name hname]

theorem agree_expand :
    Agree (t.Heeds entries) (expand t entries.offers) (expand t others.offers) := by
  refine (agree_offers hsame).expand ?_ ?_
  · rintro f rfl
    exact ⟨.fieldName, heeds_id entries f, heeds_label entries f⟩
  · rintro rfl
    exact heeds_text entries

/-- The first spelling that is written is the same one, since those before it count as well. -/
theorem written?_of_heeds (ha : a ∈ t.attributes) :
    written? a others.offers = written? a entries.offers := by
  suffices hfrom : ∀ after before, a.spellings = before ++ after →
      (∀ x ∈ before, get? x entries = none) →
        (after.findSome? fun s => (Offer.find? s others.offers).map fun o => (s, o)) =
          after.findSome? fun s => (Offer.find? s entries.offers).map fun o => (s, o) from
    hfrom a.spellings [] rfl (List.forall_mem_nil _)
  intro after
  induction after with
  | nil => exact fun _ _ _ => rfl
  | cons s after ih =>
      intro before hspellings hbefore
      rw [List.findSome?_cons, List.findSome?_cons,
        agree_offers hsame s (.spelling ha hspellings hbefore), find?_offers]
      cases hs : get? s entries with
      | some v => rfl
      | none =>
          refine ih (before ++ [s]) (by rw [hspellings, List.append_cons]) fun x hx => ?_
          rcases List.mem_append.mp hx with hx | hx
          · exact hbefore x hx
          · rw [List.mem_singleton.mp hx, hs]

theorem readRecord_of_heeds (ht : t ≠ .field .unrecognized) :
    readRecord t others.offers = .ok r ↔ readRecord t entries.offers = .ok r := by
  refine readRecord_congr (fun a ha x => ?_) (by rw [readExtras_of_ne ht, readExtras_of_ne ht])
  have hwritten : written? a (expand t others.offers) = written? a (expand t entries.offers) := by
    by_cases hsingle : a.spellings = [a.name]
    · refine written?_congr fun s hs => ?_
      rw [hsingle, List.mem_singleton] at hs
      exact agree_expand hsame s (hs ▸ heeds_of_single ha hsingle)
    · have hfind (es : Entries) : written? a (expand t es.offers) = written? a es.offers :=
        written?_congr fun _ hs => find?_expand_of_several ha hsingle hs es.offers
      rw [hfind, hfind, written?_of_heeds hsame ha]
  rw [readAttribute_eq_ok_iff, readAttribute_eq_ok_iff, hwritten]

end Heeds

/-! ## The first spelling -/

theorem exists_attribute_of_several
    (ha : a ∈ t.attributes) (hseveral : a.spellings ≠ [a.name])
    (hread : readRecord t entries.offers = .ok r) :
    ∃ e, r.element.attribute? a.name = some e ∧ a.Reads entries e := by
  obtain ⟨attributes, extras, hattributes, -, rfl⟩ := readRecord_eq_ok_iff.mp hread
  obtain ⟨x, hmem, hx⟩ := exists_of_mem_left hattributes ha
  have hnames : attributes.map Prod.fst = t.names :=
    map_eq_map_of_forall₂ hattributes fun _ _ h => (readAttribute_eq_ok_iff.mp h).1
  have hwritten : written? a (expand t entries.offers) = written? a entries.offers :=
    written?_congr fun _ hs => find?_expand_of_several ha hseveral hs _
  rw [readAttribute_eq_ok_iff, hwritten, ← readAttribute_eq_ok_iff,
    readAttribute_offers_eq_ok_iff] at hx
  refine ⟨x.2, ?_, hx.2⟩
  rw [← hx.1]
  exact Element.attribute?_of_mem t extras (hnames ▸ t.nodup_names) (List.of_mem_zip hmem).2

/-! ## Mappings that become records -/

/-- A mapping that is read as a kind becomes a record of the type.  Fields say their type. -/
inductive Makes (entries : Entries) : Kind → RecordType → Prop
  | record (t : RecordType) : Makes entries (.record t) t
  | field : Makes entries .field (.field (fieldType (entries.getD "type")))

theorem Makes.readAs_eq_ok_iff (hmakes : Makes entries k t) {e : Element} :
    (Value.map entries).readAs k = .ok e ↔
      ∃ exact, readRecord t entries.offers = .ok ⟨e, exact⟩ := by
  rw [Value.readAs, map_element_eq_ok_iff]
  cases hmakes with
  | record t => rw [ofValue_record]
  | field =>
      rw [ofValue_of_single (k := .field) rfl rfl nofun]
      simp only [readKind, partsOf, readField, valueOf_offers, under_eq_ok_iff]

theorem Makes.congr
    (hmakes : Makes entries k t)
    (htype : ∀ f, t = .field f → others.getD "type" = entries.getD "type") :
    Makes others k t := by
  cases hmakes with
  | record => exact .record t
  | field =>
      rw [← htype _ rfl]
      exact .field

theorem Makes.rename
    (hmakes : Makes entries k t) (ha : a ∈ t.attributes) (hold : old ∈ a.spellings)
    (hnew : new ∈ a.spellings) :
    Makes (Entries.rename old new entries) k t := by
  refine hmakes.congr ?_
  rintro f rfl
  by_cases hne : old = new
  · rw [hne, rename_self]
  have hsingle := spellings_typeAttribute f
  have htype {s : String} (hs : s ∈ a.spellings) : "type" ≠ s := by
    rintro rfl
    by_cases hself : f.typeAttribute = a
    · rw [← hself, hsingle, List.mem_singleton] at hold hnew
      exact hne (hold.trans hnew.symm)
    · refine RecordType.not_mem_spellings ha (typeAttribute_mem f) hself hs ?_
      rw [hsingle]
      exact List.mem_singleton_self _
  rw [← valueOf_offers, ← valueOf_offers, offers_rename,
    Offer.valueOf_rename (htype hold) (htype hnew)]

end Reading

open Reading Entries

/-- If an attribute is written under one of its spellings, the mapping is read alike with any other
of them.  If it is written under several, it is read from the first one, and what is under the
others is not looked at.  Nor is what is under names that are no spellings, except by unrecognized
fields: a record is the same for all mappings that agree in what counts. -/
theorem spellings_read_alike
    {entries : Entries} {k : Kind} {t : RecordType} (hmakes : Makes entries k t) :
    (∀ a ∈ t.attributes, ∀ old new, a.IsOnlyWrittenAs entries old → new ∈ a.spellings →
      ∀ e, (Value.map (rename old new entries)).readAs k = .ok e ↔
        (Value.map entries).readAs k = .ok e) ∧
      (∀ a ∈ t.attributes, a.spellings ≠ [a.name] → ∀ s v, a.spelling? entries = some (s, v) →
        ∀ e, (Value.map entries).readAs k = .ok e →
          ∃ f exact, e.attribute? a.name = some f ∧ ofValue v a.shape = .ok ⟨f, exact⟩) ∧
      (t ≠ .field .unrecognized → ∀ others : Entries,
        (∀ name, t.Heeds entries name → get? name others = get? name entries) →
          ∀ e, (Value.map others).readAs k = .ok e ↔ (Value.map entries).readAs k = .ok e) := by
  refine ⟨fun a ha old new honly hnew e => ?_, fun a ha hseveral s v hspelling e hread => ?_,
    fun ht others hsame e => ?_⟩
  · rw [(hmakes.rename ha honly.mem hnew).readAs_eq_ok_iff, hmakes.readAs_eq_ok_iff]
    exact exists_congr fun exact => readRecord_rename ha honly hnew
  · obtain ⟨exact, hrecord⟩ := hmakes.readAs_eq_ok_iff.mp hread
    obtain ⟨f, hattribute, hreads⟩ := exists_attribute_of_several ha hseveral hrecord
    rw [Attribute.Reads, hspelling] at hreads
    obtain ⟨exact, hvalue⟩ := hreads
    exact ⟨f, exact, hattribute, hvalue⟩
  · have hother : Makes others k t := by
      refine hmakes.congr ?_
      rintro f rfl
      rw [Entries.getD, Entries.getD, hsame _ (heeds_type entries f)]
    rw [hother.readAs_eq_ok_iff, hmakes.readAs_eq_ok_iff]
    exact exists_congr fun exact => readRecord_of_heeds hsame ht

/-- How the unit of a duration is written. -/
def displayUnit : Attribute :=
  (Attribute.may "display_unit" (.word ["hours", "minutes", "seconds"])).spelled
    ["display_unit", "unit"]

/-- A duration with its unit under the second spelling. -/
def inHours : Entries := named [("type", .text "duration_input"), ("unit", .text "hours")]

/-- A duration with null for its unit. -/
def unitless : Entries := named [("type", .text "duration_input"), ("display_unit", .null)]

/-- The same with a number under the other spelling, and with a name that is no spelling. -/
def shadowed : Entries := unitless ++ named [("unit", .integer 5), ("note", .list [])]

theorem not_heeds_shadowed {name : String} (hname : name ∈ ["unit", "note"]) :
    ¬ (RecordType.field .durationInput).Heeds shadowed name := by
  have hspellings : ∀ a ∈ (RecordType.field .durationInput).attributes,
      name ∈ a.spellings → a.spellings = ["display_unit", "unit"] := by
    rcases List.mem_pair.mp hname with rfl | rfl <;> decide
  intro hheeds
  cases hheeds with
  | fieldName => exact absurd hname (by decide)
  | @spelling _ a before _ after ha hsplit hfirst =>
      have hpair := hspellings a ha (hsplit ▸ List.mem_append_right _ List.mem_cons_self)
      rw [hsplit] at hpair
      cases before with
      | nil =>
          rw [(List.cons_eq_cons.mp hpair).1] at hname
          exact absurd hname (by decide)
      | cons s before =>
          rw [(List.cons_eq_cons.mp hpair).1] at hfirst
          exact absurd (hfirst _ List.mem_cons_self) (by decide)

theorem get?_unitless
    {name : String} (hheeds : (RecordType.field .durationInput).Heeds shadowed name) :
    get? name unitless = get? name shadowed := by
  have hname : name ∉ ["unit", "note"] := fun h => not_heeds_shadowed h hheeds
  rw [shadowed, get?_append, get?_named_of_not_mem hname, Option.or_none]

/-- The unit is read from the first spelling that is written, although null stands there. -/
theorem spellings_read_alike_shadowed :
    Makes inHours .field (.field .durationInput) ∧
      displayUnit.IsOnlyWrittenAs inHours "unit" ∧ "display_unit" ∈ displayUnit.spellings ∧
      (∃ e, (Value.map (rename "unit" "display_unit" inHours)).readAs .field = .ok e ∧
        e.attribute? "display_unit" = some (.text "hours")) ∧
      Makes shadowed .field (.field .durationInput) ∧
      displayUnit.spelling? shadowed = some ("display_unit", .null) ∧
      (∀ name, (RecordType.field .durationInput).Heeds shadowed name →
        get? name unitless = get? name shadowed) ∧
      ∃ e, (Value.map unitless).readAs .field = .ok e ∧
        ∃ f exact, e.attribute? "display_unit" = some f ∧
          ofValue .null displayUnit.shape = .ok ⟨f, exact⟩ := by
  have hhours : Makes inHours .field (.field .durationInput) := .field
  have hshadowed : Makes shadowed .field (.field .durationInput) := .field
  have hunit : displayUnit ∈ (RecordType.field .durationInput).attributes := by decide
  have honly : displayUnit.IsOnlyWrittenAs inHours "unit" := ⟨by decide, nofun, by decide⟩
  have hspelling : displayUnit.spelling? shadowed = some ("display_unit", .null) := rfl
  obtain ⟨e, he, hread⟩ : ∃ e, (Value.map inHours).readAs .field = .ok e ∧
      e.attribute? "display_unit" = some (.text "hours") := ⟨_, rfl, rfl⟩
  obtain ⟨f, hf⟩ : ∃ f, (Value.map shadowed).readAs .field = .ok f := ⟨_, rfl⟩
  obtain ⟨hrenamed, -, -⟩ := spellings_read_alike hhours
  obtain ⟨-, hfirst, hagree⟩ := spellings_read_alike hshadowed
  refine ⟨hhours, honly, by decide, ⟨e, ?_, hread⟩, hshadowed, hspelling,
    fun name => get?_unitless, f, ?_, ?_⟩
  · exact (hrenamed _ hunit _ _ honly (by decide) e).mpr he
  · exact (hagree (by decide) unitless (fun name => get?_unitless) f).mpr hf
  · exact hfirst _ hunit (by decide) _ _ hspelling f hf

end Wireframe
