import Mathlib.Tactic
import Wireframe.Proofs.Builders
import Wireframe.Proofs.PartFaults
import Wireframe.Verdict

/-!
# Fields of unknown type

A field whose type is no known one is read as an unrecognized field.  It has the attributes that
all fields share, and it keeps everything else as it is written.  So nothing at the field is at
fault but the values of shared attributes, and of these exactly the ones that are refused.
-/

namespace Wireframe

/-- A field with names for its attributes, whose type is a text that names no known type. -/
structure Entries.IsFuture (entries : Entries) : Prop where
  keys : ∀ e ∈ entries, ∃ name, e.1 = .text name
  type : ∃ tag, Entries.get? "type" entries = some (.text tag) ∧
    FieldType.ofTag tag = .unrecognized

namespace Reading

variable {entries : Entries} {f : Fault}

/-- The name of a field is filled in under texts. -/
theorem exists_text_of_mem_fillName
    {offers : List (Key × Offer)} (hoffers : ∀ o ∈ offers, ∃ name, o.1 = .text name) :
    ∀ o ∈ fillName offers, ∃ name, o.1 = .text name := by
  intro o ho
  rcases key_of_mem_fillName ho with hname | ⟨p, hp, hkey⟩
  · exact hname
  · exact hkey ▸ hoffers p hp

theorem not_hasFault_readExtras
    {offers : List (Key × Offer)} (hoffers : ∀ o ∈ offers, ∃ name, o.1 = .text name)
    (type : RecordType) :
    ¬ HasFault (readExtras type offers) f := by
  unfold readExtras
  split
  · rw [hasFault_map_iff, hasFault_collect_iff]
    rintro ⟨o, ho, hfault⟩
    obtain ⟨name, hname⟩ := hoffers o ho
    unfold readExtra at hfault
    rw [hname] at hfault
    exact not_hasFault_ok _ hfault
  · exact not_hasFault_ok []

/-- A shared attribute that is not written has its default. -/
theorem exists_default_of_shared
    {a : Attribute} (ha : a ∈ FieldType.sharedAttributes .unrecognized) :
    ∃ e, Element.ofDefault? a.default = some e := by
  have hall : ∀ a ∈ FieldType.sharedAttributes .unrecognized,
      (Element.ofDefault? a.default).isSome = true := by decide
  exact Option.isSome_iff_exists.mp (hall a ha)

/-- The shared attribute that is written is refused with the fault. -/
def Refuses (entries : Entries) (a : Attribute) (f : Fault) : Prop :=
  ∃ spelling o below, written? a (fillName entries.offers) = some (spelling, o) ∧
    f.location = .name spelling :: below ∧ HasFault (o.read a.shape) ⟨below, f.cause⟩

theorem fieldType_of_isFuture (hfuture : entries.IsFuture) :
    fieldType (entries.getD "type") = .unrecognized := by
  obtain ⟨tag, hget, htag⟩ := hfuture.type
  rw [Entries.getD_of_get? hget]
  exact htag

/-- What is at fault in a field of unknown type are the values of shared attributes. -/
theorem hasFault_unrecognized_iff (hfuture : entries.IsFuture) :
    HasFault (readRecord (.field .unrecognized) entries.offers) f ↔
      ∃ a ∈ FieldType.sharedAttributes .unrecognized, Refuses entries a f := by
  have hoffers : ∀ o ∈ entries.offers, ∃ name, o.1 = .text name := by
    intro o ho
    obtain ⟨e, he, rfl⟩ := List.mem_map.mp ho
    exact hfuture.keys e he
  have hexpand : expand (.field .unrecognized) entries.offers = fillName entries.offers := rfl
  have hextras := not_hasFault_readExtras (f := f) (exists_text_of_mem_fillName hoffers)
    (.field .unrecognized)
  -- The type is a text, so it is read.
  have htype : ¬ HasFault (readAttribute (fillName entries.offers)
      (FieldType.typeAttribute .unrecognized)) f := by
    obtain ⟨tag, hget, -⟩ := hfuture.type
    have hwritten : written? (FieldType.typeAttribute .unrecognized) (fillName entries.offers) =
        some ("type", Offer.of (.text tag)) := by
      rw [← hexpand, written?_expand_of_single rfl (by decide)]
      exact congrArg (Option.map _) hget
    rintro hfault
    rcases hasFault_readAttribute_iff.mp hfault with
      ⟨spelling, o, below, hfound, -, hvalue⟩ | ⟨hnone, -⟩
    · cases hwritten.symm.trans hfound
      exact not_hasFault_ok _ hvalue
    · cases hwritten.symm.trans hnone
  rw [hasFault_readRecord_iff, hexpand, or_iff_left hextras]
  constructor
  · rintro ⟨a, ha, hfault⟩
    have hcases : a ∈ FieldType.sharedAttributes .unrecognized ∨
        a = FieldType.typeAttribute .unrecognized := by
      simpa [RecordType.attributes, FieldType.attributes, FieldType.familyAttributes,
        FieldType.ownAttributes] using ha
    rcases hcases with hshared | rfl
    · refine ⟨a, hshared, ?_⟩
      rcases hasFault_readAttribute_iff.mp hfault with hwritten | ⟨-, hdefault, -⟩
      · exact hwritten
      · obtain ⟨e, he⟩ := exists_default_of_shared hshared
        cases he.symm.trans hdefault
    · exact absurd hfault htype
  · rintro ⟨a, ha, hrefuses⟩
    refine ⟨a, ?_, hasFault_readAttribute_iff.mpr (.inl hrefuses)⟩
    simp [RecordType.attributes, FieldType.attributes, ha]

/-! ## What is kept -/

theorem mem_put_of_ne
    {name : String} {offer : Offer} {offers : List (Key × Offer)} {o : Key × Offer}
    (ho : o ∈ offers) (hne : o.1.text? ≠ some name) :
    o ∈ Offer.put name offer offers := by
  induction offers with
  | nil => cases ho
  | cons p rest ih =>
      unfold Offer.put
      rcases List.mem_cons.mp ho with rfl | ho
      · rw [if_neg (by simpa using hne)]
        exact List.mem_cons_self
      · split_ifs
        · exact List.mem_cons_of_mem _ ho
        · exact List.mem_cons_of_mem _ (ih ho)

theorem mem_fillName
    {offers : List (Key × Offer)} {o : Key × Offer} (ho : o ∈ offers)
    (hid : o.1.text? ≠ some "id") (hlabel : o.1.text? ≠ some "label") :
    o ∈ fillName offers := by
  unfold fillName
  split
  · exact ho
  next offer _ =>
    have hput (os : List (Key × Offer)) (key : String) (hos : o ∈ os)
        (hkey : o.1.text? ≠ some key) :
        o ∈ (if (Offer.valueOf key os).isPresent then os else Offer.put key offer os) := by
      split_ifs
      · exact hos
      · exact mem_put_of_ne hos hkey
    split_ifs
    · exact hput _ "label" (hput _ "id" ho hid) hlabel
    · exact ho

/-- What is written under no spelling of an attribute is kept as it is. -/
theorem mem_extras
    {offers : List (Key × Offer)} {extras : List (String × Value)}
    (hextras : readExtras (.field .unrecognized) offers = .ok extras) {name : String} {o : Offer}
    (ho : (.text name, o) ∈ offers)
    (hname : ∀ a ∈ (RecordType.field .unrecognized).attributes, name ∉ a.spellings) :
    (name, o.value) ∈ extras := by
  unfold readExtras at hextras
  simp only at hextras
  cases hcollect : collect (offers.map (readExtra
      ((RecordType.field .unrecognized).attributes.filterMap fun a =>
        (written? a offers).map Prod.fst))) with
  | error faults =>
      rw [hcollect] at hextras
      cases hextras
  | ok results =>
      rw [hcollect] at hextras
      cases hextras
      have hunused : name ∉ (RecordType.field .unrecognized).attributes.filterMap fun a =>
          (written? a offers).map Prod.fst := by
        intro hused
        obtain ⟨a, ha, hwritten⟩ := List.mem_filterMap.mp hused
        obtain ⟨⟨spelling, p⟩, hfound, rfl⟩ := Option.map_eq_some_iff.mp hwritten
        exact hname a ha (written?_eq_some hfound).1
      obtain ⟨result, hresult, hread⟩ :=
        exists_of_mem_left (collect_map_eq_ok_iff.mp hcollect) ho
      refine List.mem_filterMap.mpr ⟨result, (List.of_mem_zip hresult).2, ?_⟩
      unfold readExtra at hread
      simp only [Key.text?, List.contains_eq_mem, hunused, decide_false] at hread
      cases hread
      rfl

theorem exists_ok_of_not_hasFault
    {v : Value} {k : Kind} (hnone : ∀ f, ¬ HasFault (ofValue v (.one k)) f) :
    ∃ r, ofValue v (.one k) = .ok r := by
  cases hread : ofValue v (.one k) with
  | ok r => exact ⟨r, rfl⟩
  | error faults =>
      obtain ⟨f, hf⟩ := List.exists_mem_of_ne_nil _ ((offerTells_of v).one k faults hread)
      exact absurd ⟨faults, hread, hf⟩ (hnone f)

/-- A field of unknown type none of whose shared attributes is refused is read as an
unrecognized field that keeps everything else. -/
theorem exists_unrecognized
    (hfuture : entries.IsFuture)
    (haccepted : ∀ a ∈ FieldType.sharedAttributes .unrecognized, ∀ f, ¬ Refuses entries a f) :
    ∃ attributes extras,
      ofValue (.map entries) (.one .field) =
        .ok ⟨.record (.field .unrecognized) attributes extras, true⟩ ∧
      ∀ name v, (.text name, v) ∈ entries →
        (∀ a ∈ (RecordType.field .unrecognized).attributes, name ∉ a.spellings) →
          (name, v) ∈ extras := by
  have hfield : ofValue (.map entries) (.one .field) =
      under (.name FieldType.unrecognized.tag)
        (readRecord (.field .unrecognized) entries.offers) := by
    rw [ofValue_field entries rfl, fieldType_of_isFuture hfuture]
  have hnone (f : Fault) : ¬ HasFault (ofValue (.map entries) (.one .field)) f := by
    rw [hfield, hasFault_under_iff]
    rintro ⟨below, -, hfault⟩
    obtain ⟨a, ha, hrefuses⟩ := (hasFault_unrecognized_iff hfuture).mp hfault
    exact haccepted a ha _ hrefuses
  obtain ⟨r, hread⟩ := exists_ok_of_not_hasFault hnone
  rw [hfield, under_eq_ok_iff, readRecord_eq_ok_iff] at hread
  obtain ⟨attributes, extras, hattributes, hextras, rfl⟩ := hread
  refine ⟨attributes, extras, ?_, fun name v hmem hname => ?_⟩
  · rw [hfield, under_eq_ok_iff, readRecord_eq_ok_iff]
    exact ⟨attributes, extras, hattributes, hextras, rfl⟩
  · have hne (other : String)
        (hother : ∃ a ∈ (RecordType.field .unrecognized).attributes, other ∈ a.spellings) :
        (Key.text name).text? ≠ some other := by
      rintro ⟨⟩
      obtain ⟨a, ha, hmem⟩ := hother
      exact hname a ha hmem
    have hid := hne "id" (by decide)
    have hlabel := hne "label" (by decide)
    have hoffer : (Key.text name, Offer.of v) ∈ fillName entries.offers :=
      mem_fillName (List.mem_map.mpr ⟨_, hmem, rfl⟩) hid hlabel
    exact mem_extras hextras hoffer hname

end Reading

namespace Document

open Reading

variable {canonical : Value} {l : Location} {entries : Entries}

/-- What a document is refused for at a field of unknown type or below it are the values of
shared attributes of the field. -/
theorem hasFault_below_unrecognized_iff
    (hplace : LeadsTo canonical (.one (.record .document)) l (.map entries) (.one .field))
    (hfuture : entries.IsFuture) {below : Location} {cause : Cause} :
    HasFault (build canonical) ⟨l ++ below, cause⟩ ↔
      ∃ rest, below = .name FieldType.unrecognized.tag :: rest ∧
        ∃ a ∈ FieldType.sharedAttributes .unrecognized, Refuses entries a ⟨rest, cause⟩ := by
  rw [hasFault_build_iff, hplace.hasFault_iff, ofValue_field entries rfl,
    fieldType_of_isFuture hfuture, hasFault_under_iff]
  simp only [hasFault_unrecognized_iff hfuture]

/-- A field of unknown type is refused for nothing but the values of the attributes that all
fields share.  If these are accepted, no fault is told at the field or below it, and it is read
as an unrecognized field that keeps everything else as it is written. -/
theorem keeps_unrecognized
    (hplace : LeadsTo canonical (.one (.record .document)) l (.map entries) (.one .field))
    (hfuture : entries.IsFuture)
    (haccepted : ∀ a ∈ FieldType.sharedAttributes .unrecognized, ∀ f, ¬ Refuses entries a f) :
    (∀ below cause, ¬ HasFault (build canonical) ⟨l ++ below, cause⟩) ∧
      ∃ attributes extras,
        ofValue (.map entries) (.one .field) =
          .ok ⟨.record (.field .unrecognized) attributes extras, true⟩ ∧
        ∀ name v, (.text name, v) ∈ entries →
          (∀ a ∈ (RecordType.field .unrecognized).attributes, name ∉ a.spellings) →
            (name, v) ∈ extras := by
  refine ⟨fun below cause hfault => ?_, exists_unrecognized hfuture haccepted⟩
  obtain ⟨rest, -, a, ha, hrefuses⟩ :=
    (hasFault_below_unrecognized_iff hplace hfuture).mp hfault
  exact haccepted a ha _ hrefuses

/-- A screen of one field. -/
def homeScreen (field : Value) : Entries :=
  [(.text "title", .text "Home"), (.text "fields", .list [field])]

/-- A document with a screen of one field. -/
def oneField (field : Value) : Value :=
  .map [(.text "view", .map [(.text "home", .map (homeScreen field))])]

/-- A field of unknown type that has its name and an attribute that no other field has. -/
def hologram : Entries :=
  [(.text "field_name", .text "Scan"), (.text "type", .text "hologram"),
    (.text "class_name", .null), (.text "depth", .list [.integer 3])]

theorem leadsTo_oneField (entries : Entries) :
    LeadsTo (oneField (.map entries)) (.one (.record .document))
      [.name "view", .name "home", .name "fields", .place 0] (.map entries) (.one .field) := by
  obtain ⟨view, hview, hnamed, hspelled, hkinds⟩ :
      ∃ a ∈ RecordType.document.attributes, a.name = "view" ∧ a.spellings = ["view"] ∧
        a.shape.kinds = [.tableOf (.record .screen)] := by decide
  obtain ⟨fields, hfields, hnamed', hspelled', hkinds'⟩ :
      ∃ a ∈ RecordType.screen.attributes, a.name = "fields" ∧ a.spellings = ["fields"] ∧
        a.shape.kinds = [.listOf .field] := by decide
  rw [← hnamed] at hspelled ⊢
  rw [← hnamed'] at hspelled' ⊢
  have hitem : LeadsTo (.list [.map entries]) fields.shape [.place 0] (.map entries)
      (.one .field) :=
    .item hkinds' rfl rfl (.here _ _)
  have hscreen : LeadsTo (.map (homeScreen (.map entries))) (.one (.record .screen))
      [.name fields.name, .place 0] (.map entries) (.one .field) :=
    .part rfl hfields hspelled' (by rw [hnamed']; decide) nofun (by rw [hnamed']; rfl) hitem
  have hscreens : LeadsTo (.map [(.text "home", .map (homeScreen (.map entries)))]) view.shape
      [.name "home", .name fields.name, .place 0] (.map entries) (.one .field) :=
    .entry hkinds List.mem_cons_self (fun e he _ => List.mem_singleton.mp he) hscreen
  exact .part rfl hview hspelled (by rw [hnamed]; decide) nofun (by rw [hnamed]; rfl) hscreens

theorem exists_text_of_all
    (hall : (entries.all fun e => e.1.text?.isSome) = true) :
    ∀ e ∈ entries, ∃ name, e.1 = .text name := by
  intro e he
  have hsome := List.all_eq_true.mp hall e he
  unfold Key.text? at hsome
  split at hsome
  next name hname => exact ⟨name, hname⟩
  next => cases hsome

/-- Every shared attribute that is written is read. -/
theorem not_refuses_of_all
    (hall : ((FieldType.sharedAttributes .unrecognized).all fun a =>
      (written? a (fillName entries.offers)).all fun p => (p.2.read a.shape).isOk) = true) :
    ∀ a ∈ FieldType.sharedAttributes .unrecognized, ∀ f, ¬ Refuses entries a f := by
  rintro a ha f ⟨spelling, o, below, hwritten, -, faults, hfail, -⟩
  have hok := List.all_eq_true.mp hall a ha
  simp [hwritten, hfail, Except.isOk, Except.toBool] at hok

theorem keeps_unrecognized_hologram :
    hologram.IsFuture ∧
      (∀ below cause, ¬ HasFault (build (oneField (.map hologram)))
        ⟨[.name "view", .name "home", .name "fields", .place 0] ++ below, cause⟩) ∧
      ∃ attributes extras,
        ofValue (.map hologram) (.one .field) =
          .ok ⟨.record (.field .unrecognized) attributes extras, true⟩ ∧
        ("depth", .list [.integer 3]) ∈ extras := by
  have hfuture : hologram.IsFuture := ⟨exists_text_of_all (by decide), "hologram", rfl, by decide⟩
  have haccepted : ∀ a ∈ FieldType.sharedAttributes .unrecognized, ∀ f, ¬ Refuses hologram a f :=
    not_refuses_of_all (by decide +kernel)
  obtain ⟨hnone, attributes, extras, hread, hkept⟩ :=
    keeps_unrecognized (leadsTo_oneField hologram) hfuture haccepted
  refine ⟨hfuture, hnone, attributes, extras, hread, hkept _ _ ?_ (by decide)⟩
  exact List.mem_cons_of_mem _ (List.mem_cons_of_mem _ (List.mem_cons_of_mem _ List.mem_cons_self))

/-- A field of unknown type that does not say clearly whether it is required. -/
def undecided : Entries :=
  [(.text "id", .text "a"), (.text "type", .text "hologram"), (.text "label", .text "A"),
    (.text "required", .text "maybe")]

/-- The rules find nothing wrong with the document, and yet it is rejected for an attribute of
the field. -/
theorem exists_refused_unrecognized :
    undecided.IsFuture ∧ (oneField (.map undecided)).check .default [] = .ok [] ∧
      ∃ ds renamings, Verdict.ofTree .default (oneField (.map undecided)) =
          .ok (.rejected ds, renamings) ∧
        ∃ d ∈ ds, d.path = "view.home.fields[0].required" := by
  have hfuture : undecided.IsFuture :=
    ⟨exists_text_of_all (by decide), "hologram", rfl, by decide⟩
  obtain ⟨⟨verdict, renamings⟩, htree, hreport⟩ : ∃ r,
      Verdict.ofTree .default (oneField (.map undecided)) = .ok r ∧
        (match r.1 with
          | .rejected ds => ds.any fun d => d.path == "view.home.fields[0].required"
          | .accepted _ => false) = true :=
    Yaml.exists_eq_ok_of_any (by decide +kernel)
  refine ⟨hfuture, Yaml.eq_ok_of_toOption (by decide +kernel), ?_⟩
  split at hreport
  next ds hverdict =>
    cases hverdict
    obtain ⟨d, hd, hpath⟩ := List.any_eq_true.mp hreport
    exact ⟨ds, renamings, htree, d, hd, beq_iff_eq.mp hpath⟩
  next => cases hreport

end Document

end Wireframe
