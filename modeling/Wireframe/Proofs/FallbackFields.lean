import Mathlib.Tactic
import Wireframe.Proofs.PlainTree
import Wireframe.Proofs.UnrecognizedFields

/-!
# What fields of unknown type keep

A field of unknown type has the attributes that all fields share.  Whatever else is written at it
stands in its plain tree as it is written, and nothing is added.  Its class has two spellings: the
shorter one is read only if the other one is not written, and is kept like any other attribute if
it is.
-/

namespace Wireframe

/-- The spellings under which an attribute of a field of unknown type may be written. -/
def sharedSpellings : List String :=
  (RecordType.field .unrecognized).attributes.flatMap Attribute.spellings

example : sharedSpellings =
    ["description", "id", "label", "required", "disabled", "readonly", "placeholder", "default",
      "validation", "visible_when", "class_name", "class", "type"] := by
  decide

/-- The plain tree of a field of unknown type has what is written at the field. -/
structure KeepsAuthored (entries dump : Entries) : Prop where
  type : Entries.get? "type" dump = some (.text entries.typeText)
  unknown : entries.typeText ∉ FieldType.known.map FieldType.tag
  -- Nothing is lost, and nothing is added.
  other : ∀ name, name ∉ sharedSpellings → Entries.get? name dump = Entries.get? name entries
  -- The shorter spelling of the class is kept if the other one is written too.
  shadowed : (Entries.get? "class_name" entries).isSome = true →
    Entries.get? "class" dump = Entries.get? "class" entries
  renamed : Entries.get? "class_name" entries = none →
    Entries.get? "class" dump = none ∧
      Entries.get? "class_name" dump = some ((Entries.get? "class" entries).elim .null fun v =>
        if v.isPresent then .text v.render else .null)

namespace Reading

variable {entries : Entries} {offers : List (Key × Offer)} {extras : List (String × Value)}

/-- The spellings under which attributes of a record are written. -/
def usedSpellings (type : RecordType) (offers : List (Key × Offer)) : List String :=
  type.attributes.filterMap fun a => (written? a offers).map Prod.fst

theorem mem_usedSpellings_iff {type : RecordType} {name : String} :
    name ∈ usedSpellings type offers ↔
      ∃ a ∈ type.attributes, ∃ o, written? a offers = some (name, o) := by
  simp [usedSpellings]

/-- Names outside the shared spellings are no names of attributes, and none is read from them. -/
theorem not_mem_of_not_shared {name : String} (hname : name ∉ sharedSpellings) :
    name ∉ (RecordType.field .unrecognized).names ∧
      name ∉ usedSpellings (.field .unrecognized) offers := by
  have hnames : ∀ a ∈ (RecordType.field .unrecognized).attributes, a.name ∈ a.spellings := by
    decide
  constructor
  · intro hmem
    obtain ⟨a, ha, rfl⟩ := List.mem_map.mp hmem
    exact hname (List.mem_flatMap.mpr ⟨a, ha, hnames a ha⟩)
  · intro hused
    obtain ⟨a, ha, o, hwritten⟩ := mem_usedSpellings_iff.mp hused
    exact hname (List.mem_flatMap.mpr ⟨a, ha, (written?_eq_some hwritten).1⟩)

theorem readExtra_eq_ok
    {used : List String} {o : Key × Offer} {result : Option (String × Value)}
    (hread : readExtra used o = .ok result) :
    ∃ name, o.1.text? = some name ∧
      result = if name ∈ used then none else some (name, o.2.value) := by
  unfold readExtra at hread
  cases htext : o.1.text? with
  | none => simp [htext, under, refuse, Except.mapError] at hread
  | some name =>
      rw [htext] at hread
      exact ⟨name, rfl, by simpa using (Except.ok.inj hread).symm⟩

/-- The extras are what is written under names that are no used spelling. -/
theorem get?_extras
    (hextras : readExtras (.field .unrecognized) offers = .ok extras) (name : String) :
    Entries.get? name (Entries.named extras) =
      if name ∈ usedSpellings (.field .unrecognized) offers then none
      else (Offer.find? name offers).map Offer.value := by
  unfold readExtras at hextras
  simp only at hextras
  rw [← usedSpellings] at hextras
  generalize usedSpellings (.field .unrecognized) offers = used at hextras ⊢
  obtain ⟨results, hcollect, rfl⟩ : ∃ results,
      collect (offers.map (readExtra used)) = .ok results ∧ results.filterMap id = extras := by
    cases hcollect : collect (offers.map (readExtra used)) with
    | error faults =>
        rw [hcollect] at hextras
        cases hextras
    | ok results =>
        rw [hcollect] at hextras
        exact ⟨results, rfl, Except.ok.inj hextras⟩
  have hread := collect_map_eq_ok_iff.mp hcollect
  clear hcollect hextras
  induction hread with
  | nil => simp [Offer.find?, Entries.get?, Entries.named]
  | @cons o result offers results hfirst _ ih =>
      obtain ⟨other, hother, rfl⟩ := readExtra_eq_ok hfirst
      by_cases hused : other ∈ used
      · by_cases hname : other = name
        · subst hname
          simpa [hused] using ih
        · simpa [hused, Offer.find?, hother, hname] using ih
      · by_cases hname : other = name
        · subst hname
          simp [hused, Offer.find?, hother, Entries.get?_named]
        · simpa [hused, Offer.find?, hother, hname, Entries.get?_named] using ih

/-- What is written under no name of an attribute is kept, unless an attribute is read from it. -/
theorem get?_dump_of_not_mem
    {attributes : List (String × Element)}
    (hrecord : Element.RecordFits (.field .unrecognized) attributes extras)
    (hextras : readExtras (.field .unrecognized) (fillName entries.offers) = .ok extras)
    {name : String} (hname : name ∉ (RecordType.field .unrecognized).names) :
    Entries.get? name (Element.dump true attributes extras) =
      if name ∈ usedSpellings (.field .unrecognized) (fillName entries.offers) then none
      else Entries.get? name entries := by
  have hother (known : String) (hknown : known ∈ (RecordType.field .unrecognized).names) :
      name ≠ known := fun heq => hname (heq ▸ hknown)
  have hattributes : name ∉ (attributes.map fun x => (x.1, x.2.toValue true)).map Prod.fst := by
    rw [List.map_map]
    exact hrecord.names ▸ hname
  rw [Element.dump_true, Entries.named_append, Entries.get?_append,
    Entries.get?_named_of_not_mem hattributes, Option.none_or, get?_extras hextras,
    find?_fillName_of_ne (hother "id" (by decide)) (hother "label" (by decide)), find?_offers,
    Option.map_map]
  exact congrArg _ Option.map_id'

/-- The attribute that takes the name of a class by either spelling. -/
def classAttribute : Attribute := (Attribute.may "class_name" .text).spelled ["class_name", "class"]

theorem written?_classAttribute (entries : Entries) :
    written? classAttribute (fillName entries.offers) =
      ((Entries.get? "class_name" entries).map fun v => ("class_name", Offer.of v)).or
        ((Entries.get? "class" entries).map fun v => ("class", Offer.of v)) := by
  have hfind (name : String) (hname : name ≠ "id" ∧ name ≠ "label") :
      Offer.find? name (fillName entries.offers) = (Entries.get? name entries).map Offer.of := by
    rw [find?_fillName_of_ne hname.1 hname.2, find?_offers]
  have hspellings : classAttribute.spellings = ["class_name", "class"] := rfl
  rw [written?, hspellings]
  simp only [List.findSome?_cons, List.findSome?_nil, hfind "class_name" (by decide),
    hfind "class" (by decide)]
  cases Entries.get? "class_name" entries <;> cases Entries.get? "class" entries <;> rfl

/-- The shorter spelling of the class is used only if the other one is not written. -/
theorem mem_usedSpellings_class_iff :
    "class" ∈ usedSpellings (.field .unrecognized) (fillName entries.offers) ↔
      Entries.get? "class_name" entries = none ∧ (Entries.get? "class" entries).isSome = true := by
  have honly : ∀ a ∈ (RecordType.field .unrecognized).attributes,
      "class" ∈ a.spellings → a = classAttribute := by decide
  have hused : "class" ∈ usedSpellings (.field .unrecognized) (fillName entries.offers) ↔
      ∃ o, written? classAttribute (fillName entries.offers) = some ("class", o) := by
    rw [mem_usedSpellings_iff]
    constructor
    · rintro ⟨a, ha, o, hwritten⟩
      exact ⟨o, honly a ha (written?_eq_some hwritten).1 ▸ hwritten⟩
    · rintro ⟨o, hwritten⟩
      exact ⟨classAttribute, by decide, o, hwritten⟩
  rw [hused, written?_classAttribute]
  cases Entries.get? "class_name" entries <;> cases Entries.get? "class" entries <;> simp

/-- What the name of the class is read as if it is written by its shorter spelling only. -/
theorem element_of_class
    (hraw : (Value.map entries).isRaw = true)
    (hnone : Entries.get? "class_name" entries = none) {x : String × Element}
    (hread : readAttribute (fillName entries.offers) classAttribute = .ok x) :
    x.2 = (Entries.get? "class" entries).elim .null fun v =>
      if v.isPresent then .text v.render else .null := by
  obtain ⟨-, hvalue⟩ := readAttribute_eq_ok_iff.mp hread
  rw [written?_classAttribute, hnone] at hvalue
  cases hget : Entries.get? "class" entries with
  | none =>
      rw [hget] at hvalue
      exact (Option.some.inj hvalue).symm
  | some v =>
      rw [hget] at hvalue
      obtain ⟨exact, hread⟩ := hvalue
      have hv : v.isRaw = true := by
        have hall : (entries.getD "class").isRaw = true :=
          Entries.isRaw_getD ((Value.isRaw_map entries).mp hraw)
        rwa [Entries.getD_of_get? hget] at hall
      have hcases := toText_of_ofValue rfl hread
      have hnullable : classAttribute.shape.nullable = true := rfl
      cases hpresent : v.isPresent with
      | false => simpa [hnullable, hpresent] using hcases
      | true =>
          obtain ⟨c, hc, htext⟩ : ∃ c, Coercion.toText true v = .ok c ∧ x.2 = .text c.value := by
            simpa [hpresent] using hcases
          rw [htext, eq_render_of_toText hv hc]
          simp [hpresent]

theorem fieldType_of_not_known
    (htype : ∀ tag, Entries.get? "type" entries = some (.text tag) →
      tag ∉ FieldType.known.map FieldType.tag) :
    fieldType (entries.getD "type") = .unrecognized := by
  unfold fieldType
  split
  next tag htag =>
    cases hget : Entries.get? "type" entries with
    | none => simp [Entries.getD, hget] at htag
    | some v =>
        rw [Entries.getD_of_get? hget] at htag
        exact FieldType.not_mem_tags_iff.mp (htype tag (hget.trans (congrArg some htag)))
  next => rfl

end Reading

open Reading

/-- A field whose type is no known one keeps all that is written at it. -/
theorem fallback_keeps_authored
    {entries : Entries} (hraw : (Value.map entries).isRaw = true)
    (htype : ∀ tag, Entries.get? "type" entries = some (.text tag) →
      tag ∉ FieldType.known.map FieldType.tag)
    {e : Element} (hread : (Value.map entries).readAs .field = .ok e) :
    e.type? = some (.field .unrecognized) ∧
      ∃ dump, e.toValue true = .map dump ∧ KeepsAuthored entries dump := by
  obtain ⟨exact, hvalue⟩ := map_element_eq_ok_iff.mp hread
  have hfits := fits_of_ofValue hraw hvalue
  rw [ofValue_field entries rfl, fieldType_of_not_known htype, under_eq_ok_iff,
    readRecord_eq_ok_iff] at hvalue
  obtain ⟨attributes, extras, hattributes, hextras, heq⟩ := hvalue
  cases heq
  obtain ⟨_, _, _, hsame, hrecord, -⟩ := hfits.admits_one
  cases hsame
  obtain ⟨htext, hunknown⟩ :=
    type_of_unrecognized (Entries.isRaw_getD ((Value.isRaw_map entries).mp hraw))
      (fieldType_of_not_known htype) hattributes
  have hkept {name : String} (hname : name ∉ (RecordType.field .unrecognized).names) :=
    get?_dump_of_not_mem hrecord hextras hname
  have hclass := hkept (show "class" ∉ (RecordType.field .unrecognized).names by decide)
  refine ⟨rfl, _, Element.toValue_record .., ?_, FieldType.not_mem_tags_iff.mpr hunknown,
    fun name hname => ?_, fun hwritten => ?_, fun hnone => ⟨?_, ?_⟩⟩
  · exact Element.get?_dump hrecord true htext
  · obtain ⟨hother, hunused⟩ := not_mem_of_not_shared hname
    rw [hkept hother, if_neg hunused]
  · rw [hclass, if_neg]
    intro hused
    rw [(mem_usedSpellings_class_iff.mp hused).1] at hwritten
    cases hwritten
  · rw [hclass]
    split_ifs with hused
    · rfl
    · rw [mem_usedSpellings_class_iff, not_and] at hused
      exact Option.not_isSome_iff_eq_none.mp (hused hnone)
  · obtain ⟨x, hx⟩ := hrecord.exists_mem_zip (a := classAttribute) (by decide)
    have hread := (attributes_of_forall₂ hattributes).2 _ _ hx
    have hget := Element.get?_dump hrecord true hx
    rw [element_of_class hraw hnone hread] at hget
    rw [show "class_name" = classAttribute.name from rfl, hget]
    cases Entries.get? "class" entries with
    | none => rfl
    | some v =>
        cases hpresent : v.isPresent <;> simp [hpresent, Element.toValue]

/-- A field of unknown type with the shorter spelling of its class, a null and a nested value. -/
def projector : Entries :=
  [(.text "field_name", .text "Beam"), (.text "type", .text "projector"),
    (.text "class", .integer 3), (.text "lens", .null),
    (.text "slides", .list [.null, .map [(.text "type", .text "text")]])]

theorem fallback_keeps_authored_projector :
    ∃ e dump, (Value.map projector).readAs .field = .ok e ∧ e.toValue true = .map dump ∧
      KeepsAuthored projector dump ∧ Entries.get? "lens" dump = some .null ∧
        Entries.get? "class" dump = none ∧ Entries.get? "class_name" dump = some (.text "3") := by
  obtain ⟨e, hread⟩ : ∃ e, (Value.map projector).readAs .field = .ok e :=
    Yaml.exists_eq_ok_of_isOk (by decide +kernel)
  have htype (tag : String) (hget : Entries.get? "type" projector = some (.text tag)) :
      tag ∉ FieldType.known.map FieldType.tag := by
    cases hget
    decide
  obtain ⟨-, dump, hdump, hkeeps⟩ := fallback_keeps_authored (by decide) htype hread
  have hclass := hkeeps.renamed rfl
  exact ⟨e, dump, hread, hdump, hkeeps, hkeeps.other "lens" (by decide), hclass⟩

end Wireframe
