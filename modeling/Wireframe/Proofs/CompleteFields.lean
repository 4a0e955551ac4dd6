import Mathlib.Data.List.Forall2
import Mathlib.Tactic
import Wireframe.Canonical.Document
import Wireframe.Proofs.Grammar
import Wireframe.Proofs.Shapes

/-!
# Complete fields

A field is complete when it has the options that its type asks for, and when it has fields
to repeat if it repeats any.  A field that is read from a tree of the strict grammar is
complete down to the last field that it repeats, and the plain tree of such a field belongs
to the strict grammar again, whether nulls are kept in it or not.
-/

namespace Wireframe

namespace Element

open Reading

/-- A field with the options or the items that its type asks for. -/
structure IsComplete (e : Element) : Prop where
  options : ∀ f : FieldType, e.type? = some (.field f) → f.isSelect = true →
    (∃ reference, e.attribute? "options" = some (.text reference)) ∨
      ∃ first rest, e.attribute? "options" = some (.list (first :: rest))
  items : e.type? = some (.field .repeater) →
    ∃ first rest, e.attribute? "item_fields" = some (.list (first :: rest))

/-- A field that is complete, with all that it repeats at any depth. -/
inductive IsCompleteBelow : Element → Prop
  | single {e} (hcomplete : IsComplete e) (hsingle : e.type? ≠ some (.field .repeater)) :
      IsCompleteBelow e
  | repeater {e items} (hcomplete : IsComplete e) (hrepeater : e.type? = some (.field .repeater))
      (hitems : e.attribute? "item_fields" = some (.list items))
      (hbelow : ∀ x ∈ items, IsCompleteBelow x) : IsCompleteBelow e

/-! ## Walking over fields -/

theorem mem_fieldsOfItems
    {items : List Element} {f : Element} (hf : f ∈ fieldsOfItems items) :
    ∃ e ∈ items, f ∈ fieldsBelow e := by
  induction items with
  | nil => cases hf
  | cons e es ih =>
      rw [fieldsOfItems, List.mem_append] at hf
      rcases hf with hhead | htail
      · exact ⟨e, List.mem_cons_self, hhead⟩
      · obtain ⟨x, hx, hmem⟩ := ih htail
        exact ⟨x, List.mem_cons_of_mem _ hx, hmem⟩

/-- Every field that a walk meets below a complete field is complete. -/
theorem isComplete_of_mem_fieldsBelow
    {e : Element} (hcomplete : IsCompleteBelow e) :
    ∀ f ∈ fieldsBelow e, f.IsComplete := by
  induction hcomplete with
  | single hself hsingle =>
      rw [fieldsBelow_eq, repeated, if_neg hsingle]
      exact List.forall_mem_singleton.mpr hself
  | repeater hself hrepeater hitems _ ih =>
      rw [fieldsBelow_eq, repeated, if_pos hrepeater, itemsOf, hitems]
      refine List.forall_mem_cons.mpr ⟨hself, fun f hf => ?_⟩
      obtain ⟨x, hx, hfx⟩ := mem_fieldsOfItems hf
      exact ih x hx f hfx

/-! ## Fields of the strict grammar -/

theorem fieldType_eq_iff
    {v : Value} {f : FieldType} (hf : f ≠ .unrecognized) :
    fieldType v = f ↔ ∃ tag, v.text? = some tag ∧ FieldType.ofTag tag = f := by
  unfold fieldType Value.text?
  split <;> simp [Ne.symm hf]

theorem isRepeater_iff_fieldType
    {entries : Entries} :
    Rules.isRepeater entries = true ↔ fieldType (entries.getD "type") = .repeater := by
  rw [Rules.isRepeater_iff, fieldType_eq_iff (by decide)]

/-- A field is read as the type of its tag. -/
theorem exists_record_of_readsAs
    {entries : Entries} {e : Element} (hread : ReadsAs .field (.map entries) e) :
    ∃ attributes extras,
      e = .record (.field (fieldType (entries.getD "type"))) attributes extras ∧
      List.Forall₂ (fun a x => readAttribute
          (expand (.field (fieldType (entries.getD "type"))) entries.offers) a = .ok x)
        (RecordType.field (fieldType (entries.getD "type"))).attributes attributes := by
  obtain ⟨exact, hread⟩ := hread
  rw [ofValue_of_single (k := .field) rfl rfl nofun] at hread
  simp only [readKind, partsOf, readField, valueOf_offers, under_eq_ok_iff,
    readRecord_eq_ok_iff] at hread
  obtain ⟨attributes, extras, hattributes, -, heq⟩ := hread
  exact ⟨attributes, extras, congrArg Reading.element heq, hattributes⟩

/-- An attribute of a field that no shorthand fills in is read from what is written. -/
theorem exists_field_attribute
    {entries : Entries} {e : Element} (hread : ReadsAs .field (.map entries) e)
    {a : Attribute}
    (ha : a ∈ (RecordType.field (fieldType (entries.getD "type"))).attributes)
    (hsingle : a.spellings = [a.name])
    (hname : a.name ≠ "id" ∧ a.name ≠ "label" ∧ a.name ≠ "text") :
    ∃ f, e.attribute? a.name = some f ∧ a.Reads entries f := by
  obtain ⟨attributes, extras, rfl, hattributes⟩ := exists_record_of_readsAs hread
  obtain ⟨x, hmem, hx⟩ := exists_of_mem_left hattributes ha
  obtain ⟨hnames, -⟩ := attributes_of_forall₂ hattributes
  obtain ⟨hxname, hvalue⟩ := readAttribute_eq_ok_iff.mp hx
  refine ⟨x.2, ?_, ?_⟩
  · rw [← hxname]
    exact attribute?_of_mem _ extras (hnames ▸ RecordType.nodup_names _) (List.of_mem_zip hmem).2
  · rw [written?_expand_of_single hsingle hname] at hvalue
    rw [reads_iff_of_single hsingle]
    cases hget : Entries.get? a.name entries <;> simpa [hget] using hvalue

theorem exists_optionsAttribute
    {f : FieldType} (hselect : f.isSelect = true) :
    ∃ a ∈ (RecordType.field f).attributes, a.name = "options" ∧ a.spellings = ["options"] ∧
      a.shape = .ofNamed .options := by
  cases f <;> first
    | exact ⟨_, List.mem_append_left _ (List.mem_append_right _ (.head _)), rfl, rfl, rfl⟩
    | cases hselect

theorem exists_itemsAttribute :
    ∃ a ∈ (RecordType.field .repeater).attributes, a.name = "item_fields" ∧
      a.spellings = ["item_fields"] ∧ a.shape = .one (.listOf .field) := by
  decide

/-- Options that the rules accept are read as a reference or as a list with options. -/
theorem options_of_reads
    {v : Value} (hraw : v.isRaw = true) {f : Element} {exact : Bool}
    (hread : ofValue v (.ofNamed .options) = .ok ⟨f, exact⟩)
    (hoptions : v.isText = true ∨ ∃ first rest, v.items? = some (first :: rest)) :
    (∃ reference, f = .text reference) ∨ ∃ first rest, f = .list (first :: rest) := by
  rw [ofValue_eq] at hread
  rcases readShape_eq_ok hread with ⟨hnull, -⟩ | ⟨k, hk, hkind⟩
  · cases hnull
  · have hk : k = .optionList ∨ k = .text := by simpa [Shape.ofNamed, NamedShape.kinds] using hk
    rcases hoptions with htext | ⟨first, rest, hitems⟩
    · cases v with
      | scalar s =>
          cases s with
          | text reference =>
              rcases hk with rfl | rfl
              · cases hkind
              · cases hkind
                exact .inl ⟨reference, rfl⟩
          | _ => cases htext
      | _ => cases htext
    · cases v with
      | list items =>
          cases hitems
          rcases hk with rfl | rfl
          · obtain ⟨elements, helements, heq⟩ := ofItems_eq_ok_iff.mp hkind
            have hforall := readItems_eq_ok_iff.mp helements
            cases hforall with
            | cons hhead htail =>
                cases heq
                exact .inr ⟨_, _, rfl⟩
          · cases hkind
      | tuple items => simp [Value.isRaw] at hraw
      | _ => cases hitems

section Strict

variable {settings : Settings} {entries : Entries} {e : Element}

theorem options_of_readsAs
    (hraw : (Value.map entries).isRaw = true) (hitself : Rules.IsFieldItself settings entries)
    (hread : ReadsAs .field (.map entries) e) {f : FieldType}
    (htype : e.type? = some (.field f)) (hselect : f.isSelect = true) :
    (∃ reference, e.attribute? "options" = some (.text reference)) ∨
      ∃ first rest, e.attribute? "options" = some (.list (first :: rest)) := by
  obtain ⟨attributes, extras, he, -⟩ := exists_record_of_readsAs hread
  have hf : fieldType (entries.getD "type") = f := by simpa [he, type?] using htype
  have hknown : f ≠ .unrecognized := by
    rintro rfl
    cases hselect
  obtain ⟨tag, htext, htag⟩ := (fieldType_eq_iff hknown).mp hf
  have hoptions := hitself.options tag htext (htag ▸ hselect)
  obtain ⟨a, ha, hname, hsingle, hshape⟩ := exists_optionsAttribute hselect
  obtain ⟨g, hg, hreads⟩ := exists_field_attribute hread (hf ▸ ha) (hname ▸ hsingle)
    (by rw [hname]; decide)
  rw [hname] at hg
  rw [reads_iff_of_single (hname ▸ hsingle), hname, hshape] at hreads
  have hwritten : (entries.getD "options").isText = true ∨
      ∃ first rest, (entries.getD "options").items? = some (first :: rest) := by
    rcases hoptions with htext | ⟨first, rest, hitems, -⟩
    · exact .inl htext
    · exact .inr ⟨first, rest, hitems⟩
  have hpresent : (entries.getD "options").isPresent = true := by
    rcases hwritten with htext | ⟨first, rest, hitems⟩
    · exact Value.isPresent_of_isText htext
    · exact Value.isPresent_of_items? hitems
  rw [Entries.get?_of_isPresent hpresent] at hreads
  obtain ⟨exact, hvalue⟩ := hreads
  have hvalueRaw : (entries.getD "options").isRaw = true :=
    Entries.isRaw_getD ((Value.isRaw_map entries).mp hraw)
  have hread := options_of_reads hvalueRaw hvalue hwritten
  rw [hg]
  simpa using hread

theorem items_of_readsAs
    (hraw : (Value.map entries).isRaw = true) (hrepeater : Rules.isRepeater entries = true)
    (hread : ReadsAs .field (.map entries) e) {first : Value} {rest : List Value}
    (hitems : (entries.getD "item_fields").items? = some (first :: rest)) :
    e.type? = some (.field .repeater) ∧
      ∃ es, e.attribute? "item_fields" = some (.list es) ∧
        List.Forall₂ (ReadsAs .field) (first :: rest) es := by
  obtain ⟨attributes, extras, he, -⟩ := exists_record_of_readsAs hread
  have hf := isRepeater_iff_fieldType.mp hrepeater
  obtain ⟨a, ha, hname, hsingle, hshape⟩ := exists_itemsAttribute
  obtain ⟨g, hg, hreads⟩ := exists_field_attribute hread (hf ▸ ha) (hname ▸ hsingle)
    (by rw [hname]; decide)
  rw [hname] at hg
  rw [reads_iff_of_single (hname ▸ hsingle), hname, hshape,
    Entries.get?_of_isPresent (Value.isPresent_of_items? hitems)] at hreads
  obtain ⟨exact, hvalue⟩ := hreads
  have hvalueRaw : (entries.getD "item_fields").isRaw = true :=
    Entries.isRaw_getD ((Value.isRaw_map entries).mp hraw)
  obtain ⟨items, hlist⟩ :=
    eq_list_of_ofValue rfl hvalueRaw (Value.isPresent_of_items? hitems) hvalue
  rw [hlist] at hitems hvalue
  cases hitems
  obtain ⟨-, es, rfl, hes⟩ := (ofValue_list_eq_ok_iff rfl).mp hvalue
  exact ⟨by rw [he, hf]; rfl, es, hg, hes⟩

end Strict

/-- A field that the rules accept is complete down to the last field that it repeats. -/
theorem isCompleteBelow_of_readsAs
    {settings : Settings} {v : Value} (hfield : Rules.IsField settings v) (hraw : v.isRaw = true)
    {e : Element} (hread : ReadsAs .field v e) :
    IsCompleteBelow e := by
  -- The rules are followed down to the items, and the element with them.
  induction hfield generalizing e with
  | @single entries hitself hsingle =>
      obtain ⟨attributes, extras, he, -⟩ := exists_record_of_readsAs hread
      have hother : e.type? ≠ some (.field .repeater) := by
        intro hrepeater
        have hf : fieldType (entries.getD "type") = .repeater := by
          simpa [he, type?] using hrepeater
        rw [isRepeater_iff_fieldType.mpr hf] at hsingle
        cases hsingle
      refine .single ⟨fun f hf => options_of_readsAs hraw hitself hread hf, ?_⟩ hother
      exact fun hrepeater => absurd hrepeater hother
  | @repeater entries first rest hitself hrepeater hitems hbelow ih =>
      obtain ⟨htype, es, hattribute, hes⟩ := items_of_readsAs hraw hrepeater hread hitems
      have hitemsRaw := Value.isRaw_items
        (Entries.isRaw_getD ((Value.isRaw_map entries).mp hraw)) hitems
      refine .repeater ⟨fun f hf => options_of_readsAs hraw hitself hread hf, ?_⟩
        htype hattribute ?_
      · cases hes with
        | cons hhead htail => exact fun _ => ⟨_, _, hattribute⟩
      · intro x hx
        obtain ⟨v, hv, hx⟩ := exists_of_mem_right hes hx
        exact ih v hv (hitemsRaw v hv) hx

/-! ## Plain trees of complete fields -/

section Dump

variable (settings : Settings) (nulls : Bool)

theorem isOption_toValue
    {e : Element} (hfits : Fits (.one (.record .option)) e) :
    Rules.IsOption (e.toValue nulls) := by
  obtain ⟨raw, hdump⟩ := exists_isDump hfits nulls
  exact ⟨raw, hdump.toValue, hdump.has (by decide)⟩

theorem hasOptions_dump
    {f : FieldType} (hselect : f.isSelect = true) {e : Element} {raw : Entries}
    (hdump : IsDump nulls (.field f) e raw) (htype : e.type? = some (.field f))
    (hcomplete : IsComplete e) :
    Rules.HasOptions raw := by
  obtain ⟨a, ha, hname, -, hshape⟩ := exists_optionsAttribute hselect
  rcases hcomplete.options f htype hselect with ⟨reference, he⟩ | ⟨first, rest, he⟩
  · left
    have hget := hdump.getD ha (hname ▸ he)
    rw [hname] at hget
    rw [hget]
    rfl
  · right
    have hget := hdump.getD ha (hname ▸ he)
    have hfits := hdump.fits ha (hname ▸ he)
    rw [hname, toValue_list] at hget
    rw [hshape] at hfits
    have hitems : ∀ x ∈ first :: rest, Fits (.one (.record .option)) x := by
      rcases hfits.admits with ⟨hnull, -⟩ | ⟨k, hk, hadmits⟩
      · cases hnull
      · have hk : k = .optionList ∨ k = .text := by
          simpa [Shape.ofNamed, NamedShape.kinds] using hk
        rcases hk with rfl | rfl
        · obtain ⟨items, heq, hall⟩ := hadmits
          cases heq
          exact hall
        · obtain ⟨reference, heq⟩ := hadmits
          cases heq
    refine ⟨first.toValue nulls, rest.map (toValue nulls), by rw [hget]; rfl, ?_⟩
    rw [← List.map_cons, List.forall_mem_map]
    exact fun x hx => isOption_toValue nulls (hitems x hx)

section Record

variable {f : FieldType} {attributes : List (String × Element)} {extras : List (String × Value)}
  (hrecord : RecordFits (.field f) attributes extras) (htag : TagFits (.field f) attributes)

include hrecord htag

theorem isFieldItself_dump
    (hcomplete : (Element.record (.field f) attributes extras).IsComplete) :
    Rules.IsFieldItself settings (dump nulls attributes extras) := by
  have hdump := hrecord.isDump nulls
  obtain ⟨tag, hget, hf⟩ := tag_of_field hrecord rfl htag nulls
  have htype : (dump nulls attributes extras).Has ["type"] := by
    intro key hkey
    rw [List.mem_singleton.mp hkey, hget]
    rfl
  refine ⟨fun _ => hdump.has ?_, htype, fun _ => hdump.has ?_, fun t ht hselect => ?_⟩
  · simpa using RecordType.needs_id f
  · simpa using RecordType.needs_label f
  · rw [hget] at ht
    cases ht
    exact hasOptions_dump nulls (hf ▸ hselect) hdump rfl hcomplete

theorem isRepeater_dump :
    Rules.isRepeater (dump nulls attributes extras) = true ↔ f = .repeater := by
  obtain ⟨tag, hget, hf⟩ := tag_of_field hrecord rfl htag nulls
  rw [isRepeater_iff_fieldType, hget, fieldType, hf]

end Record

/-- The plain tree of a complete field belongs to the strict grammar. -/
theorem isField_toValue
    {e : Element} (hcomplete : IsCompleteBelow e) (hfits : Fits (.one .field) e) :
    Rules.IsField settings (e.toValue nulls) := by
  induction hcomplete with
  | @single e hself hsingle =>
      obtain ⟨f, attributes, extras, rfl, hrecord, htag⟩ := hfits.admits_one
      have hf : f ≠ .repeater := by simpa [type?] using hsingle
      have hother : Rules.isRepeater (dump nulls attributes extras) = false := by
        rw [Bool.eq_false_iff]
        exact fun hrepeater => hf ((isRepeater_dump nulls hrecord htag).mp hrepeater)
      rw [toValue_record]
      exact .single (isFieldItself_dump settings nulls hrecord htag hself) hother
  | @repeater e items hself hrepeater hitems hbelow ih =>
      obtain ⟨f, attributes, extras, rfl, hrecord, htag⟩ := hfits.admits_one
      have hf : f = .repeater := by simpa [type?] using hrepeater
      subst hf
      have hdump := hrecord.isDump nulls
      obtain ⟨a, ha, hname, -, hshape⟩ := exists_itemsAttribute
      have hget := hdump.getD ha (hname ▸ hitems)
      have hlist := hdump.fits ha (hname ▸ hitems)
      rw [hname, toValue_list] at hget
      rw [hshape] at hlist
      obtain ⟨elements, heq, hall⟩ := hlist.admits_one
      cases heq
      obtain ⟨first, rest, hsome⟩ := hself.items hrepeater
      have hcons : items = first :: rest := by simpa [hitems] using hsome
      subst hcons
      rw [toValue_record]
      refine .repeater (isFieldItself_dump settings nulls hrecord htag hself)
        ((isRepeater_dump nulls hrecord htag).mpr rfl) (by rw [hget]; rfl) ?_
      rw [← List.map_cons, List.forall_mem_map]
      exact fun x hx => ih x hx (hall x hx)

end Dump

end Element

end Wireframe
