import Mathlib.Tactic
import Wireframe.Proofs.FieldAttributes

/-!
# Option lists

An item of an option list that is text, a number or a truth value becomes an option that has the
item itself as its value, whatever the other alternatives of an option value would make of it, and
its text as the label.  An item that is a mapping becomes the option that the mapping is read as.
The plain trees of options are mappings, so they are read as the same options once more.
-/

namespace Wireframe

namespace FieldType

/-- The types of fields that have options. -/
def choices : List FieldType :=
  [select, multiSelect, radioGroup, checkboxGroup, combobox, segmentedControl, dropdown]

/-- No other attribute of a field is a list of options. -/
theorem mem_choices_iff (t : FieldType) :
    t ∈ choices ↔ ∃ a ∈ (RecordType.field t).attributes, .optionList ∈ a.shape.kinds := by
  cases t <;> decide +kernel

theorem exists_optionsAttribute {t : FieldType} (ht : t ∈ choices) :
    ∃ a ∈ (RecordType.field t).attributes, a.name = "options" ∧ a.spellings = [a.name] ∧
      .optionList ∈ a.shape.kinds := by
  simp only [choices, List.mem_cons, List.not_mem_nil, or_false] at ht
  rcases ht with rfl | rfl | rfl | rfl | rfl | rfl | rfl <;> decide +kernel

end FieldType

namespace Element

/-- The option that a plain item of an option list stands for. -/
def plainOption (v : Value) : Element :=
  .record .option
    [("value", .value v), ("label", .text v.render), ("disabled", .null), ("group", .null),
      ("icon", .null), ("description", .null)] []

/-- The option that an item of an option list becomes. -/
inductive IsOptionOf : Value → Element → Prop
  | plain {v : Value} (hplain : v.isPlain = true) (htext : v.hasText = true) :
      IsOptionOf v (plainOption v)
  | mapping {entries : Entries} {o : Element}
      (hread : (Value.map entries).readAs (.record .option) = .ok o) :
      IsOptionOf (.map entries) o

end Element

/-- The mapping is read as a field with these options.  If it is refused, its options are not what
is at fault. -/
def Entries.YieldsOptions (entries : Entries) (options : List Element) : Prop :=
  match (Value.map entries).readAs .field with
  | .ok field => field.attribute? "options" = some (.list options)
  | .error faults =>
    ∀ f ∈ faults, ∀ tag below, f.location ≠ .name tag :: .name "options" :: below

namespace Reading

open Element

/-! ## Options -/

theorem kind_of_option {a : Attribute} (ha : a ∈ RecordType.option.attributes) {k : Kind}
    (hk : k ∈ a.shape.kinds) :
    k ∈ [Kind.text, .whole, .number, .flag] := by
  have hall : ∀ a ∈ RecordType.option.attributes, ∀ k ∈ a.shape.kinds,
      k ∈ [Kind.text, .whole, .number, .flag] := by decide
  exact hall a ha k hk

/-- The attributes of an option have no parts, so what is read as one fits it. -/
theorem fits_attribute_of_option
    {a : Attribute} (ha : a ∈ RecordType.option.attributes) {v : Value} {r : Reading}
    (hread : ofValue v a.shape = .ok r) :
    Fits a.shape r.element := by
  rw [ofValue_eq] at hread
  rcases readShape_eq_ok_split hread with ⟨hnull, rfl⟩ | ⟨before, k, after, hsplit, hkind, hcalm⟩
  · exact .null hnull
  · have hscalar := kind_of_option ha (k := k) (by simp [hsplit])
    simp only [List.mem_cons, List.not_mem_nil, or_false] at hscalar
    rcases hscalar with rfl | rfl | rfl | rfl <;>
      exact fits_of_readKind_scalar hsplit hcalm rfl rfl (fun _ => rfl) hkind

theorem fits_of_option
    {entries : Entries} {r : Reading}
    (hread : ofValue (.map entries) (.one (.record .option)) = .ok r) :
    Fits (.one (.record .option)) r.element := by
  obtain ⟨attributes, hattributes, rfl⟩ := (ofValue_record_eq_ok_iff (by simp)).mp hread
  have hsingle : ∀ a ∈ RecordType.option.attributes, a.spellings = [a.name] := by decide
  have hnames : attributes.map Prod.fst = RecordType.option.names :=
    map_eq_map_of_forall₂ hattributes fun _ _ h => h.1
  refine .record (List.mem_singleton_self _) rfl hnames rfl (by simp) fun a x hmem => ?_
  have ha := (List.of_mem_zip hmem).1
  have hreads := (List.forall₂_zip hattributes hmem).2
  rw [reads_iff_of_single (hsingle a ha)] at hreads
  cases hget : Entries.get? a.name entries with
  | none =>
      rw [hget] at hreads
      exact fits_ofDefault? (RecordType.admitsDefault_of_mem ha) hreads
  | some v =>
      rw [hget] at hreads
      obtain ⟨exact, hvalue⟩ := hreads
      exact fits_attribute_of_option ha hvalue

/-- No record is below an option, and the option has no extras. -/
theorem everyRecord_of_option
    {p : RecordType → List (String × Element) → List (String × Value) → Bool}
    (hp : ∀ attributes, p .option attributes [] = true) {o : Element}
    (hfits : Fits (.one (.record .option)) o) :
    o.everyRecord p = true := by
  obtain ⟨attributes, extras, rfl, hrecord⟩ := hfits.admits_one
  rw [hrecord.extras_eq_nil (by simp), everyRecord_record]
  refine ⟨hp attributes, fun x hx => ?_⟩
  have hshapes :
      List.Forall₂ (fun a x => Fits a.shape x.2) RecordType.option.attributes attributes :=
    List.forall₂_iff_zip.mpr ⟨hrecord.forall₂_names.length_eq, fun {a x} => hrecord.fits a x⟩
  obtain ⟨a, ha, hfits⟩ := exists_of_mem_right hshapes hx
  rcases hfits.admits with ⟨-, hnull⟩ | ⟨k, hk, hadmits⟩
  · rw [hnull]
    rfl
  · have hscalar := kind_of_option ha hk
    simp only [List.mem_cons, List.not_mem_nil, or_false] at hscalar
    rcases hscalar with rfl | rfl | rfl | rfl <;>
      (obtain ⟨w, hw⟩ := hadmits; rw [hw]; rfl)

/-- An option is read back from its plain tree. -/
theorem ofValue_toValue_option
    {o : Element} (hfits : Fits (.one (.record .option)) o) (nulls : Bool) :
    ofValue (o.toValue nulls) (.one (.record .option)) = .ok ⟨o, true⟩ := by
  have hclear : IsClear nulls o := fun _ =>
    everyRecord_of_option (fun attributes => by simp [hasClearExtras]) hfits
  have hback := ofValue_toValue hfits rfl (by simp [Shape.one, Kind.hasSmallChoices]) hclear
  rwa [kept_eq_self fun _ => everyRecord_of_option (fun _ => rfl) hfits] at hback

theorem toValue_plainOption {v : Value} (hplain : v.isPlain = true) :
    (plainOption v).toValue false = v.expandOption := by
  cases v with
  | scalar s => cases s <;> first | rfl | cases hplain
  | _ => cases hplain

theorem fits_plainOption
    {v : Value} (hplain : v.isPlain = true) (htext : v.hasText = true) :
    Fits (.one (.record .option)) (plainOption v) := by
  have hvalue : Fits (.any [.text, .whole, .number, .flag]) (.value v) := by
    cases v with
    | scalar s =>
        cases s with
        | text x => exact .text x (by decide)
        | integer i =>
            have hk : Kind.whole ∈ [Kind.text, .whole, .number, .flag] := by decide
            exact .integer i hk (fun _ h => by cases h) fun _ => Value.hasText_scalar _ ▸ htext
        | real d => exact .number d (by decide)
        | flag b => exact .flag b (by decide)
        | _ => cases hplain
    | _ => cases hplain
  refine .record (List.mem_singleton_self _) rfl rfl rfl (by simp) fun a x hmem => ?_
  simp only [RecordType.attributes, List.zip_cons_cons, List.zip_nil_right, List.mem_cons,
    List.not_mem_nil, or_false, Prod.mk.injEq] at hmem
  rcases hmem with ⟨rfl, rfl⟩ | ⟨rfl, rfl⟩ | ⟨rfl, rfl⟩ | ⟨rfl, rfl⟩ | ⟨rfl, rfl⟩ | ⟨rfl, rfl⟩
  · exact hvalue
  · exact .text v.render (by decide)
  all_goals exact .null rfl

theorem fits_of_isOptionOf {v : Value} {o : Element} (hoption : IsOptionOf v o) :
    Fits (.one (.record .option)) o := by
  cases hoption with
  | plain hplain htext => exact fits_plainOption hplain htext
  | mapping hread =>
      obtain ⟨exact, hread⟩ := map_element_eq_ok_iff.mp hread
      exact fits_of_option hread

/-- An item of an option list is read as the option that it becomes. -/
theorem readOption_of_isOptionOf {v : Value} {o : Element} (hoption : IsOptionOf v o) :
    ∃ exact, readOption (Offer.of v) = .ok ⟨o, exact⟩ := by
  rw [readOption_of]
  cases hoption with
  | plain hplain htext =>
      rw [← toValue_plainOption hplain]
      exact ⟨true, ofValue_toValue_option (fits_plainOption hplain htext) false⟩
  | mapping hread => exact map_element_eq_ok_iff.mp hread

/-- The plain tree of an option becomes that option. -/
theorem isOptionOf_toValue {v : Value} {o : Element} (hoption : IsOptionOf v o) (nulls : Bool) :
    IsOptionOf (o.toValue nulls) o := by
  have hfits := fits_of_isOptionOf hoption
  have hback := ofValue_toValue_option hfits nulls
  obtain ⟨attributes, extras, rfl, -⟩ := hfits.admits_one
  rw [toValue_record] at hback ⊢
  exact .mapping (map_element_eq_ok_iff.mpr ⟨true, hback⟩)

/-! ## Lists of options -/

variable {items : List Value} {options : List Element}

theorem forall₂_isOptionOf_toValue (hoptions : List.Forall₂ IsOptionOf items options)
    (nulls : Bool) :
    List.Forall₂ IsOptionOf (options.map (toValue nulls)) options := by
  rw [List.forall₂_map_left_iff, List.forall₂_same]
  intro o ho
  obtain ⟨v, -, hoption⟩ := exists_of_mem_right hoptions ho
  exact isOptionOf_toValue hoption nulls

theorem hasLabels_of_isOptionOf
    {v : Value} (hitems : v.items? = some items)
    (hoptions : List.Forall₂ IsOptionOf items options) :
    v.hasLabels = true := by
  rw [Value.hasLabels, hitems]
  refine List.all_eq_true.mpr fun x hx => ?_
  obtain ⟨o, -, hoption⟩ := exists_of_mem_left hoptions hx
  cases hoption with
  | plain hplain htext => cases x <;> first | exact htext | rfl
  | mapping hread => rfl

/-- Where a list of options is accepted, no other alternative takes a list of items that all
become options. -/
theorem ofValue_of_isOptionOf
    {v : Value} (hitems : v.items? = some items) (hoptions : List.Forall₂ IsOptionOf items options)
    {s : Shape} (hseparated : s.isSeparated = true) (hk : .optionList ∈ s.kinds) :
    ofValue v s = .ok ⟨.list options, true⟩ := by
  have hread : readItems readOption (items.map Offer.of) = .ok options := by
    rw [readItems_eq_ok_iff, List.forall₂_map_left_iff]
    exact hoptions.imp fun _ _ => readOption_of_isOptionOf
  refine ofValue_of_readKind hseparated hk ?_ (fun _ => Value.isPresent_of_items? hitems)
    (fun _ => hasLabels_of_isOptionOf hitems hoptions) nofun
  cases v with
  | list xs | tuple xs =>
      cases hitems
      exact ofItems_eq_ok_iff.mpr ⟨options, hread, rfl⟩
  | _ => cases hitems

theorem exists_isOptionOf
    (haccepted : ∀ x ∈ items, x.isPlain = true ∨
      ∃ m o, x = .map m ∧ (Value.map m).readAs (.record .option) = .ok o)
    (hlabels : ∀ x ∈ items, x.hasLabel = true) :
    ∃ options, List.Forall₂ IsOptionOf items options := by
  induction items with
  | nil => exact ⟨[], .nil⟩
  | cons x rest ih =>
      rw [List.forall_mem_cons] at haccepted hlabels
      obtain ⟨options, hoptions⟩ := ih haccepted.2 hlabels.2
      rcases haccepted.1 with hplain | ⟨m, o, rfl, hread⟩
      · have htext : x.hasText = true := by
          cases x <;> first | exact hlabels.1 | cases hplain
        exact ⟨_, .cons (.plain hplain htext) hoptions⟩
      · exact ⟨_, .cons (.mapping hread) hoptions⟩

/-- Where a list of options is accepted, a list that cannot be expanded is refused. -/
theorem ofValue_of_not_hasLabels
    {v : Value} (hitems : v.items? = some items) (hlabels : v.hasLabels = false) {s : Shape}
    (hk : .optionList ∈ s.kinds) :
    ofValue v s = refuse (.optionNotWritten .longInteger) := by
  rw [ofValue_eq, readShape, if_neg (by simp [Value.isPresent_of_items? hitems]),
    if_pos (by simp [hk, hlabels])]

section Field

variable {t : FieldType} (ht : t ∈ FieldType.choices) {entries : Entries}
  (htype : entries.getD "type" = .text t.tag) {v : Value}
  (hget : Entries.get? "options" entries = some v) (hitems : v.items? = some items)

include ht htype hget hitems

/-- A field of a type with options has the options that its items become. -/
theorem yieldsOptions
    (hoptions : List.Forall₂ IsOptionOf items options) :
    entries.YieldsOptions options := by
  obtain ⟨a, ha, hname, hsingle, hk⟩ := FieldType.exists_optionsAttribute ht
  have hwritten : written? a (expand (.field t) entries.offers) = some (a.name, Offer.of v) := by
    rw [written?_expand_of_single hsingle (by rw [hname]; decide), hname, hget]
    rfl
  have hvalue : ofValue v a.shape = .ok ⟨.list options, true⟩ :=
    ofValue_of_isOptionOf hitems hoptions (RecordType.shape_isSeparated ha) hk
  have hknown : t ≠ .unrecognized := by
    rintro rfl
    revert ht
    decide
  have hyields := yields_of_written hknown ha htype hwritten hvalue
  unfold Entries.Yields at hyields
  unfold Entries.YieldsOptions
  cases hread : (Value.map entries).readAs .field with
  | ok field =>
      rw [hread, hname] at hyields
      exact hyields
  | error faults =>
      rw [hread, hsingle, hname] at hyields
      exact fun f hf tag => hyields f hf tag "options" (List.mem_singleton_self _)

/-- A field of a type with options is refused at its options if a label cannot be written. -/
theorem refused_of_not_hasLabels
    (hlabels : v.hasLabels = false) :
    ∃ faults, (Value.map entries).readAs .field = .error faults ∧
      ⟨[.name t.tag, .name "options"], .optionNotWritten .longInteger⟩ ∈ faults := by
  obtain ⟨a, ha, hname, hsingle, hk⟩ := FieldType.exists_optionsAttribute ht
  have hknown : RecordType.field t ≠ .field .unrecognized := by
    rintro heq
    cases heq
    revert ht
    decide
  have hfault : HasFault (ofValue (.map entries) (.one .field))
      ⟨[.name t.tag, .name "options"], .optionNotWritten .longInteger⟩ := by
    have hofTag : fieldType (entries.getD "type") = t := by
      rw [htype]
      exact FieldType.ofTag_tag t
    rw [ofValue_field entries rfl, hofTag, hasFault_under_iff]
    refine ⟨[.name "options"], rfl, ?_⟩
    rw [← hname, hasFault_attribute_iff ha hsingle (by rw [hname]; decide) hknown
      (hname ▸ hget), ofValue_of_not_hasLabels hitems hlabels hk]
    exact hasFault_refuse_iff.mpr rfl
  obtain ⟨faults, hread, hmem⟩ := hfault
  exact ⟨faults, by rw [Value.readAs, hread]; rfl, hmem⟩

end Field

end Reading

namespace FieldType

open Element Reading

/-- Every item of an option list becomes the option that it stands for, in its place.  What the
options are written as becomes the same options, in whichever field they are put.  If one of the
labels cannot be written, the field is refused instead. -/
theorem options_of_items
    {t : FieldType} (ht : t ∈ choices) {entries : Entries}
    (htype : entries.getD "type" = .text t.tag) {v : Value}
    (hget : Entries.get? "options" entries = some v) {items : List Value}
    (hitems : v.items? = some items)
    (haccepted : ∀ x ∈ items, x.isPlain = true ∨
      ∃ m o, x = .map m ∧ (Value.map m).readAs (.record .option) = .ok o) :
    ((∀ x ∈ items, x.hasLabel = true) →
      ∃ options, List.Forall₂ IsOptionOf items options ∧ entries.YieldsOptions options ∧
        ∀ (nulls : Bool), ∀ u ∈ choices, ∀ again : Entries,
          again.getD "type" = .text u.tag →
          Entries.get? "options" again = some ((Element.list options).toValue nulls) →
          again.YieldsOptions options) ∧
      ((∃ x ∈ items, x.hasLabel = false) →
        ∃ faults, (Value.map entries).readAs .field = .error faults ∧
          ⟨[.name t.tag, .name "options"], .optionNotWritten .longInteger⟩ ∈ faults) := by
  constructor
  · intro hlabels
    obtain ⟨options, hoptions⟩ := exists_isOptionOf haccepted hlabels
    refine ⟨options, hoptions, yieldsOptions ht htype hget hitems hoptions, ?_⟩
    intro nulls u hu again htype hget
    rw [toValue_list] at hget
    exact yieldsOptions hu htype hget rfl (forall₂_isOptionOf_toValue hoptions nulls)
  · rintro ⟨x, hx, hlabel⟩
    refine refused_of_not_hasLabels ht htype hget hitems ?_
    rw [Value.hasLabels, hitems]
    exact List.all_eq_false.mpr ⟨x, hx, by simp [hlabel]⟩

/-- A field with one option, an integer that cannot be written. -/
def longOption : Entries :=
  [(.text "type", .text "select"), (.text "id", .text "a"), (.text "label", .text "A"),
    (.text "options", .list [.scalar .long])]

/-- The integer is plain, but the field with it as an option is refused. -/
theorem refused_longOption :
    (Value.scalar .long).isPlain = true ∧
      ∃ faults, (Value.map longOption).readAs .field = .error faults ∧
        ⟨[.name "select", .name "options"], .optionNotWritten .longInteger⟩ ∈ faults := by
  have hplain : (Value.scalar .long).isPlain = true := by
    rw [Scalar.long]
    rfl
  refine ⟨hplain, refused_of_not_hasLabels (t := select) (by decide) rfl rfl rfl ?_⟩
  rw [Value.hasLabels]
  exact List.all_eq_false.mpr ⟨.scalar .long, List.mem_singleton_self _, by
    simp [Value.hasLabel, Scalar.hasText_long]⟩

/-- Items of every form that options may have. -/
def mixedItems : List Value :=
  [.text "1", .integer 1, .flag true, .real (Decimal.Double.ofInt 1),
    .map [(.text "value", .integer 2), (.text "label", .text "two")]]

def mixedOptions : Entries :=
  [(.text "type", .text "multi_select"), (.text "options", .list mixedItems)]

theorem options_of_items_mixedOptions :
    mixedOptions.getD "type" = .text multiSelect.tag ∧
      ∃ field options, (Value.map mixedOptions).readAs .field = .ok field ∧
        field.attribute? "options" = some (.list options) ∧
        options.map (attribute? "value") =
          [some (.text "1"), some (.integer 1), some (.flag true),
            some (.value (.real (Decimal.Double.ofInt 1))), some (.integer 2)] ∧
        options.map (attribute? "label") =
          [some (.text "1"), some (.text "1"), some (.text "True"), some (.text "1.0"),
            some (.text "two")] := by
  have htype : mixedOptions.getD "type" = .text multiSelect.tag := rfl
  have hget : Entries.get? "options" mixedOptions = some (.list mixedItems) := rfl
  have htwo : (Value.map [(.text "value", .integer 2), (.text "label", .text "two")]).readAs
      (.record .option) = .ok (.record .option
        [("value", .integer 2), ("label", .text "two"), ("disabled", .null), ("group", .null),
          ("icon", .null), ("description", .null)] []) := rfl
  have haccepted : ∀ x ∈ mixedItems, x.isPlain = true ∨
      ∃ m o, x = .map m ∧ (Value.map m).readAs (.record .option) = .ok o := by
    simp only [mixedItems, List.forall_mem_cons]
    exact ⟨.inl rfl, .inl rfl, .inl rfl, .inl rfl, .inr ⟨_, _, rfl, htwo⟩, by simp⟩
  have hlabels : ∀ x ∈ mixedItems, x.hasLabel = true := by decide
  obtain ⟨options, hoptions, hyields, -⟩ :=
    (options_of_items (by decide) htype hget rfl haccepted).1 hlabels
  have hbuilt : ∃ field, (Value.map mixedOptions).readAs .field = .ok field := ⟨_, rfl⟩
  obtain ⟨field, hfield⟩ := hbuilt
  rw [Entries.YieldsOptions, hfield] at hyields
  refine ⟨htype, field, options, hfield, hyields, ?_⟩
  obtain _ | ⟨h₁, _ | ⟨h₂, _ | ⟨h₃, _ | ⟨h₄, _ | ⟨h₅, _ | _⟩⟩⟩⟩⟩ := hoptions
  cases h₁
  cases h₂
  cases h₃
  cases h₄
  obtain ⟨⟨⟩⟩ | hread := h₅
  cases htwo.symm.trans hread
  exact ⟨rfl, rfl⟩

end FieldType

end Wireframe
