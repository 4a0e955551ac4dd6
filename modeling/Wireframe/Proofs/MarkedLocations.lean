import Mathlib.Tactic
import Wireframe.Proofs.Builders
import Wireframe.Proofs.FaultLocations
import Wireframe.Proofs.Fitting
import Wireframe.Proofs.Nodes
import Wireframe.Proofs.PartFaults

/-!
# What the steps of a location stand for

The location of a fault mixes steps to parts of the value with names that the reader puts in: of
the alternatives that it tried, and of what is not written.  Nothing tells these apart, so where a
fault is followed through the value, a name that the reader put in is taken for a step if there
happens to be such a key.  Unless there is one, the path of a fault has the steps to the parts and
nothing else.
-/

namespace Wireframe

open Reading

/-- What a step stands for: a part of the value that is written there, a name that the reader puts
in for itself, or an attribute that is not written. -/
inductive Mark
  | part
  | label
  | absent
  deriving DecidableEq, Repr

/-- A location with what each of its steps stands for. -/
abbrev MarkedLocation := List (Mark × Step)

namespace MarkedLocation

def steps (l : MarkedLocation) : Location := l.map Prod.snd

/-- The steps to parts of the value. -/
def written (l : MarkedLocation) : Location :=
  (l.filter fun e => e.1 = .part).map Prod.snd

/-- No name that the reader puts in is a key of the value where it stands. -/
def IsClear : MarkedLocation → Value → Prop
  | [], _ => True
  | (.part, step) :: l, v => ∀ w, v.child? step = some w → IsClear l w
  | (.label, step) :: l, v => v.child? step = none ∧ IsClear l v
  | (.absent, _) :: l, v => IsClear l v

end MarkedLocation

/-- The type of the field that a value is read as. -/
def Value.fieldType : Value → FieldType
  | .map entries => Reading.fieldType (Entries.getD "type" entries)
  | _ => .unrecognized

/-- The attribute that a value in a list of options is taken for. -/
def optionValue : Attribute := .needAny "value" [.text, .whole, .number, .flag]

/-- The steps of the location at which a value that is read as a shape is refused. -/
inductive Marked : Value → Shape → MarkedLocation → Cause → Prop
  | here (v : Value) (s : Shape) (cause : Cause) : Marked v s [] cause
  -- Alternatives and types of fields are told by names that are no parts of the value.
  | choice {v s k l cause} (hk : k ∈ s.kinds) (hseveral : 1 < s.kinds.length)
      (hrest : Marked v (.one k) l cause) :
      Marked v s ((.label, .name (Reading.label k)) :: l) cause
  | field {v s l cause} (hkinds : s.kinds = [.field])
      (hrest : Marked v (.one (.record (.field v.fieldType))) l cause) :
      Marked v s ((.label, .name v.fieldType.tag) :: l) cause
  | item {items s k j x l cause} {i : Nat} (hkinds : s.kinds = [k]) (hitem : k.item? = some j)
      (hget : items[i]? = some x) (hrest : Marked x (.one j) l cause) :
      Marked (.list items) s ((.part, .place i) :: l) cause
  | shortOption {items s x l cause} {i : Nat} (hkinds : s.kinds = [.optionList])
      (hget : items[i]? = some x) (hmap : x.isMap = false)
      (hrest : Marked x optionValue.shape l cause) :
      Marked (.list items) s ((.part, .place i) :: (.absent, .name "value") :: l) cause
  -- The key is told by a step that leads to the value, or else nothing below can be found.
  | entry {entries s k j key x l cause} (hkinds : s.kinds = [k]) (hentry : k.entry? = some j)
      (hchild : (Value.map entries).child? (keyStep key) = some x)
      (hrest : Marked x (.one j) l cause) :
      Marked (.map entries) s ((.part, keyStep key) :: l) cause
  | key {entries s k j key x cause} (hkinds : s.kinds = [k]) (hentry : k.entry? = some j)
      (hchild : (Value.map entries).child? (keyStep key) = some x) :
      Marked (.map entries) s [(.part, keyStep key), (.label, .name "[key]")] cause
  | strayKey {entries s key x} (hkinds : s.kinds = [.record (.field .unrecognized)])
      (hchild : (Value.map entries).child? (keyStep key) = some x) :
      Marked (.map entries) s [(.part, keyStep key)] .keyNotText
  | lost {entries s k key x cause} (hkinds : s.kinds = [k])
      (hkeys : k.entry?.isSome = true ∨ k = .record (.field .unrecognized))
      (hmem : (key, x) ∈ entries)
      (hchild : (Value.map entries).child? (keyStep key) ≠ some x) (l : Location) :
      Marked (.map entries) s ((keyStep key :: l).map (Mark.label, ·)) cause
  -- Attributes are told by the spelling under which they are written, if they are written.
  | named {entries s t a spelling x l cause} (hkinds : s.kinds = [.record t])
      (ha : a ∈ t.attributes) (hspelling : spelling ∈ a.spellings)
      (hget : Entries.get? spelling entries = some x) (hrest : Marked x a.shape l cause) :
      Marked (.map entries) s ((.part, .name spelling) :: l) cause
  | missing {entries s t a} (hkinds : s.kinds = [.record t]) (ha : a ∈ t.attributes)
      (hnone : Entries.get? a.name entries = none) :
      Marked (.map entries) s [(.absent, .name a.name)] .missing
  | filled {entries s t name cause} (hkinds : s.kinds = [.record (.field t)])
      (hname : name ∈ ["id", "label", "text"]) :
      Marked (.map entries) s
        [(if (Entries.get? name entries).isSome then .part else .absent, .name name)] cause

/-! ## Following a marked location -/

section Follow

variable {v : Value} {step : Step} {l : MarkedLocation} {s : Shape} {cause : Cause}

theorem Value.child?_name (entries : Entries) (name : String) :
    (Value.map entries).child? (.name name) = Entries.get? name entries := rfl

theorem Value.child?_name_of_not_map (hmap : v.isMap = false) (name : String) :
    v.child? (.name name) = none := by
  cases v with
  | map entries => cases hmap
  | _ => rfl

/-- Names that the reader puts in are left out if they lead nowhere. -/
theorem MarkedLocation.trail_labels
    {names : Location} (hclear : MarkedLocation.IsClear (names.map (Mark.label, ·)) v) :
    v.trail names = [] := by
  induction names with
  | nil => rfl
  | cons name names ih =>
      obtain ⟨hnone, hrest⟩ := hclear
      rw [Value.trail_cons_of_none hnone, ih hrest]

/-- If no name that the reader puts in is a key where it stands, the steps to parts are the ones
that lead somewhere. -/
theorem Marked.trail_eq (hmarked : Marked v s l cause) (hclear : l.IsClear v) :
    v.trail l.steps = l.written := by
  induction hmarked with
  | here => rfl
  | choice _ _ _ ih => exact (Value.trail_cons_of_none hclear.1 _).trans (ih hclear.2)
  | field _ _ ih => exact (Value.trail_cons_of_none hclear.1 _).trans (ih hclear.2)
  | item _ _ hget _ ih =>
      have hchild := Value.child?_place hget
      exact (Value.trail_cons hchild _).trans (congrArg _ (ih (hclear _ hchild)))
  | shortOption _ hget hmap _ ih =>
      have hchild := Value.child?_place hget
      have hskip := Value.trail_cons_of_none (Value.child?_name_of_not_map hmap "value")
      refine (Value.trail_cons hchild _).trans (congrArg _ ?_)
      exact (hskip _).trans (ih (hclear _ hchild))
  | entry _ _ hchild _ ih =>
      exact (Value.trail_cons hchild _).trans (congrArg _ (ih (hclear _ hchild)))
  | key _ _ hchild =>
      have hskip := Value.trail_cons_of_none (hclear _ hchild).1
      exact (Value.trail_cons hchild _).trans (congrArg _ (hskip []))
  | strayKey _ hchild => exact Value.trail_cons hchild []
  | @lost _ _ _ key _ _ _ _ _ _ names =>
      have hsteps : MarkedLocation.steps ((keyStep key :: names).map (Mark.label, ·)) =
          keyStep key :: names := by
        simp [MarkedLocation.steps, Function.comp_def]
      have hwritten :
          MarkedLocation.written ((keyStep key :: names).map (Mark.label, ·)) = [] := by
        simp [MarkedLocation.written]
      rw [hsteps, hwritten]
      exact MarkedLocation.trail_labels hclear
  | named _ _ _ hget _ ih =>
      have hchild := (Value.child?_name _ _).trans hget
      exact (Value.trail_cons hchild _).trans (congrArg _ (ih (hclear _ hchild)))
  | missing _ _ hnone =>
      exact Value.trail_cons_of_none ((Value.child?_name _ _).trans hnone) []
  | @filled entries _ _ name _ _ _ =>
      cases hget : Entries.get? name entries with
      | none => exact Value.trail_cons_of_none ((Value.child?_name _ _).trans hget) []
      | some x => exact Value.trail_cons ((Value.child?_name _ _).trans hget) []

end Follow

/-! ## Every fault has a marked location -/

namespace Reading

/-- The fault of a value that is read as a shape has a marked location. -/
def HasMarks (v : Value) (s : Shape) (f : Fault) : Prop :=
  ∃ l, Marked v s l f.cause ∧ l.steps = f.location

/-- Where no action is wanted, every fault of a value has a marked location. -/
def IsMarked (v : Value) : Prop :=
  ∀ s : Shape, (∀ k ∈ s.kinds, k.isTagless = true) → ∀ f, HasFault (ofValue v s) f → HasMarks v s f

section Marks

variable {v : Value} {entries : Entries} {s s' : Shape} {k : Kind} {f : Fault}

theorem IsMarked.one (hv : IsMarked v) (hk : k.isTagless = true)
    (hfault : HasFault (ofValue v (.one k)) f) :
    HasMarks v (.one k) f :=
  hv _ (by simpa [Shape.one] using hk) f hfault

theorem hasMarks_here (hlocation : f.location = []) : HasMarks v s f :=
  ⟨[], .here v s f.cause, hlocation.symm⟩

theorem location_of_hasFault_refuse
    {α : Type} {cause : Cause} (hfault : HasFault (refuse cause : Except (List Fault) α) f) :
    f.location = [] := by
  rw [hasFault_refuse_iff.mp hfault]

theorem location_of_hasFault_ofCoerced
    {α : Type} {g : α → Element} {coerced : Except Cause (Coerced α)}
    (hfault : HasFault (ofCoerced g coerced) f) :
    f.location = [] := by
  cases coerced with
  | ok c => exact absurd hfault (not_hasFault_ok _)
  | error cause => exact location_of_hasFault_refuse hfault

/-- Of the faults of a choice each is told below the name of its alternative. -/
theorem hasFault_choose
    {outcomes : List (String × Outcome)} (hfault : HasFault (choose outcomes) f) :
    ∃ o ∈ outcomes, ∃ below, f.location = .name o.1 :: below ∧
      HasFault o.2 ⟨below, f.cause⟩ := by
  unfold choose at hfault
  split at hfault
  next o hfound =>
    have ho : o ∈ outcomes := by
      rw [Option.orElse_eq_orElse, Option.orElse_eq_or, Option.or_eq_some_iff] at hfound
      rcases hfound with hfinal | ⟨-, hok⟩
      · exact List.mem_of_find?_eq_some hfinal
      · exact List.mem_of_find?_eq_some hok
    exact ⟨o, ho, hasFault_under_iff.mp hfault⟩
  next =>
    obtain ⟨o, ho, hmem⟩ := List.mem_flatMap.mp (hasFault_error_iff.mp hfault)
    refine ⟨o, ho, ?_⟩
    cases hread : named o with
    | ok r => simp [hread] at hmem
    | error faults =>
        simp only [hread] at hmem
        exact hasFault_under_iff.mp ⟨faults, hread, hmem⟩

/-- The faults of an entry are those of its key and those of its value. -/
theorem hasFault_readEntry
    {key : Key} {offer : Offer} (hfault : HasFault (readEntry k key offer) f) :
    f.location = [keyStep key, .name "[key]"] ∨
      ∃ below, f.location = keyStep key :: below ∧
        HasFault (offer.read (.one k)) ⟨below, f.cause⟩ := by
  obtain ⟨faults, hfaults, hmem⟩ := hfault
  have hboth : Fails (fun faults => ∀ f ∈ faults,
      f.location = [keyStep key, .name "[key]"] ∨
        ∃ below, f.location = keyStep key :: below ∧
          HasFault (offer.read (.one k)) ⟨below, f.cause⟩) (readEntry k key offer) := by
    refine fails_readEntry (isAdditive_forall _) (fun _ _ f hf => .inl ?_) ?_
    · rw [List.mem_singleton.mp hf]
    · intro faults hread f hf
      exact .inr (hasFault_under_iff.mp ⟨Fault.under (keyStep key) faults, by rw [hread]; rfl, hf⟩)
  exact hboth faults hfaults f hmem

/-! ### Tables -/

/-- A step that is told for an entry leads to it, or nothing is found from there on. -/
theorem hasMarks_entry
    {j : Kind} (hkinds : s.kinds = [k]) (hentry : k.entry? = some j) {key : Key} {x : Value}
    (hmem : (key, x) ∈ entries) (hx : IsMarked x) (hj : j.isTagless = true)
    (hfault : HasFault (readEntry j key (Offer.of x)) f) :
    HasMarks (.map entries) s f := by
  have hlost (hchild : (Value.map entries).child? (keyStep key) ≠ some x) {below : Location}
      (hlocation : f.location = keyStep key :: below) : HasMarks (.map entries) s f := by
    refine ⟨_, .lost hkinds (.inl (by simp [hentry])) hmem hchild below, ?_⟩
    simp [MarkedLocation.steps, Function.comp_def, hlocation]
  by_cases hchild : (Value.map entries).child? (keyStep key) = some x
  · rcases hasFault_readEntry hfault with hkey | ⟨below, hlocation, hvalue⟩
    · exact ⟨_, .key hkinds hentry hchild, hkey.symm⟩
    · obtain ⟨l, hmarked, hsteps⟩ := hx.one hj hvalue
      refine ⟨_, .entry hkinds hentry hchild hmarked, ?_⟩
      rw [hlocation]
      exact congrArg _ hsteps
  · rcases hasFault_readEntry hfault with hkey | ⟨below, hlocation, -⟩
    · exact hlost hchild hkey
    · exact hlost hchild hlocation

theorem hasMarks_table
    {j : Kind} (hkinds : s.kinds = [k]) (hentry : k.entry? = some j)
    (hentries : ∀ e ∈ entries, IsMarked e.2) (hj : j.isTagless = true)
    (hfault : HasFault (readTable j entries.offers) f) :
    HasMarks (.map entries) s f := by
  obtain ⟨o, ho, hread⟩ := hasFault_readTable_iff.mp hfault
  obtain ⟨e, he, rfl⟩ := List.mem_map.mp ho
  exact hasMarks_entry hkinds hentry he (hentries e he) hj hread

/-! ### Lists -/

theorem hasMarks_items
    {j : Kind} {items : List Value} (hkinds : s.kinds = [k]) (hitem : k.item? = some j)
    (hitems : ∀ x ∈ items, IsMarked x) (hj : j.isTagless = true)
    (hfault : HasFault (ofItems (readItems (fun o => o.read (.one j)) (items.map Offer.of))) f) :
    HasMarks (.list items) s f := by
  obtain ⟨i, o, below, hget, hlocation, hvalue⟩ := hasFault_readItems_iff.mp hfault
  rw [List.getElem?_map] at hget
  obtain ⟨x, hx, rfl⟩ := Option.map_eq_some_iff.mp hget
  obtain ⟨l, hmarked, hsteps⟩ := (hitems x (List.mem_of_getElem? hx)).one hj hvalue
  refine ⟨_, .item hkinds hitem hx hmarked, ?_⟩
  rw [hlocation]
  exact congrArg _ hsteps

/-- Of an option that is only a value nothing else can be refused. -/
theorem exists_marked_shortOption
    {x : Value} (hx : IsMarked x)
    (hfault : HasFault (readRecord .option
      (Entries.offers [(.text "value", x), (.text "label", .text x.render)])) f) :
    ∃ l, Marked x optionValue.shape l f.cause ∧ f.location = .name "value" :: l.steps := by
  have hattributes : ∀ a ∈ RecordType.option.attributes, a.spellings = [a.name] ∧
      (a.name = "value" → a = optionValue) ∧ (a.name = "label" → a.shape = .one .text) ∧
      (Element.ofDefault? a.default = none → a.name = "value" ∨ a.name = "label") := by
    decide
  have hwritten (a : Attribute) (ha : a.spellings = [a.name]) :
      written? a (Entries.offers [(.text "value", x), (.text "label", .text x.render)]) =
        if a.name = "value" then some ("value", Offer.of x)
        else if a.name = "label" then some ("label", Offer.of (.text x.render)) else none := by
    rw [written?_offers, Attribute.spelling?, ha]
    by_cases hvalue : a.name = "value"
    · simp [hvalue, Entries.get?, Key.text?]
    · by_cases hlabel : a.name = "label"
      · simp [hlabel, Entries.get?, Key.text?]
      · simp [hvalue, hlabel, Ne.symm hvalue, Ne.symm hlabel, Entries.get?, Key.text?]
  have hexpand := expand_of_not_field (t := .option) (by simp)
    (Entries.offers [(.text "value", x), (.text "label", .text x.render)])
  rw [hasFault_readRecord_iff, hexpand, readExtras_of_ne (t := .option) (by simp),
    or_iff_left (not_hasFault_ok [])] at hfault
  obtain ⟨a, ha, hread⟩ := hfault
  obtain ⟨hsingle, hvalue, hlabel, hrequired⟩ := hattributes a ha
  rw [hasFault_readAttribute_iff, hwritten a hsingle] at hread
  rcases hread with ⟨spelling, o, below, hfound, hlocation, hrest⟩ | ⟨hnone, hdefault, -⟩
  · split_ifs at hfound with hname hname'
    · cases hfound
      rw [hvalue hname] at hrest
      obtain ⟨l, hmarked, hsteps⟩ := hx optionValue.shape (by decide) _ hrest
      exact ⟨l, hmarked, hlocation.trans (congrArg _ hsteps.symm)⟩
    · cases hfound
      rw [hlabel hname'] at hrest
      exact absurd hrest (not_hasFault_ok _)
  · rcases hrequired hdefault with hname | hname <;> simp [hname] at hnone

/-! ### Records -/

/-- What a shorthand fills in is a text. -/
theorem kinds_of_filled
    (t : FieldType) {a : Attribute} (ha : a ∈ (RecordType.field t).attributes) {spelling : String}
    (hspelling : spelling ∈ a.spellings) (hname : spelling ∈ ["id", "label", "text"]) :
    a.shape.kinds = [.text] := by
  have hall : (RecordType.field t).attributes.all (fun a =>
      !a.spellings.any ["id", "label", "text"].contains || a.shape.kinds == [.text]) = true := by
    cases t <;> decide +kernel
  have ha := List.all_eq_true.mp hall a ha
  have hany : a.spellings.any ["id", "label", "text"].contains = true :=
    List.any_eq_true.mpr ⟨spelling, hspelling, by simpa using hname⟩
  simpa [hany] using ha

theorem location_of_hasFault_text
    {o : Offer} (ho : (∃ v, o = Offer.of v) ∨ o = Offer.ofText "") (hkinds : s.kinds = [.text])
    (hfault : HasFault (o.read s) f) :
    f.location = [] := by
  rcases ho with ⟨v, rfl⟩ | rfl
  · rw [read_of, ofValue_eq, readShape_of_single hkinds nofun] at hfault
    split_ifs at hfault
    · exact absurd hfault (not_hasFault_ok _)
    · exact location_of_hasFault_ofCoerced hfault
  · exact absurd hfault (not_hasFault_ok _)

/-- No attribute of a field has to be written. -/
theorem exists_default_of_field
    (t : FieldType) {a : Attribute} (ha : a ∈ (RecordType.field t).attributes) :
    (Element.ofDefault? a.default).isSome = true := by
  have hall : (RecordType.field t).attributes.all
      (fun a => (Element.ofDefault? a.default).isSome) = true := by
    cases t <;> decide +kernel
  exact List.all_eq_true.mp hall a ha

/-- What a record is read from is written, or a shorthand of a field fills it in. -/
theorem written_or_filled
    {t : RecordType} {name : String} {o : Offer}
    (hfound : Offer.find? name (expand t entries.offers) = some o) :
    (∃ x, Entries.get? name entries = some x ∧ o = Offer.of x) ∨
      (∃ ft, t = .field ft) ∧ name ∈ ["id", "label", "text"] ∧
        ((∃ v, o = Offer.of v) ∨ o = Offer.ofText "") := by
  have hwritten {n : String} (hn : Offer.find? n entries.offers = some o) :
      ∃ x, Entries.get? n entries = some x ∧ o = Offer.of x := by
    rw [find?_offers] at hn
    obtain ⟨x, hget, rfl⟩ := Option.map_eq_some_iff.mp hn
    exact ⟨x, hget, rfl⟩
  by_cases hfield : ∃ ft, t = .field ft
  · by_cases hname : name ∈ ["id", "label", "text"]
    · refine .inr ⟨hfield, hname, ?_⟩
      rcases find?_expand_eq_some hfound with ⟨n, hn⟩ | ⟨-, -, hempty⟩
      · obtain ⟨x, -, hx⟩ := hwritten hn
        exact .inl ⟨x, hx⟩
      · exact .inr hempty
    · simp only [List.mem_cons, List.not_mem_nil, or_false, not_or] at hname
      rw [find?_expand_of_ne name hname.1 hname.2.1 hname.2.2] at hfound
      exact .inl (hwritten hfound)
  · rw [expand_of_not_field (not_exists.mp hfield)] at hfound
    exact .inl (hwritten hfound)

/-- An attribute is only missing where nothing is filled in, so it is not written. -/
theorem get?_of_missing
    {t : RecordType} {a : Attribute} (ha : a ∈ t.attributes)
    (hnone : written? a (expand t entries.offers) = none)
    (hdefault : Element.ofDefault? a.default = none) :
    Entries.get? a.name entries = none := by
  have hother (ft : FieldType) : t ≠ .field ft := by
    rintro rfl
    simpa [hdefault] using exists_default_of_field ft ha
  have hspelled : a.name ∈ a.spellings :=
    List.mem_of_find?_eq_some (RecordType.find?_spellings ha)
  rw [expand_of_not_field hother, written?, List.findSome?_eq_none_iff] at hnone
  have habsent := hnone a.name hspelled
  rwa [find?_offers, Option.map_eq_none_iff, Option.map_eq_none_iff] at habsent

theorem hasMarks_attribute
    {t : RecordType} (hkinds : s.kinds = [.record t]) (ht : (Kind.record t).isTagless = true)
    (hentries : ∀ e ∈ entries, IsMarked e.2) {a : Attribute} (ha : a ∈ t.attributes)
    (hfault : HasFault (readAttribute (expand t entries.offers) a) f) :
    HasMarks (.map entries) s f := by
  rcases hasFault_readAttribute_iff.mp hfault with
    ⟨spelling, o, below, hwritten, hlocation, hvalue⟩ | ⟨hnone, hdefault, rfl⟩
  · obtain ⟨hspelling, hfound⟩ := written?_eq_some hwritten
    rcases written_or_filled hfound with ⟨x, hget, rfl⟩ | ⟨⟨ft, rfl⟩, hname, ho⟩
    · obtain ⟨key, hmem, -⟩ := Entries.get?_mem hget
      have htagless := fun k hk => RecordType.isTagless_of_mem ht ha (k := k) hk
      obtain ⟨l, hmarked, hsteps⟩ := hentries _ hmem a.shape htagless _ hvalue
      exact ⟨_, .named hkinds ha hspelling hget hmarked, (congrArg _ hsteps).trans hlocation.symm⟩
    · -- A text is refused as a whole, so nothing is located below the name.
      have hbelow := location_of_hasFault_text ho (kinds_of_filled ft ha hspelling hname) hvalue
      refine ⟨_, .filled hkinds hname, ?_⟩
      rw [hlocation, show below = [] from hbelow]
      rfl
  · exact ⟨_, .missing hkinds ha (get?_of_missing ha hnone hdefault), rfl⟩

theorem hasMarks_extra
    (hkinds : s.kinds = [.record (.field .unrecognized)])
    (hfault : HasFault (readExtras (.field .unrecognized) (fillName entries.offers)) f) :
    HasMarks (.map entries) s f := by
  unfold readExtras at hfault
  rw [hasFault_map_iff, hasFault_collect_iff] at hfault
  obtain ⟨o, ho, hread⟩ := hfault
  unfold readExtra at hread
  split at hread
  · exact absurd hread (not_hasFault_ok _)
  next htext =>
    rw [hasFault_under_iff] at hread
    obtain ⟨below, hlocation, hrefused⟩ := hread
    obtain ⟨rfl, hcause⟩ := Fault.mk.inj (hasFault_refuse_iff.mp hrefused)
    obtain ⟨e, he, hkey⟩ : ∃ e ∈ entries, e.1 = o.1 := by
      rcases key_of_mem_fillName ho with ⟨name, hname⟩ | ⟨p, hp, hkey⟩
      · rw [hname] at htext
        cases htext
      · obtain ⟨e, he, rfl⟩ := List.mem_map.mp hp
        exact ⟨e, he, hkey⟩
    rw [← hkey] at hlocation
    rw [HasMarks, hcause, hlocation]
    by_cases hchild : (Value.map entries).child? (keyStep e.1) = some e.2
    · exact ⟨_, .strayKey hkinds hchild, rfl⟩
    · exact ⟨_, .lost hkinds (.inr rfl) he hchild [], rfl⟩

theorem hasMarks_record
    {t : RecordType} (hkinds : s.kinds = [.record t]) (ht : (Kind.record t).isTagless = true)
    (hentries : ∀ e ∈ entries, IsMarked e.2)
    (hfault : HasFault (readRecord t entries.offers) f) :
    HasMarks (.map entries) s f := by
  rcases hasFault_readRecord_iff.mp hfault with ⟨a, ha, hread⟩ | hextras
  · exact hasMarks_attribute hkinds ht hentries ha hread
  · by_cases hunrecognized : t = .field .unrecognized
    · subst hunrecognized
      exact hasMarks_extra hkinds hextras
    · rw [readExtras_of_ne hunrecognized] at hextras
      exact absurd hextras (not_hasFault_ok [])

/-! ### Values -/

/-- The faults of a choice are those of its alternatives, each below the name of one. -/
theorem isMarked_of_kinds
    (hkind : ∀ k : Kind, k.isTagless = true → ∀ s : Shape, s.kinds = [k] →
      ∀ f, HasFault (readKind v (partsOf v) k) f → HasMarks v s f) :
    IsMarked v := by
  intro s htagless f hfault
  rw [ofValue_eq, readShape] at hfault
  split_ifs at hfault
  · exact absurd hfault (not_hasFault_ok _)
  · exact hasMarks_here (location_of_hasFault_refuse hfault)
  · split at hfault
    next k hkinds => exact hkind k (htagless k (by simp [hkinds])) s hkinds f hfault
    next hseveral =>
      obtain ⟨o, ho, below, hlocation, hread⟩ := hasFault_choose hfault
      obtain ⟨k, hk, rfl⟩ := List.mem_map.mp ho
      obtain ⟨l, hmarked, hsteps⟩ := hkind k (htagless k hk) (.one k) rfl _ hread
      have hlength : 1 < s.kinds.length := by
        rcases hcases : s.kinds with - | ⟨j, - | ⟨j', rest⟩⟩
        · simp [hcases] at hk
        · exact absurd hcases (hseveral j)
        · simp
      exact ⟨_, .choice hk hlength hmarked, (congrArg _ hsteps).trans hlocation.symm⟩

/-- A value that is no mapping is refused as a field under the name of unrecognized fields. -/
theorem hasMarks_noField
    (hkinds : s.kinds = [.field]) (hmap : v.isMap = false)
    (hfault : HasFault (readKind v (partsOf v) .field) f) :
    HasMarks v s f := by
  have htype : v.fieldType = .unrecognized := by cases v <;> first | rfl | cases hmap
  have hrefused : HasFault (under (.name FieldType.unrecognized.tag)
      (refuse (.notRecord (RecordType.className (.field .unrecognized)))) : Outcome) f := by
    cases v <;> first | exact hfault | cases hmap
  obtain ⟨below, hlocation, hread⟩ := hasFault_under_iff.mp hrefused
  refine ⟨_, .field hkinds (.here _ _ _), ?_⟩
  rw [hlocation, show below = [] from location_of_hasFault_refuse hread, htype]
  rfl

/-- What takes scalars refuses a value right where it is. -/
theorem hasMarks_ofScalars
    {parts : Parts} (hitem : k.item? = none) (hentry : k.entry? = none)
    (hholds : ∀ t, k.holds t = false) (hfault : HasFault (readKind v parts k) f) :
    HasMarks v s f := by
  apply hasMarks_here
  cases k with
  | anything => exact absurd hfault (not_hasFault_ok _)
  | listOf j => cases hitem
  | optionList => cases hitem
  | commaList => cases hitem
  | tableOf j => cases hentry
  | row => cases hentry
  | record t => simpa [Kind.holds] using hholds t
  | action => simpa [Kind.holds] using hholds (.action .submit)
  | field => simpa [Kind.holds] using hholds (.field .unrecognized)
  | _ =>
      unfold readKind at hfault
      exact location_of_hasFault_ofCoerced hfault

theorem isMarked_scalar (x : Scalar) : IsMarked (.scalar x) := by
  refine isMarked_of_kinds fun k hk s hkinds f hfault => ?_
  cases k with
  | field => exact hasMarks_noField hkinds rfl hfault
  | action => cases hk
  | commaList =>
      cases x with
      | text words => exact absurd hfault (not_hasFault_ok _)
      | _ => exact hasMarks_here (location_of_hasFault_refuse hfault)
  | listOf | tableOf | row | optionList | record =>
      exact hasMarks_here (location_of_hasFault_refuse hfault)
  | _ => exact hasMarks_ofScalars rfl rfl (fun _ => rfl) hfault

theorem isMarked_list
    {items : List Value} (hitems : ∀ x ∈ items, IsMarked x) :
    IsMarked (.list items) := by
  refine isMarked_of_kinds fun k hk s hkinds f hfault => ?_
  cases k with
  | listOf j => exact hasMarks_items hkinds rfl hitems hk hfault
  | commaList => exact hasMarks_items hkinds rfl hitems rfl hfault
  | optionList =>
      obtain ⟨i, o, below, hget, hlocation, hread⟩ := hasFault_readItems_iff.mp hfault
      rw [List.getElem?_map] at hget
      obtain ⟨x, hx, rfl⟩ := Option.map_eq_some_iff.mp hget
      have hx' := hitems x (List.mem_of_getElem? hx)
      rw [readOption_of] at hread
      cases hmap : x.isMap with
      | true =>
          have hsame : x.expandOption = x := by cases x <;> first | rfl | cases hmap
          rw [hsame] at hread
          obtain ⟨l, hmarked, hsteps⟩ := hx'.one rfl hread
          exact ⟨_, .item hkinds rfl hx hmarked, (congrArg _ hsteps).trans hlocation.symm⟩
      | false =>
          have hexpand : x.expandOption =
              .map [(.text "value", x), (.text "label", .text x.render)] := by
            cases x <;> first | rfl | cases hmap
          rw [hexpand, ofValue_record] at hread
          obtain ⟨l, hmarked, hbelow⟩ := exists_marked_shortOption hx' hread
          refine ⟨_, .shortOption hkinds hx hmap hmarked, ?_⟩
          rw [hlocation, show below = _ from hbelow]
          rfl
  | field => exact hasMarks_noField hkinds rfl hfault
  | action => cases hk
  | tableOf | row | record => exact hasMarks_here (location_of_hasFault_refuse hfault)
  | _ => exact hasMarks_ofScalars rfl rfl (fun _ => rfl) hfault

theorem isMarked_map
    (hentries : ∀ e ∈ entries, IsMarked e.2) :
    IsMarked (.map entries) := by
  refine isMarked_of_kinds fun k hk s hkinds f hfault => ?_
  cases k with
  | tableOf j => exact hasMarks_table hkinds rfl hentries hk hfault
  | row => exact hasMarks_table hkinds rfl hentries rfl hfault
  | record t => exact hasMarks_record hkinds hk hentries hfault
  | field =>
      simp only [readKind, partsOf, readField, valueOf_offers] at hfault
      obtain ⟨below, hlocation, hread⟩ := hasFault_under_iff.mp hfault
      obtain ⟨l, hmarked, hsteps⟩ := hasMarks_record (s := .one _) rfl rfl hentries hread
      exact ⟨_, .field hkinds hmarked, (congrArg _ hsteps).trans hlocation.symm⟩
  | action => cases hk
  | listOf | optionList | commaList => exact hasMarks_here (location_of_hasFault_refuse hfault)
  | _ => exact hasMarks_ofScalars rfl rfl (fun _ => rfl) hfault

/-- Every fault of a raw value of which no action is wanted has a marked location. -/
theorem isMarked_of_isRaw (hraw : v.isRaw = true) : IsMarked v := by
  induction v using Value.inductionOn with
  | scalar x => exact isMarked_scalar x
  | list items ih =>
      rw [Value.isRaw_list] at hraw
      exact isMarked_list fun x hx => ih x hx (hraw x hx)
  | map entries ih =>
      rw [Value.isRaw_map] at hraw
      exact isMarked_map fun e he => ih e he (hraw e he)
  | tuple items ih => simp [Value.isRaw] at hraw
  | set keys => simp [Value.isRaw] at hraw
  | back levels => simp [Value.isRaw] at hraw

end Marks

end Reading

open MarkedLocation

/-- Every fault of a field has a location of which it is known what the steps stand for.  If no
name that the reader puts in is a key where it stands, the path of the diagnostic has the steps to
parts of the field and no others. -/
theorem path_of_marked
    {entries : Entries} (hraw : (Value.map entries).isRaw = true) {faults : List Fault}
    (hrefused : (Value.map entries).readAs .field = .error faults) :
    ∀ f ∈ faults,
      (∃ l, Marked (.map entries) (.one .field) l f.cause ∧ l.steps = f.location) ∧
      ∀ l, Marked (.map entries) (.one .field) l f.cause → l.steps = f.location →
        l.IsClear (.map entries) →
          (f.diagnose (.map entries)).path = Location.render l.written := by
  intro f hf
  have hfault : HasFault (ofValue (.map entries) (.one .field)) f :=
    (hasFault_map_iff _).mp ⟨faults, hrefused, hf⟩
  refine ⟨(isMarked_of_isRaw hraw).one rfl hfault, fun l hmarked hsteps hclear => ?_⟩
  rw [← hmarked.trail_eq hclear, hsteps]
  rfl

/-- A field with an option that is not clear about whether it is disabled. -/
def unclearOption : Entries :=
  [(.text "field_name", .text "Size"), (.text "type", .text "select"),
    (.text "options", .list [.map [(.text "value", .text "s"), (.text "label", .text "S"),
      (.text "disabled", .text "maybe")]])]

/-- Where the option of the field is refused. -/
def unclearOptionSteps : MarkedLocation :=
  [(.label, .name "select"), (.part, .name "options"), (.label, .name "list[SelectOption]"),
    (.part, .place 0), (.part, .name "disabled")]

theorem refused_unclearOption :
    (Value.map unclearOption).readAs .field = .error
      [⟨unclearOptionSteps.steps, .unclearFlag⟩,
        ⟨[.name "select", .name "options", .name "str"], .notText⟩] :=
  Yaml.eq_error_of_map (by decide +kernel)

theorem marked_unclearOption :
    Marked (.map unclearOption) (.one .field) unclearOptionSteps .unclearFlag := by
  have hoptions : ∃ a ∈ (RecordType.field .select).attributes, a.name = "options" ∧
      a.spellings = ["options"] ∧ a.shape.kinds = [.optionList, .text] := by decide
  have hdisabled : ∃ a ∈ RecordType.option.attributes, a.spellings = ["disabled"] := by decide
  obtain ⟨options, hmem, hname, hspelled, hkinds⟩ := hoptions
  obtain ⟨disabled, hmem', hspelled'⟩ := hdisabled
  refine .field rfl (.named rfl hmem (by simp [hspelled]) rfl ?_)
  refine .choice (k := .optionList) (by simp [hkinds]) (by simp [hkinds]) ?_
  refine .item rfl rfl rfl (.named rfl hmem' (by simp [hspelled']) rfl ?_)
  exact .here _ _ _

theorem path_of_marked_unclearOption :
    ∃ faults, (Value.map unclearOption).readAs .field = .error faults ∧
      ∃ f ∈ faults, Marked (.map unclearOption) (.one .field) unclearOptionSteps f.cause ∧
        unclearOptionSteps.steps = f.location ∧
        unclearOptionSteps.IsClear (.map unclearOption) ∧
        (f.diagnose (.map unclearOption)).path = Location.render unclearOptionSteps.written := by
  have hclear : unclearOptionSteps.IsClear (.map unclearOption) := by
    refine ⟨rfl, fun w hw => ?_⟩
    cases hw
    exact ⟨rfl, by rintro w ⟨⟩ w ⟨⟩; trivial⟩
  have hpath := (path_of_marked (by decide) refused_unclearOption _ List.mem_cons_self).2 _
    marked_unclearOption rfl hclear
  exact ⟨_, refused_unclearOption, _, List.mem_cons_self, marked_unclearOption, rfl, hclear, hpath⟩

/-- A field whose type has an attribute of the same name. -/
def unclearTabs : Entries :=
  [(.text "field_name", .text "Parts"), (.text "type", .text "tabs"),
    (.text "tabs", .list [.map [(.text "id", .text "t"), (.text "label", .text "T")]]),
    (.text "required", .text "maybe")]

/-- The path of the diagnostic is that of the attribute that is named like the type, not that of
the attribute at fault. -/
theorem exists_path_of_label :
    ∃ f l, (Value.map unclearTabs).readAs .field = .error [f] ∧
      Marked (.map unclearTabs) (.one .field) l f.cause ∧ l.steps = f.location ∧
      l = [(.label, .name "tabs"), (.part, .name "required")] ∧
      Location.render l.written = "required" ∧
      (f.diagnose (.map unclearTabs)).path = "tabs" := by
  have hrefused : (Value.map unclearTabs).readAs .field =
      .error [⟨[.name "tabs", .name "required"], .unclearFlag⟩] :=
    Yaml.eq_error_of_map (by decide +kernel)
  have hrequired : ∃ a ∈ (RecordType.field .tabs).attributes, a.spellings = ["required"] := by
    decide
  obtain ⟨required, hmem, hspelled⟩ := hrequired
  refine ⟨_, _, hrefused, ?_, rfl, rfl, by decide, by decide⟩
  exact .field rfl (.named rfl hmem (by simp [hspelled]) rfl (.here _ _ _))

end Wireframe
