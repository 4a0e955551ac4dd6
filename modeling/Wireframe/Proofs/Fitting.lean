import Mathlib.Data.List.Forall2
import Mathlib.Tactic
import Wireframe.Proofs.Attributes
import Wireframe.Proofs.Faults
import Wireframe.Proofs.Records
import Wireframe.Proofs.Tags

/-!
# Elements that fit a shape

An element fits a shape if it is what one of the alternatives of the shape stands for,
down to its last part: a record has all attributes of its type in their order, each
fitting the shape of its attribute, and a table has different names.  Whatever is read
from a raw tree fits the shape that it was read as.
-/

namespace Wireframe

/-- What the items of a list are, for kinds of lists. -/
def Kind.item? : Kind → Option Kind
  | .listOf k => some k
  | .optionList => some (.record .option)
  | .commaList => some .text
  | _ => none

/-- The text of the type that is written at a field. -/
def Entries.typeText (entries : Entries) : String :=
  match Entries.get? "type" entries with
  | some v => v.render
  | none => FieldType.unrecognized.tag

/-- What the entries of a table are, for kinds of tables. -/
def Kind.entry? : Kind → Option Kind
  | .tableOf k => some k
  | .row => some .anything
  | _ => none

/-- Whether records of a type are of a kind. -/
def Kind.holds : Kind → RecordType → Bool
  | .record u, t => u == t
  | .action, .action _ => true
  | .field, .field _ => true
  | _, _ => false

namespace Element

/-- Only unrecognized fields have extras, and none of these is named like an attribute. -/
def ExtrasFit (t : RecordType) (extras : List (String × Value)) : Prop :=
  if t = .field .unrecognized then ∀ x ∈ extras, x.1 ∉ t.names else extras = []

/-- The tag of an unrecognized field is not that of another type. -/
def TagFits (t : RecordType) (attributes : List (String × Element)) : Prop :=
  t = .field .unrecognized →
    ∃ tag, ("type", .text tag) ∈ attributes ∧ FieldType.ofTag tag = .unrecognized

inductive Fits : Shape → Element → Prop
  | null {s} (hnull : s.nullable = true) : Fits s .null
  | anything {s} (v : Value) (hk : .anything ∈ s.kinds) : Fits s (.value v)
  | text {s} (x : String) (hk : .text ∈ s.kinds) : Fits s (.text x)
  | word {s choices} (x : String) (hk : .word choices ∈ s.kinds) (hx : x ∈ choices) :
      Fits s (.text x)
  | flag {s} (b : Bool) (hk : .flag ∈ s.kinds) : Fits s (.flag b)
  | integer {s least} (i : Int) (hk : .integer least ∈ s.kinds)
      (hleast : ∀ n, least = some n → n ≤ i)
      (htext : s.writesIntegers = true → (Scalar.integer i).hasText = true) : Fits s (.integer i)
  | oneOf {s choices} (i : Int) (hk : .oneOf choices ∈ s.kinds) (hi : i ∈ choices) :
      Fits s (.integer i)
  | number {s} (d : Decimal.Double) (hk : .number ∈ s.kinds) : Fits s (.value (.real d))
  | list {s k j items} (hk : k ∈ s.kinds) (hitem : k.item? = some j)
      (hitems : ∀ e ∈ items, Fits (.one j) e) : Fits s (.list items)
  | table {s k j entries} (hk : k ∈ s.kinds) (hentry : k.entry? = some j)
      (hnames : (entries.map Prod.fst).Nodup)
      (hentries : ∀ e ∈ entries, Fits (.one j) e.2) : Fits s (.table entries)
  | record {s k t attributes extras} (hk : k ∈ s.kinds) (hholds : k.holds t = true)
      (hnames : attributes.map Prod.fst = t.names)
      (hextras : ExtrasFit t extras) (htag : k = .field → TagFits t attributes)
      (hattributes : ∀ a x, (a, x) ∈ t.attributes.zip attributes → Fits a.shape x.2) :
      Fits s (.record t attributes extras)

theorem attribute?_of_mem
    (t : RecordType) {attributes : List (String × Element)} (extras : List (String × Value))
    (hnodup : (attributes.map Prod.fst).Nodup) {x : String × Element} (hx : x ∈ attributes) :
    (Element.record t attributes extras).attribute? x.1 = some x.2 := by
  unfold attribute?
  dsimp only
  rw [find?_fst_of_mem hnodup hx]
  rfl

/-- The attributes and the extras of a record fit its type. -/
structure RecordFits (t : RecordType) (attributes : List (String × Element))
    (extras : List (String × Value)) : Prop where
  names : attributes.map Prod.fst = t.names
  extras : ExtrasFit t extras
  fits : ∀ a x, (a, x) ∈ t.attributes.zip attributes → Fits a.shape x.2

/-- What the elements of a kind look like. -/
def Admits : Kind → Element → Prop
  | .anything, e => ∃ v, e = .value v
  | .text, e => ∃ x, e = .text x
  | .word choices, e => ∃ x ∈ choices, e = .text x
  | .flag, e => ∃ b, e = .flag b
  | .integer _, e | .oneOf _, e => ∃ i, e = .integer i
  | .number, e => ∃ d, e = .value (.real d)
  | .listOf k, e => ∃ items, e = .list items ∧ ∀ x ∈ items, Fits (.one k) x
  | .optionList, e => ∃ items, e = .list items ∧ ∀ x ∈ items, Fits (.one (.record .option)) x
  | .commaList, e => ∃ items, e = .list items ∧ ∀ x ∈ items, Fits (.one .text) x
  | .tableOf k, e => ∃ entries, e = .table entries ∧ (entries.map Prod.fst).Nodup ∧
      ∀ x ∈ entries, Fits (.one k) x.2
  | .row, e => ∃ entries, e = .table entries ∧ (entries.map Prod.fst).Nodup ∧
      ∀ x ∈ entries, Fits (.one .anything) x.2
  | .record t, e => ∃ attributes extras,
      e = .record t attributes extras ∧ RecordFits t attributes extras
  | .action, e => ∃ f attributes extras,
      e = .record (.action f) attributes extras ∧ RecordFits (.action f) attributes extras
  | .field, e => ∃ f attributes extras,
      e = .record (.field f) attributes extras ∧ RecordFits (.field f) attributes extras ∧
        TagFits (.field f) attributes

theorem Fits.admits
    {s : Shape} {e : Element} (hfits : Fits s e) :
    (s.nullable = true ∧ e = .null) ∨ ∃ k ∈ s.kinds, Admits k e := by
  cases hfits with
  | null hnull => exact .inl ⟨hnull, rfl⟩
  | anything v hk => exact .inr ⟨_, hk, v, rfl⟩
  | text x hk => exact .inr ⟨_, hk, x, rfl⟩
  | word x hk hx => exact .inr ⟨_, hk, x, hx, rfl⟩
  | flag b hk => exact .inr ⟨_, hk, b, rfl⟩
  | integer i hk hleast htext => exact .inr ⟨_, hk, i, rfl⟩
  | oneOf i hk hi => exact .inr ⟨_, hk, i, rfl⟩
  | number d hk => exact .inr ⟨_, hk, d, rfl⟩
  | @list s k j items hk hitem hitems =>
      refine .inr ⟨k, hk, ?_⟩
      cases k <;> first | cases hitem; exact ⟨items, rfl, hitems⟩ | cases hitem
  | @table s k j entries hk hentry hnames hentries =>
      refine .inr ⟨k, hk, ?_⟩
      cases k <;> first | cases hentry; exact ⟨entries, rfl, hnames, hentries⟩ | cases hentry
  | @record s k t attributes extras hk hholds hnames hextras htag hattributes =>
      refine .inr ⟨k, hk, ?_⟩
      have hrecord : RecordFits t attributes extras := ⟨hnames, hextras, hattributes⟩
      cases k with
      | record u =>
          have hu : u = t := by simpa [Kind.holds] using hholds
          subst hu
          exact ⟨attributes, extras, rfl, hrecord⟩
      | action =>
          cases t with
          | action f => exact ⟨f, attributes, extras, rfl, hrecord⟩
          | _ => cases hholds
      | field =>
          cases t with
          | field f => exact ⟨f, attributes, extras, rfl, hrecord, htag rfl⟩
          | _ => cases hholds
      | _ => cases hholds

theorem Fits.admits_of_single
    {s : Shape} {k : Kind} (hkinds : s.kinds = [k]) {e : Element} (hfits : Fits s e) :
    (s.nullable = true ∧ e = .null) ∨ Admits k e := by
  refine hfits.admits.imp_right fun ⟨j, hj, hadmits⟩ => ?_
  rw [hkinds, List.mem_singleton] at hj
  exact hj ▸ hadmits

theorem Fits.admits_one
    {k : Kind} {e : Element} (hfits : Fits (.one k) e) :
    Admits k e :=
  (hfits.admits_of_single rfl).resolve_left fun h => Bool.false_ne_true h.1

namespace RecordFits

variable {t : RecordType} {attributes : List (String × Element)} {extras : List (String × Value)}
  (hrecord : RecordFits t attributes extras)

include hrecord

theorem forall₂_names :
    List.Forall₂ (fun a x => x.1 = a.name) t.attributes attributes := by
  have hforall : List.Forall₂ Eq (attributes.map Prod.fst) (t.attributes.map Attribute.name) :=
    List.forall₂_eq_eq_eq ▸ hrecord.names
  rw [List.forall₂_map_left_iff, List.forall₂_map_right_iff] at hforall
  exact hforall.flip

theorem nodup_names : (attributes.map Prod.fst).Nodup :=
  hrecord.names ▸ t.nodup_names

theorem name_of_mem_zip
    {a : Attribute} {x : String × Element} (hmem : (a, x) ∈ t.attributes.zip attributes) :
    x.1 = a.name :=
  List.forall₂_zip hrecord.forall₂_names hmem

theorem exists_mem_zip
    {a : Attribute} (ha : a ∈ t.attributes) :
    ∃ x, (a, x) ∈ t.attributes.zip attributes :=
  (exists_of_mem_left hrecord.forall₂_names ha).imp fun _ hx => hx.1

theorem extras_eq_nil (ht : t ≠ .field .unrecognized) : extras = [] := by
  simpa [ExtrasFit, ht] using hrecord.extras

theorem not_mem_extras
    {name : String} (hname : name ∈ t.names) :
    name ∉ extras.map Prod.fst := by
  intro hmem
  obtain ⟨x, hx, rfl⟩ := List.mem_map.mp hmem
  by_cases ht : t = .field .unrecognized
  · have hall : ∀ x ∈ extras, x.1 ∉ t.names := by simpa [ExtrasFit, ht] using hrecord.extras
    exact hall x hx hname
  · rw [hrecord.extras_eq_nil ht] at hx
    cases hx

theorem attribute?_of_mem
    {a : Attribute} {x : String × Element} (hmem : (a, x) ∈ t.attributes.zip attributes) :
    (Element.record t attributes extras).attribute? a.name = some x.2 := by
  rw [← hrecord.name_of_mem_zip hmem]
  exact Element.attribute?_of_mem t extras hrecord.nodup_names (List.of_mem_zip hmem).2

theorem fits_record : Fits (.one (.record t)) (.record t attributes extras) :=
  .record (List.mem_singleton_self _) (by simp [Kind.holds]) hrecord.names hrecord.extras
    (fun hk => by cases hk) hrecord.fits

end RecordFits

end Element

namespace Reading

open Element

/-! ## Shapes and alternatives -/

/-- The outcome that is chosen is a success, and no outcome before it ends all reading. -/
theorem choose_eq_ok
    {outcomes : List (String × Outcome)} {r : Reading} (hchoose : choose outcomes = .ok r) :
    ∃ before o after, outcomes = before ++ o :: after ∧ o.2 = .ok r ∧
      ∀ p ∈ before, Fails Calm p.2 := by
  have hcalm {p : String × Outcome} (hp : isFinal p.2 = false) : Fails Calm p.2 := by
    intro faults hfaults f hf
    rw [hfaults, isFinal, List.any_eq_false] at hp
    simpa using hp f hf
  unfold choose at hchoose
  split at hchoose
  next o hfound =>
    have hread := under_eq_ok_iff.mp hchoose
    rw [Option.orElse_eq_orElse, Option.orElse_eq_or, Option.or_eq_some_iff] at hfound
    rcases hfound with hfinal | ⟨hnone, hok⟩
    · obtain ⟨-, before, after, hsplit, hbefore⟩ := List.find?_eq_some_iff_append.mp hfinal
      exact ⟨before, o, after, hsplit, hread, fun p hp => hcalm (by simpa using hbefore p hp)⟩
    · obtain ⟨before, after, hsplit⟩ := List.append_of_mem (List.mem_of_find?_eq_some hok)
      refine ⟨before, o, after, hsplit, hread, fun p hp => hcalm ?_⟩
      have hmem : p ∈ outcomes := hsplit ▸ List.mem_append_left _ hp
      simpa using List.find?_eq_none.mp hnone p hmem
  next => cases hchoose

/-- A value is read as null where that is admitted, and else by one of the alternatives, where
none before it ends all reading. -/
theorem readShape_eq_ok_split
    {v : Value} {parts : Parts} {s : Shape} {r : Reading}
    (hread : readShape v parts s = .ok r) :
    (s.nullable = true ∧ r = ⟨.null, true⟩) ∨
      ∃ before k after, s.kinds = before ++ k :: after ∧ readKind v parts k = .ok r ∧
        ∀ j ∈ before, Fails Calm (readKind v parts j) := by
  unfold readShape at hread
  split_ifs at hread with hnull
  · simp only [Bool.and_eq_true] at hnull
    exact .inl ⟨hnull.1, by simpa using hread.symm⟩
  · cases hread
  · right
    split at hread
    next k hkinds => exact ⟨[], k, [], hkinds, hread, nofun⟩
    next =>
      obtain ⟨before, o, after, hsplit, hr, hcalm⟩ := choose_eq_ok hread
      obtain ⟨kinds, rest, hkinds, rfl, hrest⟩ := List.map_eq_append_iff.mp hsplit
      obtain ⟨k, others, rfl, rfl, rfl⟩ := List.map_eq_cons_iff.mp hrest
      exact ⟨kinds, k, others, hkinds, hr, fun j hj => hcalm _ (List.mem_map_of_mem hj)⟩

theorem readShape_eq_ok
    {v : Value} {parts : Parts} {s : Shape} {r : Reading}
    (hread : readShape v parts s = .ok r) :
    (s.nullable = true ∧ r = ⟨.null, true⟩) ∨
      ∃ k ∈ s.kinds, readKind v parts k = .ok r := by
  refine (readShape_eq_ok_split hread).imp_right ?_
  rintro ⟨before, k, after, hsplit, hk, -⟩
  exact ⟨k, by simp [hsplit], hk⟩

theorem ofCoerced_eq_ok_iff
    {α : Type} {f : α → Element} {outcome : Except Cause (Coerced α)} {r : Reading} :
    ofCoerced f outcome = .ok r ↔ ∃ c, outcome = .ok c ∧ r = ⟨f c.value, c.exact⟩ := by
  cases outcome <;> simp [ofCoerced, eq_comm]

/-! ## Scalars -/

theorem le_of_toIntegerFrom
    {least : Option Int} {v : Value} {c : Coerced Int}
    (hread : Coercion.toIntegerFrom least v = .ok c) {n : Int} (hn : least = some n) :
    n ≤ c.value := by
  subst hn
  cases hint : Coercion.toInteger v with
  | error cause => simp [Coercion.toIntegerFrom, hint, bind, Except.bind] at hread
  | ok i =>
      simp only [Coercion.toIntegerFrom, hint, bind, Except.bind] at hread
      split_ifs at hread with hlt
      cases hread
      omega

theorem toInteger_of_toIntegerFrom
    {least : Option Int} {v : Value} {c : Coerced Int}
    (hread : Coercion.toIntegerFrom least v = .ok c) :
    Coercion.toInteger v = .ok c := by
  cases hint : Coercion.toInteger v with
  | error cause => simp [Coercion.toIntegerFrom, hint, bind, Except.bind] at hread
  | ok i =>
      simp only [Coercion.toIntegerFrom, hint, bind, Except.bind] at hread
      split at hread
      · split_ifs at hread
        exact hread
      · exact hread

/-- What is read as an integer can be written, unless it was an integer already. -/
theorem hasText_of_toInteger
    {v : Value} {c : Coerced Int} (hread : Coercion.toInteger v = .ok c) :
    (Scalar.integer c.value).hasText = true ∨ v = .integer c.value := by
  have hsmall {i : Int} (hi : i.natAbs < 10 ^ 19) : (Scalar.integer i).hasText = true :=
    Scalar.hasText_integer_iff.mpr
      (hi.trans_le (Nat.pow_le_pow_right (by decide) (by decide)))
  have hparsed {s : String} (hs : (Coercion.integerOfText s).map (⟨·, false⟩) = .ok c) :
      (Scalar.integer c.value).hasText = true := by
    cases hi : Coercion.integerOfText s with
    | error cause =>
        rw [hi] at hs
        cases hs
    | ok i =>
        rw [hi] at hs
        cases hs
        unfold Coercion.integerOfText at hi
        dsimp only at hi
        split at hi
        next => cases hi
        next j _ =>
          split_ifs at hi with hlong
          cases hi
          exact decide_eq_true (not_lt.mp hlong)
  unfold Coercion.toInteger at hread
  split at hread
  next i =>
    cases hread
    exact .inr rfl
  next b =>
    cases hread
    cases b <;> exact .inl (hsmall (by decide))
  next d =>
    split_ifs at hread
    split at hread
    next => cases hread
    next i hi =>
      split_ifs at hread with hexact
      cases hread
      obtain ⟨habove, hbelow⟩ := Bool.and_eq_true_iff.mp hexact
      have habove : -9223372036854775808 < i := of_decide_eq_true habove
      have hbelow : i < 9223372036854775808 := of_decide_eq_true hbelow
      exact .inl (hsmall (show i.natAbs < 10 ^ 19 by omega))
  next s => exact .inl (hparsed hread)
  next b =>
    split at hread
    next s _ => exact .inl (hparsed hread)
    next => cases hread
  next => cases hread

theorem mem_of_toWord
    {choices : List String} {v : Value} {x : String}
    (hread : Coercion.toWord choices v = .ok x) : x ∈ choices := by
  unfold Coercion.toWord at hread
  split at hread
  · split_ifs at hread with hmem
    cases hread
    simpa using hmem
  · cases hread

theorem mem_of_toListed
    {choices : List Int} {v : Value} {i : Int}
    (hread : Coercion.toListed choices v = .ok i) : i ∈ choices := by
  unfold Coercion.toListed at hread
  simp only at hread
  split at hread
  · split_ifs at hread with hsmall hmem
    cases hread
    simpa using hmem
  · split_ifs at hread <;> simp_all
  · split at hread
    · split_ifs at hread with hmem
      cases hread
      simpa using hmem
    · cases hread
  · cases hread

/-! ## Records -/

theorem attributes_of_forall₂
    {t : RecordType} {offers : List (Key × Offer)} {attributes : List (String × Element)}
    (hread : List.Forall₂ (fun a x => readAttribute offers a = .ok x) t.attributes attributes) :
    attributes.map Prod.fst = t.names ∧
      ∀ a x, (a, x) ∈ t.attributes.zip attributes → readAttribute offers a = .ok x := by
  obtain ⟨hlength, hzip⟩ := List.forall₂_iff_zip.mp hread
  refine ⟨?_, fun a x hmem => hzip hmem⟩
  have hnames :
      List.Forall₂ (fun a x => x.1 = a.name) t.attributes attributes :=
    hread.imp fun a x h => (readAttribute_eq_ok_iff.mp h).1
  exact map_eq_map_of_forall₂ hnames fun _ _ h => h

/-! ## Defaults -/

theorem fits_ofSimpleDefault
    {s : Shape} {d : Default} (hadmits : s.admitsSimple d = true) :
    Fits s (Element.ofSimpleDefault d) := by
  cases d with
  | null =>
      simp only [Shape.admitsSimple, Bool.or_eq_true, beq_iff_eq] at hadmits
      rcases hadmits with hnull | hkinds
      · exact .null hnull
      · exact .anything _ (by simp [hkinds])
  | text x =>
      obtain ⟨k, hk, hkind⟩ := List.any_eq_true.mp hadmits
      split at hkind
      · exact .text x hk
      · exact .word x hk (by simpa using hkind)
      · contradiction
  | integer i =>
      obtain ⟨k, hk, hkind⟩ := List.any_eq_true.mp hadmits
      split at hkind
      · exact .integer i hk nofun fun _ => hkind
      · exact .oneOf i hk (by simpa using hkind)
      · contradiction
  | noItems =>
      obtain ⟨k, hk, hkind⟩ := List.any_eq_true.mp hadmits
      split at hkind
      · exact .list hk rfl (by simp)
      · exact .list hk rfl (by simp)
      · exact .list hk rfl (by simp)
      · contradiction
  | required => simp [Shape.admitsSimple] at hadmits
  | blank t => simp [Shape.admitsSimple] at hadmits

theorem mem_zip_map_self
    {α β : Type} {f : α → β} {items : List α} {a : α} {b : β}
    (hmem : (a, b) ∈ items.zip (items.map f)) :
    a ∈ items ∧ b = f a := by
  induction items with
  | nil => cases hmem
  | cons c cs ih =>
      rw [List.map_cons, List.zip_cons_cons, List.mem_cons] at hmem
      rcases hmem with heq | hmem
      · cases heq
        exact ⟨List.mem_cons_self, rfl⟩
      · exact (ih hmem).imp_left (List.mem_cons_of_mem _)

/-- Every default fits the shape of its attribute. -/
theorem fits_ofDefault?
    {s : Shape} {d : Default} {e : Element}
    (hadmits : s.admitsDefault d = true) (he : Element.ofDefault? d = some e) :
    Fits s e := by
  cases d with
  | required => cases he
  | blank t =>
      cases he
      simp only [Shape.admitsDefault, Bool.and_eq_true, decide_eq_true_eq,
        List.all_eq_true] at hadmits
      obtain ⟨⟨hk, ht⟩, hattributes⟩ := hadmits
      refine .record (k := .record t) (by simpa using hk) (by simp [Kind.holds]) ?_ ?_
        (by simp) ?_
      · simp [RecordType.names]
      · simp [ExtrasFit, ht]
      · intro a x hmem
        obtain ⟨ha, rfl⟩ := mem_zip_map_self hmem
        exact fits_ofSimpleDefault (hattributes a ha)
  | null =>
      cases he
      exact fits_ofSimpleDefault hadmits
  | text x =>
      cases he
      exact fits_ofSimpleDefault hadmits
  | integer i =>
      cases he
      exact fits_ofSimpleDefault hadmits
  | noItems =>
      cases he
      exact fits_ofSimpleDefault hadmits

/-! ## Soundness of reading -/

/-- Whatever is read from the value fits the shape that it is read as. -/
def ReadsFitting (v : Value) : Prop :=
  ∀ s r, ofValue v s = .ok r → Fits s r.element

theorem textOnly_of_heading
    {a : Attribute} (ha : a ∈ (RecordType.field .heading).attributes)
    (hspelling : "text" ∈ a.spellings) :
    a.shape = .one .text := by
  have hall : (RecordType.field .heading).attributes.all (fun a =>
      !a.spellings.contains "text" || a.shape == .one .text) = true := by
    decide +kernel
  have hone := List.all_eq_true.mp hall a ha
  simpa [hspelling] using hone

theorem fits_of_readAttribute
    {t : RecordType} {entries : Entries} (hentries : ∀ e ∈ entries, ReadsFitting e.2)
    {a : Attribute} (ha : a ∈ t.attributes) {x : String × Element}
    (hread : readAttribute (expand t entries.offers) a = .ok x) :
    Fits a.shape x.2 := by
  obtain ⟨-, hvalue⟩ := readAttribute_eq_ok_iff.mp hread
  cases hwritten : written? a (expand t entries.offers) with
  | none =>
      rw [hwritten] at hvalue
      exact fits_ofDefault? (RecordType.admitsDefault_of_mem ha) hvalue
  | some p =>
      obtain ⟨spelling, o⟩ := p
      rw [hwritten] at hvalue
      obtain ⟨exact, hvalue⟩ := hvalue
      obtain ⟨hspelling, hpart⟩ := written?_eq_some hwritten
      rcases find?_expand_eq_some hpart with ⟨name, hname⟩ | ⟨rfl, rfl, rfl⟩
      · rw [find?_offers, Option.map_eq_some_iff] at hname
        obtain ⟨v, hget, rfl⟩ := hname
        obtain ⟨key, hmem, -⟩ := Entries.get?_mem hget
        exact hentries _ hmem _ _ hvalue
      · have hshape := textOnly_of_heading ha hspelling
        simp only [Offer.ofText, Except.ok.injEq, Reading.mk.injEq] at hvalue
        rw [← hvalue.1]
        exact .text "" (by simp [hshape, Shape.one])

theorem find?_isSome_of_mem
    {name : String} {offers : List (Key × Offer)} {o : Key × Offer}
    (ho : o ∈ offers) (hname : o.1.text? = some name) :
    (Offer.find? name offers).isSome = true := by
  simp only [Offer.find?, Option.isSome_map, List.find?_isSome]
  exact ⟨o, ho, by simp [hname]⟩

/-- What is written under the name of an attribute of an unrecognized field is read as that
attribute. -/
theorem written?_of_unrecognized
    {a : Attribute} (ha : a ∈ (RecordType.field .unrecognized).attributes)
    {offers : List (Key × Offer)} (hpart : (Offer.find? a.name offers).isSome = true) :
    ∃ o, written? a offers = some (a.name, o) := by
  have hall : (RecordType.field .unrecognized).attributes.all (fun a =>
      a.spellings.head? == some a.name) = true := by
    decide +kernel
  have hhead : a.spellings.head? = some a.name := by
    simpa using List.all_eq_true.mp hall a ha
  obtain ⟨o, ho⟩ := Option.isSome_iff_exists.mp hpart
  refine ⟨o, ?_⟩
  cases hspellings : a.spellings with
  | nil => simp [hspellings] at hhead
  | cons s rest =>
      have hs : s = a.name := by simpa [hspellings] using hhead
      simp [written?, hspellings, hs, ho]

theorem readExtra_eq_some
    {used : List String} {o : Key × Offer} {x : String × Value}
    (hread : readExtra used o = .ok (some x)) :
    o.1.text? = some x.1 ∧ x.1 ∉ used ∧ x.2 = o.2.value := by
  unfold readExtra at hread
  cases htext : o.1.text? with
  | none => simp [htext, under, refuse, Except.mapError] at hread
  | some name =>
      simp only [htext, Except.ok.injEq] at hread
      split_ifs at hread with hused
      simp only [Option.some.injEq] at hread
      subst hread
      exact ⟨rfl, by simpa using hused, rfl⟩

theorem not_mem_names_of_readExtras
    {offers : List (Key × Offer)} {extras : List (String × Value)}
    (hread : readExtras (.field .unrecognized) offers = .ok extras)
    {x : String × Value} (hx : x ∈ extras) :
    x.1 ∉ (RecordType.field .unrecognized).names := by
  unfold readExtras at hread
  simp only at hread
  cases hcollect : collect (offers.map (readExtra
      ((RecordType.field .unrecognized).attributes.filterMap fun a =>
        (written? a offers).map Prod.fst))) with
  | error faults => simp [hcollect, Except.map] at hread
  | ok results =>
      simp only [hcollect, Except.map, Except.ok.injEq] at hread
      subst hread
      rw [List.mem_filterMap] at hx
      obtain ⟨result, hresult, rfl⟩ := hx
      have hmem : Except.ok (some x) ∈ results.map (Except.ok (ε := List Fault)) :=
        List.mem_map_of_mem hresult
      rw [← eq_map_ok_of_collect hcollect, List.mem_map] at hmem
      obtain ⟨o, ho, hextra⟩ := hmem
      obtain ⟨htext, hused, -⟩ := readExtra_eq_some hextra
      intro hname
      obtain ⟨a, ha, haname⟩ := List.mem_map.mp hname
      rw [← haname] at htext hused
      obtain ⟨p, hp⟩ := written?_of_unrecognized ha (find?_isSome_of_mem ho htext)
      exact hused (List.mem_filterMap.mpr ⟨a, ha, by simp [hp]⟩)

/-- What is raw and can be read as text is text, an integer or a number. -/
theorem toText_cases
    {v : Value} (hraw : v.isRaw = true) {c : Coerced String}
    (hread : Coercion.toText true v = .ok c) :
    (∃ x, v = .text x ∧ c.value = x) ∨ (∃ i : Int, v = .integer i ∧ c.value = toString i) ∨
      ∃ d, v = .real d ∧ c.value = d.render := by
  unfold Coercion.toText at hread
  split at hread
  next x =>
    cases hread
    exact .inl ⟨x, rfl, rfl⟩
  next => simp [Value.isRaw] at hraw
  next i =>
    split_ifs at hread
    · cases hread
      exact .inr (.inl ⟨i, rfl, rfl⟩)
  next d =>
    cases hread
    exact .inr (.inr ⟨d, rfl, rfl⟩)
  next => cases hread

/-- The tag of a field that is not recognized is not the tag of any type, also when it was
written as a number. -/
theorem ofTag_of_toText
    {v : Value} (hraw : v.isRaw = true) (htype : fieldType v = .unrecognized)
    {c : Coerced String} (hread : Coercion.toText true v = .ok c) :
    FieldType.ofTag c.value = .unrecognized := by
  rcases toText_cases hraw hread with ⟨x, rfl, hc⟩ | ⟨i, rfl, hc⟩ | ⟨d, rfl, hc⟩
  · rw [hc]
    exact htype
  · rw [hc]
    exact FieldType.ofTag_integer i
  · rw [hc]
    exact FieldType.ofTag_real d

/-- A raw value that is read as text is read as the text that it has. -/
theorem eq_render_of_toText
    {v : Value} (hraw : v.isRaw = true) {c : Coerced String}
    (hread : Coercion.toText true v = .ok c) :
    c.value = v.render := by
  rcases toText_cases hraw hread with ⟨x, rfl, hc⟩ | ⟨i, rfl, hc⟩ | ⟨d, rfl, hc⟩ <;> exact hc

/-- An attribute of texts is read as null where that is admitted, and else as a text. -/
theorem toText_of_ofValue
    {v : Value} {s : Shape} (hkinds : s.kinds = [.text]) {r : Reading}
    (hread : ofValue v s = .ok r) :
    if s.nullable && !v.isPresent then r.element = .null
    else ∃ c, Coercion.toText true v = .ok c ∧ r.element = .text c.value := by
  rw [ofValue_eq, readShape_of_single hkinds nofun] at hread
  split_ifs at hread ⊢
  · cases hread
    rfl
  · obtain ⟨c, hc, rfl⟩ := ofCoerced_eq_ok_iff.mp hread
    exact ⟨c, hc, rfl⟩

/-- The type of an unrecognized field is the text of the type that is written. -/
theorem type_of_unrecognized
    {entries : Entries} (hraw : (entries.getD "type").isRaw = true)
    (htype : fieldType (entries.getD "type") = .unrecognized)
    {attributes : List (String × Element)}
    (hread : List.Forall₂
      (fun a x => readAttribute (expand (.field .unrecognized) entries.offers) a = .ok x)
      (RecordType.field .unrecognized).attributes attributes) :
    (FieldType.typeAttribute .unrecognized, ("type", .text entries.typeText)) ∈
        (RecordType.field .unrecognized).attributes.zip attributes ∧
      FieldType.ofTag entries.typeText = .unrecognized := by
  have hmem : FieldType.typeAttribute .unrecognized ∈
      (RecordType.field .unrecognized).attributes := by
    simp [RecordType.attributes, FieldType.attributes]
  obtain ⟨x, hx, hattribute⟩ := exists_of_mem_left hread hmem
  obtain ⟨hname, hvalue⟩ := readAttribute_eq_ok_iff.mp hattribute
  have hpair {text : String} (htext : x.2 = .text text) : x = ("type", .text text) :=
    Prod.ext hname htext
  have hwritten :
      written? (FieldType.typeAttribute .unrecognized)
          (expand (.field .unrecognized) entries.offers) =
        (Entries.get? "type" entries).map fun v => ("type", Offer.of v) :=
    written?_expand_of_single rfl (by decide) _ entries
  rw [hwritten] at hvalue
  cases hget : Entries.get? "type" entries with
  | none =>
      rw [hget] at hvalue
      have htype : entries.typeText = FieldType.unrecognized.tag := by rw [Entries.typeText, hget]
      have htext : x.2 = .text FieldType.unrecognized.tag := by
        simpa [FieldType.typeAttribute, Attribute.orText, Attribute.of,
          Element.ofDefault?, Element.ofSimpleDefault] using hvalue.symm
      rw [htype]
      exact ⟨hpair htext ▸ hx, FieldType.ofTag_tag .unrecognized⟩
  | some v =>
      rw [hget] at hvalue
      rw [Entries.getD_of_get? hget] at hraw htype
      obtain ⟨exact, hread⟩ := hvalue
      obtain ⟨c, hc, htext⟩ := toText_of_ofValue rfl hread
      have hrender : entries.typeText = c.value := by
        rw [Entries.typeText, hget]
        exact (eq_render_of_toText hraw hc).symm
      rw [hrender]
      exact ⟨hpair htext ▸ hx, ofTag_of_toText hraw htype hc⟩

theorem fits_of_readRecord
    {t : RecordType} {entries : Entries} (hentries : ∀ e ∈ entries, ReadsFitting e.2)
    {s : Shape} {k : Kind} (hk : k ∈ s.kinds) (hholds : k.holds t = true)
    (htype : k = .field → t = .field .unrecognized →
      (entries.getD "type").isRaw = true ∧ fieldType (entries.getD "type") = .unrecognized)
    {r : Reading} (hread : readRecord t entries.offers = .ok r) :
    Fits s r.element := by
  obtain ⟨attributes, extras, hattributes, hextras, rfl⟩ := readRecord_eq_ok_iff.mp hread
  obtain ⟨hnames, hzip⟩ := attributes_of_forall₂ hattributes
  refine .record hk hholds hnames ?_ ?_ fun a x hmem =>
    fits_of_readAttribute hentries (List.of_mem_zip hmem).1 (hzip a x hmem)
  · unfold ExtrasFit
    split_ifs with ht
    · subst ht
      exact fun x hx => not_mem_names_of_readExtras hextras hx
    · rw [readExtras_of_ne ht] at hextras
      cases hextras
      rfl
  · intro hfield ht
    obtain ⟨hraw, hunknown⟩ := htype hfield ht
    subst ht
    obtain ⟨htext, hunknown⟩ := type_of_unrecognized hraw hunknown hattributes
    exact ⟨entries.typeText, (List.of_mem_zip htext).2, hunknown⟩

theorem fits_items_of_forall₂
    {j : Kind} {read : Offer → Outcome} {items : List Value} {elements : List Element}
    (hitems : ∀ v ∈ items, ∀ r, read (Offer.of v) = .ok r → Fits (.one j) r.element)
    (hread : List.Forall₂ (fun o e => ∃ exact, read o = .ok ⟨e, exact⟩)
      (items.map Offer.of) elements) :
    ∀ e ∈ elements, Fits (.one j) e := by
  rw [List.forall₂_map_left_iff] at hread
  intro e he
  obtain ⟨i, hi, rfl⟩ := List.getElem_of_mem he
  have hlength := hread.length_eq
  obtain ⟨exact, hvalue⟩ := hread.get (by omega) hi
  exact hitems _ (List.getElem_mem _) _ hvalue

theorem map_coerced_eq_ok
    {α : Type} {outcome : Except Cause α} {c : Coerced α}
    (hmap : outcome.map (⟨·, true⟩) = .ok c) :
    outcome = .ok c.value := by
  cases outcome with
  | error cause => cases hmap
  | ok a =>
      cases hmap
      rfl

/-- An integer that is read where integers are written can be written. -/
theorem hasText_of_calm
    {v : Value} {parts : Parts} (hcalm : Fails Calm (readKind v parts .text)) {least : Option Int}
    {c : Coerced Int} (hread : Coercion.toIntegerFrom least v = .ok c) :
    (Scalar.integer c.value).hasText = true := by
  refine (hasText_of_toInteger (toInteger_of_toIntegerFrom hread)).elim id ?_
  rintro rfl
  by_contra hlong
  have htext : readKind (.integer c.value) parts .text =
      .error (Fault.here (.notWritten .longInteger)) := by
    simp [readKind, Coercion.toText, hlong, ofCoerced]
  cases hcalm _ htext _ (List.mem_singleton_self _)

/-- Kinds of scalars, and the kind of all values, look at nothing but the value itself. -/
theorem fits_of_readKind_scalar
    {v : Value} {parts : Parts} {s : Shape} {k : Kind} {before after : List Kind}
    (hsplit : s.kinds = before ++ k :: after)
    (hcalm : ∀ j ∈ before, Fails Calm (readKind v parts j))
    (hitem : k.item? = none) (hentry : k.entry? = none) (hholds : ∀ t, k.holds t = false)
    {r : Reading} (hread : readKind v parts k = .ok r) :
    Fits s r.element := by
  have hk : k ∈ s.kinds := by simp [hsplit]
  cases k with
  | anything =>
      cases hread
      exact .anything v hk
  | text =>
      obtain ⟨c, -, rfl⟩ := ofCoerced_eq_ok_iff.mp hread
      exact .text c.value hk
  | flag =>
      obtain ⟨c, -, rfl⟩ := ofCoerced_eq_ok_iff.mp hread
      exact .flag c.value hk
  | integer least =>
      obtain ⟨c, hc, rfl⟩ := ofCoerced_eq_ok_iff.mp hread
      refine .integer c.value hk (fun n hn => le_of_toIntegerFrom hc hn) fun hwrites => ?_
      exact hasText_of_calm (hcalm _ (Shape.text_mem_of_writesIntegers hwrites hsplit rfl)) hc
  | number =>
      rw [readKind] at hread
      obtain ⟨c, -, rfl⟩ := ofCoerced_eq_ok_iff.mp hread
      exact .number c.value hk
  | word choices =>
      obtain ⟨c, hc, rfl⟩ := ofCoerced_eq_ok_iff.mp hread
      exact .word c.value hk (mem_of_toWord (map_coerced_eq_ok hc))
  | oneOf choices =>
      obtain ⟨c, hc, rfl⟩ := ofCoerced_eq_ok_iff.mp hread
      exact .oneOf c.value hk (mem_of_toListed (map_coerced_eq_ok hc))
  | listOf j => cases hitem
  | optionList => cases hitem
  | commaList => cases hitem
  | tableOf j => cases hentry
  | row => cases hentry
  | record t => simpa [Kind.holds] using hholds t
  | action => simpa [Kind.holds] using hholds (.action .submit)
  | field => simpa [Kind.holds] using hholds (.field .unrecognized)

theorem readsFitting_scalar (x : Scalar) : ReadsFitting (.scalar x) := by
  intro s r hread
  rw [ofValue_eq] at hread
  rcases readShape_eq_ok_split hread with
    ⟨hnull, rfl⟩ | ⟨before, k, after, hsplit, hkind, hcalm⟩
  · exact .null hnull
  · have hk : k ∈ s.kinds := by simp [hsplit]
    cases k with
    | commaList =>
        cases x with
        | text words =>
            cases hkind
            refine .list hk rfl fun e he => ?_
            obtain ⟨word, -, rfl⟩ := List.mem_map.mp he
            exact .text word (by simp [Shape.one])
        | _ => cases hkind
    | listOf j => cases hkind
    | optionList => cases hkind
    | tableOf j => cases hkind
    | row => cases hkind
    | record t => cases hkind
    | action => cases hkind
    | field => cases hkind
    | _ => exact fits_of_readKind_scalar hsplit hcalm rfl rfl (fun _ => rfl) hkind

theorem fits_of_readTable
    {j : Kind} {entries : Entries} (hentries : ∀ e ∈ entries, ReadsFitting e.2)
    {s : Shape} {k : Kind} (hk : k ∈ s.kinds) (hentry : k.entry? = some j) {r : Reading}
    (hread : readTable j entries.offers = .ok r) :
    Fits s r.element := by
  obtain ⟨elements, helements, rfl⟩ := readTable_eq_ok_iff.mp hread
  refine .table hk hentry Entries.nodup_distinct fun e he => ?_
  have hmem := Entries.mem_of_mem_distinct he
  rw [Entries.offers, List.forall₂_map_left_iff] at helements
  obtain ⟨i, hi, rfl⟩ := List.getElem_of_mem hmem
  have hlength := helements.length_eq
  obtain ⟨exact, hvalue⟩ := readEntry_eq_ok (helements.get (by omega) hi)
  exact hentries _ (List.getElem_mem _) _ _ hvalue

/-- The type of an action is that of its tag. -/
theorem readAction_eq_ok
    {entries : Entries} {r : Reading}
    (hread : readAction (.entries entries.offers) = .ok r) :
    ∃ a, (entries.getD "type").text?.bind ActionType.ofTag? = some a ∧
      readRecord (.action a) entries.offers = .ok r := by
  simp only [readAction, find?_offers] at hread
  cases hget : Entries.get? "type" entries with
  | none => simp [hget, refuse] at hread
  | some v =>
      simp only [hget, Option.map_some, value_of] at hread
      rw [Entries.getD_of_get? hget]
      cases htype : v.text?.bind ActionType.ofTag? with
      | none => simp [htype, refuse] at hread
      | some a =>
          simp only [htype, under_eq_ok_iff] at hread
          exact ⟨a, rfl, hread⟩

theorem readsFitting_map
    {entries : Entries} (hraw : ∀ e ∈ entries, e.2.isRaw = true)
    (hentries : ∀ e ∈ entries, ReadsFitting e.2) :
    ReadsFitting (.map entries) := by
  intro s r hread
  rw [ofValue_eq] at hread
  rcases readShape_eq_ok_split hread with
    ⟨hnull, rfl⟩ | ⟨before, k, after, hsplit, hkind, hcalm⟩
  · exact .null hnull
  · have hk : k ∈ s.kinds := by simp [hsplit]
    cases k with
    | tableOf j => exact fits_of_readTable hentries hk rfl hkind
    | row => exact fits_of_readTable hentries hk rfl hkind
    | record t =>
        exact fits_of_readRecord hentries hk (by simp [Kind.holds]) (by simp) hkind
    | action =>
        obtain ⟨a, -, hrecord⟩ := readAction_eq_ok hkind
        exact fits_of_readRecord hentries hk rfl (by simp) hrecord
    | field =>
        simp only [readKind, partsOf, readField, valueOf_offers, under_eq_ok_iff] at hkind
        refine fits_of_readRecord hentries hk rfl (fun _ ht => ?_) hkind
        exact ⟨Entries.isRaw_getD hraw, by simpa using ht⟩
    -- Mappings are refused as lists.
    | listOf j => cases hkind
    | optionList => cases hkind
    | commaList => cases hkind
    | _ => exact fits_of_readKind_scalar hsplit hcalm rfl rfl (fun _ => rfl) hkind

theorem readsFitting_expandOption
    {v : Value} (hraw : v.isRaw = true) (hv : ReadsFitting v) :
    ReadsFitting v.expandOption := by
  cases v with
  | map entries => exact hv
  | _ =>
      refine readsFitting_map (fun e he => ?_) fun e he => ?_
      all_goals
        simp only [List.mem_cons, List.not_mem_nil, or_false] at he
        rcases he with rfl | rfl
      · exact hraw
      · rfl
      · exact hv
      · exact readsFitting_scalar _

theorem readsFitting_list
    {items : List Value} (hraw : ∀ v ∈ items, v.isRaw = true)
    (hitems : ∀ v ∈ items, ReadsFitting v) :
    ReadsFitting (.list items) := by
  intro s r hread
  rw [ofValue_eq] at hread
  rcases readShape_eq_ok_split hread with
    ⟨hnull, rfl⟩ | ⟨before, k, after, hsplit, hkind, hcalm⟩
  · exact .null hnull
  · have hk : k ∈ s.kinds := by simp [hsplit]
    cases k with
    | listOf j =>
        obtain ⟨elements, helements, rfl⟩ := ofItems_eq_ok_iff.mp hkind
        refine .list hk rfl (fits_items_of_forall₂ ?_ (readItems_eq_ok_iff.mp helements))
        exact fun v hv r hr => hitems v hv _ r hr
    | commaList =>
        obtain ⟨elements, helements, rfl⟩ := ofItems_eq_ok_iff.mp hkind
        refine .list hk rfl (fits_items_of_forall₂ ?_ (readItems_eq_ok_iff.mp helements))
        exact fun v hv r hr => hitems v hv _ r hr
    | optionList =>
        obtain ⟨elements, helements, rfl⟩ := ofItems_eq_ok_iff.mp hkind
        refine .list hk rfl (fits_items_of_forall₂ ?_ (readItems_eq_ok_iff.mp helements))
        intro v hv r hr
        rw [readOption_of] at hr
        exact readsFitting_expandOption (hraw v hv) (hitems v hv) _ r hr
    | tableOf j => cases hkind
    | row => cases hkind
    | record t => cases hkind
    | action => cases hkind
    | field => cases hkind
    | _ => exact fits_of_readKind_scalar hsplit hcalm rfl rfl (fun _ => rfl) hkind

/-- Whatever is read from a raw tree fits the shape that it was read as. -/
theorem fits_of_ofValue
    {v : Value} (hraw : v.isRaw = true) {s : Shape} {r : Reading}
    (hread : ofValue v s = .ok r) :
    Fits s r.element := by
  suffices hfitting : ReadsFitting v from hfitting s r hread
  clear hread
  induction v using Value.inductionOn with
  | scalar x => exact readsFitting_scalar x
  | list items ih =>
      rw [Value.isRaw_list] at hraw
      exact readsFitting_list hraw fun v hv => ih v hv (hraw v hv)
  | map entries ih =>
      rw [Value.isRaw_map] at hraw
      exact readsFitting_map hraw fun e he => ih e he (hraw e he)
  | tuple items ih => simp [Value.isRaw] at hraw
  | set keys => simp [Value.isRaw] at hraw
  | back levels => simp [Value.isRaw] at hraw

end Reading

end Wireframe
