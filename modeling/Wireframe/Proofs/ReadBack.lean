import Mathlib.Data.List.Forall2
import Mathlib.Tactic
import Wireframe.Proofs.Faults
import Wireframe.Proofs.PlainTree

/-!
# Reading elements back

An element that fits a shape is read back from its plain tree, as that shape and without
any change but that extras are gone with the nulls that are left out.  An attribute that is
null stays null when it is left out, unless an extra is written like it.  An alternative that
takes the tree as it is wins over the others, and there is only one.
-/

namespace Wireframe

/-- The form of a value. -/
def Value.form? : Value → Option Form
  | .text _ => some .text
  | .flag _ => some .flag
  | .integer _ => some .integer
  | .real _ => some .real
  | .list _ | .tuple _ | .set _ => some .list
  | .map _ => some .map
  | _ => none

namespace Reading

open Element

/-! ## The winning alternative -/

theorem form?_of_toText
    {v : Value} {c : Coerced String}
    (hread : Coercion.toText true v = .ok c) (hexact : c.exact = true) :
    v.form? = some .text := by
  unfold Coercion.toText at hread
  split at hread
  · rfl
  · split at hread <;> cases hread
    contradiction
  · split_ifs at hread
    cases hread
    contradiction
  · cases hread
    contradiction
  · cases hread

theorem not_exact_of_flagOfInteger
    {i : Int} {c : Coerced Bool} (hread : Coercion.flagOfInteger i = .ok c) :
    c.exact = false := by
  unfold Coercion.flagOfInteger at hread
  split_ifs at hread <;> cases hread <;> rfl

theorem not_exact_of_flagOfText
    {s : String} {c : Coerced Bool} (hread : Coercion.flagOfText s = .ok c) :
    c.exact = false := by
  unfold Coercion.flagOfText at hread
  split at hread <;> cases hread
  rfl

theorem form?_of_toFlag
    {v : Value} {c : Coerced Bool}
    (hread : Coercion.toFlag v = .ok c) (hexact : c.exact = true) :
    v.form? = some .flag := by
  unfold Coercion.toFlag at hread
  split at hread
  · rfl
  · simp [not_exact_of_flagOfInteger hread] at hexact
  · split at hread
    · split_ifs at hread
      simp [not_exact_of_flagOfInteger hread] at hexact
    · cases hread
  · simp [not_exact_of_flagOfText hread] at hexact
  · simp [not_exact_of_flagOfText hread] at hexact
  · cases hread

theorem not_exact_of_map
    {α : Type} {outcome : Except Cause α} {c : Coerced α}
    (hread : outcome.map (⟨·, false⟩) = .ok c) :
    c.exact = false := by
  cases outcome with
  | error cause => cases hread
  | ok a =>
      cases hread
      rfl

theorem form?_of_toInteger
    {v : Value} {c : Coerced Int}
    (hread : Coercion.toInteger v = .ok c) (hexact : c.exact = true) :
    v.form? = some .integer := by
  unfold Coercion.toInteger at hread
  split at hread
  · rfl
  · cases hread
    contradiction
  · split_ifs at hread
    split at hread
    · cases hread
    · split_ifs at hread
      cases hread
      contradiction
  · simp [not_exact_of_map hread] at hexact
  · split at hread
    · simp [not_exact_of_map hread] at hexact
    · cases hread
  · cases hread

theorem form?_of_toNumber
    {v : Value} {c : Coerced Decimal.Double}
    (hread : Coercion.toNumber v = .ok c) (hexact : c.exact = true) :
    v.form? = some .real := by
  unfold Coercion.toNumber at hread
  split at hread
  · rfl
  · simp only at hread
    split_ifs at hread
    cases hread
    contradiction
  · cases hread
    contradiction
  · simp [not_exact_of_map hread] at hexact
  · split at hread
    · simp [not_exact_of_map hread] at hexact
    · cases hread
  · cases hread

theorem form?_of_toWord
    {choices : List String} {v : Value} {x : String}
    (hread : Coercion.toWord choices v = .ok x) :
    v.form? = some .text := by
  unfold Coercion.toWord at hread
  split at hread
  · rfl
  · cases hread

/-- A kind of one form takes no value of another form as it is. -/
theorem form?_of_readKind
    {v : Value} {k : Kind} {r : Reading} {f : Form} (hform : k.form? = some f)
    (hread : readKind v (partsOf v) k = .ok r) (hexact : r.exact = true) :
    v.form? = some f := by
  cases k with
  | text =>
      obtain ⟨c, hc, rfl⟩ := ofCoerced_eq_ok_iff.mp hread
      cases hform
      exact form?_of_toText hc hexact
  | word choices =>
      obtain ⟨c, hc, rfl⟩ := ofCoerced_eq_ok_iff.mp hread
      cases hform
      exact form?_of_toWord (map_coerced_eq_ok hc)
  | flag =>
      obtain ⟨c, hc, rfl⟩ := ofCoerced_eq_ok_iff.mp hread
      cases hform
      exact form?_of_toFlag hc hexact
  | integer least =>
      obtain ⟨c, hc, rfl⟩ := ofCoerced_eq_ok_iff.mp hread
      cases hform
      exact form?_of_toInteger (toInteger_of_toIntegerFrom hc) hexact
  | number =>
      rw [readKind] at hread
      obtain ⟨c, hc, rfl⟩ := ofCoerced_eq_ok_iff.mp hread
      cases hform
      exact form?_of_toNumber hc hexact
  | listOf j =>
      cases hform
      cases v <;> first | rfl | cases hread
  | optionList =>
      cases hform
      cases v <;> first | rfl | cases hread
  | tableOf j =>
      cases hform
      cases v <;> first | rfl | cases hread
  | row =>
      cases hform
      cases v <;> first | rfl | cases hread
  | record t =>
      cases hform
      cases v <;> first | rfl | cases hread
  | action =>
      cases hform
      cases v <;> first | rfl | cases hread
  | field =>
      cases hform
      cases v <;> first | rfl | cases hread
  | anything => cases hform
  | oneOf choices => cases hform
  | commaList => cases hform

/-- No value is read with an end to all reading as a kind of another form, an integer as text
apart. -/
theorem calm_of_readKind
    {v : Value} {k : Kind} {f g : Form} (hk : k.form? = some f) (hv : v.form? = some g)
    (hne : f ≠ g) (htext : k = .text → g ≠ .integer) :
    Fails Calm (readKind v (partsOf v) k) := by
  have hcoerced {α : Type} (f : α → Element) {coerced : Except Cause (Coerced α)}
      (hplain : RefusesPlainly coerced) : Fails Calm (ofCoerced f coerced) :=
    fails_ofCoerced f fun cause hcause => calm_of_isPlain (hplain cause hcause)
  have hrefuse (cause : Cause) (hcause : cause.abrupt? = none) :
      Fails Calm (refuse cause : Outcome) :=
    fails_refuse (calm_here hcause)
  cases k with
  | text =>
      apply fails_ofCoerced
      intro cause hcause
      rcases cause_of_toText hcause with hplain | ⟨-, i, rfl, -⟩
      · exact calm_of_isPlain hplain
      · cases hv
        exact absurd rfl (htext rfl)
  | flag => exact hcoerced _ (refusesPlainly_toFlag v)
  | integer least => exact hcoerced _ (refusesPlainly_toIntegerFrom least v)
  | number => exact hcoerced (fun d => .value (.real d)) (refusesPlainly_toNumber v)
  | word choices => exact hcoerced _ ((refusesPlainly_toWord choices v).map _)
  -- A value of another form does not have the parts that are wanted.
  | listOf j | optionList =>
      cases hk
      cases v with
      | list items => exact absurd (Option.some.inj hv) hne
      | tuple items => exact absurd (Option.some.inj hv) hne
      | set items => exact absurd (Option.some.inj hv) hne
      | _ => exact hrefuse _ rfl
  | tableOf j | row | record t | action =>
      cases hk
      cases v with
      | map entries => exact absurd (Option.some.inj hv) hne
      | _ => exact hrefuse _ rfl
  | field =>
      cases hk
      cases v with
      | map entries => exact absurd (Option.some.inj hv) hne
      | _ => exact Fails.under (isStable_calm.mono_under (hrefuse _ rfl) _)
  | _ => cases hk

theorem hasLabels_of_form? {v : Value} (hform : v.form? ≠ some .list) : v.hasLabels = true := by
  cases v with
  | list items => exact absurd rfl hform
  | tuple items => exact absurd rfl hform
  | _ => rfl

/-- Of alternatives of forms of their own, the one that takes a value as it is is the first that
is final. -/
theorem find?_isFinal
    {v : Value} {s : Shape} (hforms : ∀ k ∈ s.kinds, k.form?.isSome = true)
    (hnodup : (s.kinds.map Kind.form?).Nodup) {k : Kind} (hk : k ∈ s.kinds)
    {e : Element} (hread : readKind v (partsOf v) k = .ok ⟨e, true⟩)
    (htext : k.form? = some .integer → s.writesIntegers = true → v.hasText = true) :
    s.kinds.find? (fun j => isFinal (readKind v (partsOf v) j)) = some k := by
  obtain ⟨f, hf⟩ := Option.isSome_iff_exists.mp (hforms k hk)
  have hv := form?_of_readKind hf hread rfl
  obtain ⟨before, after, hsplit⟩ := List.append_of_mem hk
  refine List.find?_eq_some_iff_append.mpr ⟨by rw [hread]; rfl, before, after, hsplit, ?_⟩
  intro j hj
  have hmem : j ∈ s.kinds := hsplit ▸ List.mem_append_left _ hj
  obtain ⟨g, hg⟩ := Option.isSome_iff_exists.mp (hforms j hmem)
  have hne : g ≠ f := by
    rintro rfl
    rw [hsplit, List.map_append, List.map_cons] at hnodup
    exact List.disjoint_of_nodup_append hnodup (List.mem_map_of_mem hj) (by simp [hf, hg])
  have hfails : Fails Calm (readKind v (partsOf v) j) := by
    by_cases hwritten : j = .text ∧ f = .integer
    · -- An integer that is read after text has been written.
      obtain ⟨rfl, rfl⟩ := hwritten
      have hlong := htext hf (Shape.writesIntegers_of_text_mem hnodup hsplit hf hj)
      apply fails_ofCoerced
      intro cause hcause
      rcases cause_of_toText hcause with hplain | ⟨-, -, -, hnone⟩
      · exact calm_of_isPlain hplain
      · cases hnone.symm.trans hlong
    · exact calm_of_readKind hg hv hne fun htext hinteger => hwritten ⟨htext, hinteger⟩
  cases hother : readKind v (partsOf v) j with
  | ok q =>
      cases hexact : q.exact with
      | false => simp [isFinal, hexact]
      | true =>
          have hform := (form?_of_readKind hg hother hexact).symm.trans hv
          exact absurd (Option.some.inj hform) hne
  | error faults =>
      simpa [isFinal] using fun f hf => hfails faults hother f hf

/-- Of separated alternatives, the one that takes a value as it is wins. -/
theorem ofValue_of_readKind
    {v : Value} {s : Shape} (hseparated : s.isSeparated = true) {k : Kind} (hk : k ∈ s.kinds)
    {e : Element} (hread : readKind v (partsOf v) k = .ok ⟨e, true⟩)
    (hpresent : s.nullable = true → v.isPresent = true)
    (hlabels : k = .optionList → v.hasLabels = true)
    (htext : k.form? = some .integer → s.writesIntegers = true → v.hasText = true) :
    ofValue v s = .ok ⟨e, true⟩ := by
  have hvalue : (s.nullable && !v.isPresent) = false := by
    cases hnull : s.nullable with
    | false => rfl
    | true => simp [hpresent hnull]
  simp only [Shape.isSeparated, Bool.or_eq_true, Bool.and_eq_true, beq_iff_eq,
    List.all_eq_true, decide_eq_true_eq] at hseparated
  have hguard : (s.kinds.contains .optionList && !v.hasLabels) = false := by
    by_cases hoption : .optionList ∈ s.kinds
    · suffices hlabelled : v.hasLabels = true by simp [hlabelled]
      rcases hseparated with hlength | ⟨hforms, hnodup⟩
      · obtain ⟨j, hkinds⟩ := List.length_eq_one_iff.mp hlength
        rw [hkinds, List.mem_singleton] at hk hoption
        exact hlabels (hk.trans hoption.symm)
      · by_cases hlist : v.form? = some .list
        · obtain ⟨f, hf⟩ := Option.isSome_iff_exists.mp (hforms k hk)
          have hsame : k.form? = Kind.optionList.form? := by
            rw [hf, ← form?_of_readKind hf hread rfl, hlist]
            rfl
          exact hlabels (List.inj_on_of_nodup_map hnodup hk hoption hsame)
        · exact hasLabels_of_form? hlist
    · simp [hoption]
  simp only [ofValue_eq, readShape, hvalue, hguard, Bool.false_eq_true, if_false]
  split
  next j hkinds =>
    rw [hkinds, List.mem_singleton] at hk
    rwa [← hk]
  next hmany =>
    obtain ⟨hforms, hnodup⟩ := hseparated.resolve_left fun hlength => by
      obtain ⟨j, hj⟩ := List.length_eq_one_iff.mp hlength
      exact hmany j hj
    have hfirst := find?_isFinal hforms hnodup hk hread htext
    have houtcome : (s.kinds.map fun j => (label j, readKind v (partsOf v) j)).find?
        (fun o => isFinal o.2) = some (label k, readKind v (partsOf v) k) := by
      rw [List.find?_map]
      exact congrArg _ hfirst
    rw [choose, houtcome]
    exact under_eq_ok_iff.mpr hread

/-! ## Records -/

theorem findSome?_of_find?
    {α β : Type} {p : α → Bool} {f : α → Option β} {items : List α} {a : α} {b : β}
    (hfind : items.find? p = some a) (hnone : ∀ s, p s = false → f s = none)
    (hf : f a = some b) :
    items.findSome? f = some b := by
  induction items with
  | nil => cases hfind
  | cons s rest ih =>
      cases hs : p s with
      | true =>
          rw [List.find?_cons, hs, Option.some.injEq] at hfind
          simp [hfind, hf]
      | false =>
          rw [List.find?_cons, hs] at hfind
          rw [List.findSome?_cons, hnone s hs]
          exact ih hfind

/-- Nothing in an element would be taken for an attribute that is left out. -/
def IsClear (nulls : Bool) (e : Element) : Prop :=
  nulls = false → e.everyRecord hasClearExtras = true

section Clear

variable {nulls : Bool}

theorem IsClear.item
    {items : List Element} (hclear : IsClear nulls (.list items)) {e : Element} (he : e ∈ items) :
    IsClear nulls e :=
  fun h => everyRecord_list.mp (hclear h) e he

theorem IsClear.entry
    {entries : List (String × Element)} (hclear : IsClear nulls (.table entries))
    {e : String × Element} (he : e ∈ entries) :
    IsClear nulls e.2 :=
  fun h => everyRecord_table.mp (hclear h) e he

theorem IsClear.attribute
    {e : Element} (hclear : IsClear nulls e) {name : String} {f : Element}
    (hattribute : e.attribute? name = some f) :
    IsClear nulls f := by
  cases e with
  | record t attributes extras =>
      obtain ⟨x, hx, rfl⟩ := Option.map_eq_some_iff.mp hattribute
      exact fun h => (everyRecord_record.mp (hclear h)).2 x (List.mem_of_find?_eq_some hx)
  | _ => cases hattribute

end Clear

section Dump

variable {t : RecordType} {attributes : List (String × Element)} {extras : List (String × Value)}
  (hrecord : RecordFits t attributes extras) {nulls : Bool}
  (hclear : nulls = false → hasClearExtras t attributes extras = true)

include hrecord

theorem spelling?_dump_of_kept
    {a : Attribute} {x : String × Element} (hmem : (a, x) ∈ t.attributes.zip attributes)
    (hkept : (nulls || !x.2.isNull) = true) :
    a.spelling? (dump nulls attributes extras) = some (a.name, x.2.toValue nulls) := by
  have ha := (List.of_mem_zip hmem).1
  have hget : Entries.get? a.name (dump nulls attributes extras) = some (x.2.toValue nulls) := by
    rw [get?_dump hrecord nulls hmem, if_pos hkept]
  by_cases ht : t = .field .unrecognized
  · subst ht
    obtain ⟨o, ho⟩ := written?_of_unrecognized ha
      (show (Offer.find? a.name (Entries.offers (dump nulls attributes extras))).isSome = true by
        simp [find?_offers, hget])
    rw [written?_offers] at ho
    obtain ⟨p, hp, hpair⟩ := Option.map_eq_some_iff.mp ho
    obtain ⟨s, hs, hfind⟩ := List.exists_of_findSome?_eq_some hp
    obtain ⟨v, hv, rfl⟩ := Option.map_eq_some_iff.mp hfind
    obtain ⟨rfl, -⟩ := Prod.mk.inj hpair
    rw [hp, show v = x.2.toValue nulls by simpa [hget] using hv.symm]
  · refine findSome?_of_find? (RecordType.find?_spellings ha) (fun s hs => ?_) (by simp [hget])
    have hs : s ∉ t.names := by simpa using hs
    simp [get?_dump_eq_none hrecord nulls hs (by simp [hrecord.extras_eq_nil ht])]

include hclear

/-- An attribute stands in the plain tree of its record under its name, and no spelling
that would be looked up before is there.  If it is left out, no spelling of it is there. -/
theorem spelling?_dump
    {a : Attribute} {x : String × Element} (hmem : (a, x) ∈ t.attributes.zip attributes) :
    a.spelling? (dump nulls attributes extras) =
      if nulls || !x.2.isNull then some (a.name, x.2.toValue nulls) else none := by
  have ha := (List.of_mem_zip hmem).1
  split_ifs with hkept
  · exact spelling?_dump_of_kept hrecord hmem hkept
  · simp only [Bool.or_eq_true, Bool.not_eq_true', not_or, Bool.not_eq_true,
      Bool.not_eq_false] at hkept
    obtain ⟨hnulls, hnull⟩ := hkept
    rw [Attribute.spelling?, List.findSome?_eq_none_iff]
    intro s hs
    rw [Option.map_eq_none_iff]
    by_cases hname : s ∈ t.names
    · rw [RecordType.eq_name_of_mem_names ha hs hname, get?_dump hrecord nulls hmem]
      simp [hnulls, hnull]
    · refine get?_dump_eq_none hrecord nulls hname fun hextra => ?_
      obtain ⟨y, hy, rfl⟩ := List.mem_map.mp hextra
      obtain ⟨hmemExtra, hpresent⟩ := List.mem_filter.mp hy
      have hextras := List.all_eq_true.mp (hclear hnulls) _ hmem
      simp only [hnull, Bool.not_true, Bool.false_or, List.all_eq_true] at hextras
      have hfree := hextras y hmemExtra
      simp [hnulls] at hpresent
      simp [hpresent, hs] at hfree

theorem reads_dump
    {a : Attribute} {x : String × Element} (hmem : (a, x) ∈ t.attributes.zip attributes)
    (hread : ofValue (x.2.toValue nulls) a.shape = .ok ⟨x.2.kept nulls, true⟩) :
    a.Reads (dump nulls attributes extras) (x.2.kept nulls) := by
  rw [Attribute.Reads, spelling?_dump hrecord hclear hmem]
  by_cases hkept : (nulls || !x.2.isNull) = true
  · rw [if_pos hkept]
    exact ⟨true, hread⟩
  · have hnull : x.2 = .null := eq_null_of_isNull (by simp_all)
    have hfits := hrecord.fits a x hmem
    rw [hnull] at hfits ⊢
    have hdefault := RecordType.default_of_admitsNull (List.of_mem_zip hmem).1
      (admitsNull_of_fits hfits)
    rw [if_neg (by simpa [hnull] using hkept), hdefault]
    rfl

omit hclear

theorem valueOf_dump
    {name : String} (hneeds : t.Needs name) :
    (Offer.valueOf name (Entries.offers (dump nulls attributes extras))).isPresent = true := by
  rw [valueOf_offers]
  exact (hrecord.isDump nulls).has (by simpa using hneeds) name (List.mem_singleton_self name)

/-- The plain tree of a record has nothing left to fill in. -/
theorem expand_dump :
    expand t (Entries.offers (dump nulls attributes extras)) =
      Entries.offers (dump nulls attributes extras) := by
  cases t with
  | field f =>
      have hid : (Offer.valueOf "id" (Entries.offers (dump nulls attributes extras))).isPresent :=
        valueOf_dump hrecord (RecordType.needs_id f)
      have hlabel :
          (Offer.valueOf "label" (Entries.offers (dump nulls attributes extras))).isPresent :=
        valueOf_dump hrecord (RecordType.needs_label f)
      unfold expand
      split
      next heq =>
        cases heq
        have htext :
            (Offer.valueOf "text" (Entries.offers (dump nulls attributes extras))).isPresent :=
          valueOf_dump hrecord (show (RecordType.field .heading).Needs "text" by decide)
        rw [fillHeading_of_present htext]
        exact fillName_of_present hid hlabel
      next => exact fillName_of_present hid hlabel
      next hfield => exact absurd rfl (hfield f)
  | _ => rfl

include hclear

/-- The extras of a record are all that is not used for an attribute. -/
theorem readExtras_dump :
    readExtras t (Entries.offers (dump nulls attributes extras)) =
      .ok (extras.filter fun x => nulls || x.2.isPresent) := by
  by_cases ht : t = .field .unrecognized
  · subst ht
    set used := (RecordType.field .unrecognized).attributes.filterMap fun a =>
      (written? a (Entries.offers (dump nulls attributes extras))).map Prod.fst with hused
    have hnames (name : String) (hname : name ∈ used) :
        name ∈ (RecordType.field .unrecognized).names := by
      obtain ⟨a, ha, hwritten⟩ := List.mem_filterMap.mp hname
      obtain ⟨x, hx⟩ := hrecord.exists_mem_zip ha
      rw [written?_offers, spelling?_dump hrecord hclear hx] at hwritten
      split_ifs at hwritten
      · cases hwritten
        exact RecordType.name_mem ha
      · cases hwritten
    have hattributes (x : String × Element) (hx : x ∈ attributes)
        (hkept : (nulls || !x.2.isNull) = true) : x.1 ∈ used := by
      obtain ⟨a, ha, hname⟩ := exists_of_mem_right hrecord.forall₂_names hx
      obtain ⟨y, hy⟩ := hrecord.exists_mem_zip ha
      have hsame : y = x := List.inj_on_of_nodup_map hrecord.nodup_names (List.of_mem_zip hy).2 hx
        ((hrecord.name_of_mem_zip hy).trans hname.symm)
      rw [hsame] at hy
      refine List.mem_filterMap.mpr ⟨a, ha, ?_⟩
      rw [written?_offers, spelling?_dump_of_kept hrecord hy hkept, hname]
      rfl
    have hcollect : (Entries.offers (dump nulls attributes extras)).map (readExtra used) =
        ((attributes.filter fun x : String × Element => nulls || !x.2.isNull).map
            (fun _ => none) ++
          (extras.filter fun x : String × Value => nulls || x.2.isPresent).map some).map
            .ok := by
      simp only [Entries.offers, dump, Entries.named, List.map_append, List.map_map]
      congr 1
      · refine List.map_congr_left fun x hx => ?_
        obtain ⟨hmem, hkept⟩ := List.mem_filter.mp hx
        simp [readExtra, Key.text?, hattributes x hmem hkept]
      · refine List.map_congr_left fun x hx => ?_
        have hx : x.1 ∉ used := fun hname =>
          hrecord.not_mem_extras (hnames _ hname) (List.mem_map_of_mem (List.mem_of_mem_filter hx))
        simp [readExtra, Key.text?, hx]
    unfold readExtras
    simp only [← hused, collect_eq_ok_iff.mpr hcollect, Except.map, Except.ok.injEq]
    simp
  · rw [readExtras_of_ne ht, hrecord.extras_eq_nil ht]
    rfl

omit hclear

theorem tag_of_action
    {f : ActionType} (ht : t = .action f) (nulls : Bool) :
    (dump nulls attributes extras).getD "type" = .text f.tag := by
  subst ht
  have ha : Attribute.orText "type" (.word [f.tag]) f.tag ∈ (RecordType.action f).attributes :=
    List.mem_append_right _ (.head _)
  obtain ⟨x, hx⟩ := hrecord.exists_mem_zip ha
  obtain ⟨s, hs, hword⟩ := (hrecord.fits _ x hx).admits_one
  have hget := getD_dump hrecord nulls hx
  rwa [hword, List.mem_singleton.mp hs] at hget

theorem tag_of_field
    {f : FieldType} (ht : t = .field f) (htag : TagFits t attributes) (nulls : Bool) :
    ∃ tag, (dump nulls attributes extras).getD "type" = .text tag ∧ FieldType.ofTag tag = f := by
  subst ht
  have ha : f.typeAttribute ∈ (RecordType.field f).attributes :=
    List.mem_append_right _ (.head _)
  obtain ⟨x, hx⟩ := hrecord.exists_mem_zip ha
  have hget := getD_dump hrecord nulls hx
  have hname := hrecord.name_of_mem_zip hx
  have htype : f.typeAttribute.name = "type" := by cases f <;> rfl
  rw [htype] at hget hname
  by_cases hf : f = .unrecognized
  · subst hf
    obtain ⟨tag, hmem, hunknown⟩ := htag rfl
    have hsame : x = ("type", .text tag) := List.inj_on_of_nodup_map hrecord.nodup_names
      (List.of_mem_zip hx).2 hmem hname
    exact ⟨tag, by rw [hget, hsame]; rfl, hunknown⟩
  · have hshape : f.typeAttribute.shape = .one (.word [f.tag]) := by
      cases f <;> first | rfl | contradiction
    have hfits := hrecord.fits _ x hx
    rw [hshape] at hfits
    obtain ⟨s, hs, hword⟩ := hfits.admits_one
    rw [hword, List.mem_singleton.mp hs] at hget
    exact ⟨f.tag, hget, FieldType.ofTag_tag f⟩

variable (hread : ∀ a x, (a, x) ∈ t.attributes.zip attributes →
  ofValue (x.2.toValue nulls) a.shape = .ok ⟨x.2.kept nulls, true⟩)

include hclear hread

/-- A record whose attributes are read back is read back. -/
theorem readRecord_dump :
    readRecord t (Entries.offers (dump nulls attributes extras)) =
      .ok ⟨(Element.record t attributes extras).kept nulls, true⟩ := by
  rw [kept_record]
  refine readRecord_eq_ok_iff.mpr ⟨_, _, ?_, ?_, rfl⟩
  · rw [List.forall₂_map_right_iff]
    refine List.forall₂_iff_zip.mpr ⟨hrecord.forall₂_names.length_eq, fun {a x} hmem => ?_⟩
    have hname : x.1 = a.name := hrecord.name_of_mem_zip hmem
    rw [expand_dump hrecord, readAttribute_offers_eq_ok_iff]
    exact ⟨hname, reads_dump hrecord hclear hmem (hread a x hmem)⟩
  · rw [expand_dump hrecord, readExtras_dump hrecord hclear]

theorem readKind_dump
    {k : Kind} (hholds : k.holds t = true) (htag : k = .field → TagFits t attributes) :
    readKind (.map (dump nulls attributes extras)) (partsOf (.map (dump nulls attributes extras)))
        k =
      .ok ⟨(Element.record t attributes extras).kept nulls, true⟩ := by
  have hback := readRecord_dump hrecord hclear hread
  cases k with
  | record u =>
      have hu : u = t := by simpa [Kind.holds] using hholds
      exact hu ▸ hback
  | action =>
      cases t with
      | action f =>
          have htype := tag_of_action hrecord rfl nulls
          have hpresent : ((dump nulls attributes extras).getD "type").isPresent = true := by
            rw [htype]
            rfl
          have hget := Entries.get?_of_isPresent hpresent
          simp only [readKind, partsOf, readAction, find?_offers, hget, Option.map_some,
            value_of, htype, Value.text?, Option.bind_some, ActionType.ofTag?_tag]
          exact under_eq_ok_iff.mpr hback
      | _ => cases hholds
  | field =>
      cases t with
      | field f =>
          obtain ⟨tag, htype, hf⟩ := tag_of_field hrecord rfl (htag rfl) nulls
          simp only [readKind, partsOf, readField, valueOf_offers, htype, fieldType, hf]
          exact under_eq_ok_iff.mpr hback
      | _ => cases hholds
  | _ => cases hholds

end Dump

/-! ## Lists, tables and scalars -/

section Parts

variable {j k : Kind} {nulls : Bool}

theorem hasSmallChoices_of_item
    (hitem : k.item? = some j) (hk : k.hasSmallChoices = true) :
    j.hasSmallChoices = true := by
  cases k with
  | listOf i =>
      cases hitem
      exact hk
  | optionList =>
      cases hitem
      rfl
  | commaList =>
      cases hitem
      rfl
  | _ => cases hitem

theorem hasSmallChoices_of_entry
    (hentry : k.entry? = some j) (hk : k.hasSmallChoices = true) :
    j.hasSmallChoices = true := by
  cases k with
  | tableOf i =>
      cases hentry
      exact hk
  | row =>
      cases hentry
      rfl
  | _ => cases hentry

theorem readItems_map_of
    {read : Offer → Outcome} {items : List Element}
    (hread : ∀ e ∈ items, read (Offer.of (e.toValue nulls)) = .ok ⟨e.kept nulls, true⟩) :
    readItems read ((items.map (toValue nulls)).map Offer.of) = .ok (items.map (kept nulls)) := by
  rw [readItems_eq_ok_iff, List.map_map, List.forall₂_map_left_iff, List.forall₂_map_right_iff,
    List.forall₂_same]
  exact fun e he => ⟨true, hread e he⟩

theorem readKind_list
    (hitem : k.item? = some j) {items : List Element}
    (hfits : ∀ e ∈ items, Fits (.one j) e)
    (hread : ∀ e ∈ items, ofValue (e.toValue nulls) (.one j) = .ok ⟨e.kept nulls, true⟩) :
    readKind (.list (items.map (toValue nulls)))
        (partsOf (.list (items.map (toValue nulls)))) k =
      .ok ⟨.list (items.map (kept nulls)), true⟩ := by
  cases k with
  | listOf i =>
      cases hitem
      exact ofItems_eq_ok_iff.mpr ⟨_, readItems_map_of hread, rfl⟩
  | commaList =>
      cases hitem
      exact ofItems_eq_ok_iff.mpr ⟨_, readItems_map_of hread, rfl⟩
  | optionList =>
      cases hitem
      refine ofItems_eq_ok_iff.mpr ⟨_, readItems_map_of fun e he => ?_, rfl⟩
      obtain ⟨attributes, extras, rfl, -⟩ := (hfits e he).admits_one
      have hexpand : ((Element.record .option attributes extras).toValue nulls).expandOption =
          (Element.record .option attributes extras).toValue nulls := by
        rw [toValue_record]
        rfl
      rw [readOption_of, hexpand]
      exact hread _ he
  | _ => cases hitem

/-- Options that are records need no label. -/
theorem hasLabels_of_records
    {items : List Element} (hfits : ∀ e ∈ items, Fits (.one (.record .option)) e) :
    (Value.list (items.map (toValue nulls))).hasLabels = true := by
  refine List.all_eq_true.mpr fun v hv => ?_
  obtain ⟨e, he, rfl⟩ := List.mem_map.mp hv
  obtain ⟨attributes, extras, rfl, -⟩ := (hfits e he).admits_one
  rw [toValue_record]
  rfl

theorem readKind_table
    (hentry : k.entry? = some j) {entries : List (String × Element)}
    (hnames : (entries.map Prod.fst).Nodup)
    (hread : ∀ e ∈ entries, ofValue (e.2.toValue nulls) (.one j) = .ok ⟨e.2.kept nulls, true⟩) :
    readKind ((Element.table entries).toValue nulls)
        (partsOf ((Element.table entries).toValue nulls)) k =
      .ok ⟨(Element.table entries).kept nulls, true⟩ := by
  have htable : readTable j (Entries.offers (Entries.named
      (entries.map fun e => (e.1, e.2.toValue nulls)))) =
        .ok ⟨(Element.table entries).kept nulls, true⟩ := by
    refine readTable_eq_ok_iff.mpr ⟨entries.map fun e => (e.1, e.2.kept nulls), ?_, ?_⟩
    · simp only [Entries.offers, Entries.named, List.map_map, List.forall₂_map_left_iff,
        List.forall₂_map_right_iff, List.forall₂_same]
      exact fun e he => readEntry_text (hread e he)
    · rw [kept_table, Entries.distinct_of_nodup (by rwa [List.map_map])]
  rw [toValue_table]
  cases k with
  | tableOf i =>
      cases hentry
      exact htable
  | row =>
      cases hentry
      exact htable
  | _ => cases hentry

end Parts

/-- An element that fits a shape with different alternatives is read back from its plain
tree as it is, or without its null extras if nulls are left out. -/
theorem ofValue_toValue
    {nulls : Bool} {s : Shape} {e : Element} (hfits : Fits s e) (hseparated : s.isSeparated = true)
    (hchoices : ∀ k ∈ s.kinds, k.hasSmallChoices = true) (hclear : IsClear nulls e) :
    ofValue (e.toValue nulls) s = .ok ⟨e.kept nulls, true⟩ := by
  -- Every kind takes its own plain trees as they are, so its alternative wins over the others.
  induction hfits with
  | null hnull => simp [toValue, kept, ofValue_eq, readShape, hnull, Value.isPresent]
  | @anything s v hk =>
      by_cases habsent : s.nullable = true ∧ v.isPresent = false
      · obtain ⟨hnull, hv⟩ := habsent
        have hnull : Element.value v = .null := eq_null_of_toValue nulls hv
        cases hnull
        simp [toValue, kept, ofValue_eq, readShape, hnull, Value.isPresent]
      · refine ofValue_of_readKind hseparated hk rfl (by simpa [toValue] using habsent) ?_ ?_ <;>
          simp [Kind.form?]
  | text x hk =>
      refine ofValue_of_readKind hseparated hk rfl (fun _ => rfl) ?_ ?_ <;> simp [Kind.form?]
  | @word s choices x hk hx =>
      have hread : readKind (.text x) .none (.word choices) = .ok ⟨.text x, true⟩ := by
        simp [readKind, Coercion.toWord, hx, Except.map, ofCoerced]
      refine ofValue_of_readKind hseparated hk hread (fun _ => rfl) ?_ ?_ <;> simp [Kind.form?]
  | flag b hk =>
      refine ofValue_of_readKind hseparated hk rfl (fun _ => rfl) ?_ ?_ <;> simp [Kind.form?]
  | @integer s least i hk hleast htext =>
      have hread : readKind (.integer i) .none (.integer least) = .ok ⟨.integer i, true⟩ := by
        cases least with
        | none => rfl
        | some n =>
            have hlt : ¬ i < n := by simpa using hleast n rfl
            simp [readKind, Coercion.toIntegerFrom, Coercion.toInteger, hlt, ofCoerced, bind,
              Except.bind]
      exact ofValue_of_readKind hseparated hk hread (fun _ => rfl) (by simp) fun _ hwrites =>
        (Value.hasText_scalar _).trans (htext hwrites)
  | @oneOf s choices i hk hi =>
      have hsmall : Coercion.isSmall i = true := by
        have hall := hchoices _ hk
        simp only [Kind.hasSmallChoices, List.all_eq_true] at hall
        exact hall i hi
      have hread : readKind (.integer i) .none (.oneOf choices) = .ok ⟨.integer i, true⟩ := by
        simp [readKind, Coercion.toListed, hsmall, hi, Except.map, ofCoerced]
      refine ofValue_of_readKind hseparated hk hread (fun _ => rfl) ?_ ?_ <;> simp [Kind.form?]
  | number d hk =>
      refine ofValue_of_readKind hseparated hk rfl (fun _ => rfl) ?_ ?_ <;> simp [Kind.form?]
  | @list s k j items hk hitem hitems ih =>
      have hsmall := hasSmallChoices_of_item hitem (hchoices k hk)
      have hread := readKind_list hitem hitems fun e he =>
        ih e he rfl (by simpa [Shape.one] using hsmall) (hclear.item he)
      rw [toValue_list, kept_list]
      refine ofValue_of_readKind hseparated hk hread (fun _ => rfl) ?_ fun hinteger => ?_
      · rintro rfl
        cases hitem
        exact hasLabels_of_records hitems
      · cases k <;> first | cases hitem; done | cases hinteger
  | @table s k j entries hk hentry hnames hentries ih =>
      have hsmall := hasSmallChoices_of_entry hentry (hchoices k hk)
      have hread := readKind_table hentry hnames fun e he =>
        ih e he rfl (by simpa [Shape.one] using hsmall) (hclear.entry he)
      refine ofValue_of_readKind hseparated hk hread (fun _ => by rw [toValue_table]; rfl)
        (by rintro rfl; cases hentry) fun hinteger => ?_
      cases k <;> first | cases hentry; done | cases hinteger
  | @record s k t attributes extras hk hholds hnames hextras htag hattributes ih =>
      have hattributes' : ∀ a x, (a, x) ∈ t.attributes.zip attributes →
          ofValue (x.2.toValue nulls) a.shape = .ok ⟨x.2.kept nulls, true⟩ := fun a x hmem =>
        ih a x hmem (RecordType.shape_isSeparated (List.of_mem_zip hmem).1)
          (fun k hk => RecordType.hasSmallChoices_of_mem (List.of_mem_zip hmem).1 hk)
          fun h => (everyRecord_record.mp (hclear h)).2 x (List.of_mem_zip hmem).2
      have hread := readKind_dump ⟨hnames, hextras, hattributes⟩
        (fun h => (everyRecord_record.mp (hclear h)).1) hattributes' hholds htag
      rw [toValue_record]
      refine ofValue_of_readKind hseparated hk hread (fun _ => rfl)
        (by rintro rfl; cases hholds) fun hinteger => ?_
      cases k <;> first | cases hholds | cases hinteger

end Reading

end Wireframe
