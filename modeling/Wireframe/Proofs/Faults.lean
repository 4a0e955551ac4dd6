import Mathlib.Tactic
import Wireframe.Proofs.Attributes
import Wireframe.Proofs.Records
import Wireframe.Proofs.WrittenValues

/-!
# Faults of failed readings

The faults of a failed reading are put together from those of its parts, each located by the
step that leads to the part.  So what holds of faults put together and located holds of
every failure, if it holds of the faults that start at a value.  One such property is that
there is a fault at all: only a choice without alternatives fails without one, and it is
never the shape of an attribute.
-/

namespace Wireframe

/-- Whether the cause lies in the value itself, not in a part or in a tag that is missing, and
does not end all reading. -/
def Cause.isPlain : Cause → Bool
  | .missing | .noTagSource | .noTag | .unknownTag _ _ | .notWritten _ => false
  | _ => true

/-- Whether a tag is at fault: it is absent, or it is none of those that are known. -/
def Cause.isTag : Cause → Bool
  | .noTagSource | .noTag | .unknownTag _ _ => true
  | _ => false

namespace Reading

/-- If the outcome is a failure, this holds of its faults. -/
def Fails {α : Type} (Q : List Fault → Prop) (outcome : Except (List Fault) α) : Prop :=
  ∀ faults, outcome = .error faults → Q faults

/-- The property passes on to faults that are put together. -/
def IsAdditive (Q : List Fault → Prop) : Prop :=
  ∀ fs gs, Q fs → Q gs → Q (fs ++ gs)

/-- What holds of each fault on its own passes on to faults that are put together. -/
theorem isAdditive_forall (P : Fault → Prop) : IsAdditive fun faults => ∀ f ∈ faults, P f := by
  intro fs gs hfs hgs f hf
  rcases List.mem_append.mp hf with hf | hf
  · exact hfs f hf
  · exact hgs f hf

section Outcomes

variable {α β : Type} {Q R : List Fault → Prop} {outcome : Except (List Fault) α}

theorem fails_ok (a : α) : Fails Q (.ok a) := nofun

theorem fails_error
    {faults : List Fault} (hfaults : Q faults) :
    Fails Q (.error faults : Except (List Fault) α) := by
  intro more hmore
  cases hmore
  exact hfaults

theorem fails_refuse
    {cause : Cause} (hcause : Q (Fault.here cause)) :
    Fails Q (refuse cause : Except (List Fault) α) :=
  fails_error hcause

theorem Fails.mono
    (hfails : Fails Q outcome) (himp : ∀ faults, Q faults → R faults) :
    Fails R outcome :=
  fun faults hfaults => himp faults (hfails faults hfaults)

theorem Fails.under
    {step : Step} (hfails : Fails (fun faults => Q (Fault.under step faults)) outcome) :
    Fails Q (under step outcome) := by
  cases outcome with
  | ok a => exact fails_ok a
  | error faults => exact fails_error (hfails faults rfl)

theorem Fails.map
    (f : α → β) (hfails : Fails Q outcome) :
    Fails Q (outcome.map f) := by
  cases outcome with
  | ok a => exact fails_ok (f a)
  | error faults => exact fails_error (hfails faults rfl)

theorem fails_collect
    (hadd : IsAdditive Q) {outcomes : List (Except (List Fault) α)}
    (hfails : ∀ o ∈ outcomes, Fails Q o) :
    Fails Q (collect outcomes) := by
  induction outcomes with
  | nil => exact fails_ok []
  | cons outcome rest ih =>
      have hrest := ih fun o ho => hfails o (List.mem_cons_of_mem _ ho)
      cases outcome with
      | ok a => exact hrest.map _
      | error faults =>
          have hfaults := hfails _ List.mem_cons_self faults rfl
          unfold collect
          split
          next => exact fails_error hfaults
          next more hmore => exact fails_error (hadd _ _ hfaults (hrest more hmore))

theorem fails_ofCoerced
    (f : α → Element) {coerced : Except Cause (Coerced α)}
    (hcoerced : ∀ cause, coerced = .error cause → Q (Fault.here cause)) :
    Fails Q (ofCoerced f coerced) := by
  cases coerced with
  | ok c => exact fails_ok _
  | error cause => exact fails_error (hcoerced cause rfl)

end Outcomes

/-! ## Containers -/

theorem fails_readAttribute
    {Q : List Fault → Prop} {offers : List (Key × Offer)} {a : Attribute}
    (hwritten : ∀ spelling o, written? a offers = some (spelling, o) →
      Fails (fun faults => Q (Fault.under (.name spelling) faults)) (o.read a.shape))
    (hmissing : written? a offers = none → Element.ofDefault? a.default = none →
      Q (Fault.under (.name a.name) (Fault.here .missing))) :
    Fails Q (readAttribute offers a) := by
  unfold readAttribute
  split
  next spelling o hfind => exact (hwritten spelling o hfind).under.map _
  next hnone =>
    split
    next => exact fails_ok _
    next hdefault => exact Fails.under (fails_refuse (hmissing hnone hdefault))

section Containers

variable {Q : List Fault → Prop} (hadd : IsAdditive Q)

include hadd

theorem fails_readItems
    {read : Offer → Outcome} {offers : List Offer}
    (hread : ∀ (i : Nat) (o : Offer), offers[i]? = some o →
      Fails (fun faults => Q (Fault.under (.place i) faults)) (read o)) :
    Fails Q (ofItems (readItems read offers)) := by
  have hitems : Fails Q (readItems read offers) := by
    apply fails_collect hadd
    intro outcome houtcome
    obtain ⟨o, ho, rfl⟩ := List.mem_map.mp houtcome
    exact (hread _ _ (List.mk_mem_zipIdx_iff_getElem?.mp ho)).under.map _
  unfold ofItems
  split
  next => exact fails_ok _
  next faults hfail => exact fails_error (hitems faults hfail)

theorem fails_readEntry
    {k : Kind} {key : Key} {offer : Offer}
    (hname : ∀ cause, Coercion.toText true (Value.ofKey key) = .error cause →
      Q (Fault.under (keyStep key) (Fault.under (.name "[key]") (Fault.here cause))))
    (hvalue : Fails (fun faults => Q (Fault.under (keyStep key) faults)) (offer.read (.one k))) :
    Fails Q (readEntry k key offer) := by
  have hvalue := hvalue.under
  unfold readEntry
  cases hkey : Coercion.toText true (Value.ofKey key) with
  | ok name =>
      cases hread : under (keyStep key) (offer.read (.one k)) with
      | ok r => exact fails_ok _
      | error faults => exact fails_error (hvalue faults hread)
  | error cause =>
      cases hread : under (keyStep key) (offer.read (.one k)) with
      | ok r => exact fails_error (hname cause hkey)
      | error more => exact fails_error (hadd _ _ (hname cause hkey) (hvalue more hread))

theorem fails_readTable
    {k : Kind} {offers : List (Key × Offer)}
    (hentries : ∀ o ∈ offers, Fails Q (readEntry k o.1 o.2)) :
    Fails Q (readTable k offers) := by
  have hcollect : Fails Q (collect (offers.map fun o => readEntry k o.1 o.2)) := by
    apply fails_collect hadd
    intro outcome houtcome
    obtain ⟨o, ho, rfl⟩ := List.mem_map.mp houtcome
    exact hentries o ho
  unfold readTable
  split
  next => exact fails_ok _
  next faults hfail => exact fails_error (hcollect faults hfail)

theorem fails_readRecord
    {type : RecordType} {written : List (Key × Offer)}
    (hattributes : ∀ a ∈ type.attributes, Fails Q (readAttribute (expand type written) a))
    (hextras : type = .field .unrecognized →
      ∀ key, Q (Fault.under (keyStep key) (Fault.here .keyNotText))) :
    Fails Q (readRecord type written) := by
  have hcollect :
      Fails Q (collect (type.attributes.map (readAttribute (expand type written)))) := by
    apply fails_collect hadd
    intro outcome houtcome
    obtain ⟨a, ha, rfl⟩ := List.mem_map.mp houtcome
    exact hattributes a ha
  have hextras : Fails Q (readExtras type (expand type written)) := by
    unfold readExtras
    split
    · refine (fails_collect hadd ?_).map _
      intro outcome houtcome
      obtain ⟨o, -, rfl⟩ := List.mem_map.mp houtcome
      unfold readExtra
      split
      · exact fails_ok _
      · exact Fails.under (fails_refuse (hextras rfl _))
    · exact fails_ok _
  unfold readRecord
  dsimp only
  split
  next => exact fails_ok _
  next hmore => exact fails_error (hextras _ hmore)
  next hfail _ => exact fails_error (hcollect _ hfail)
  next hfail hmore => exact fails_error (hadd _ _ (hcollect _ hfail) (hextras _ hmore))

theorem fails_choose
    {outcomes : List (String × Outcome)} (hne : outcomes ≠ [])
    (hfails : ∀ o ∈ outcomes,
      Fails (fun faults => Q (Fault.under (.name o.1) faults)) o.2) :
    Fails Q (choose outcomes) := by
  have hnamed : ∀ o ∈ outcomes, Fails Q (named o) := fun o ho => (hfails o ho).under
  unfold choose
  split
  next o hfound =>
    rw [Option.orElse_eq_orElse, Option.orElse_eq_or, Option.or_eq_some_iff] at hfound
    rcases hfound with hfinal | ⟨-, hok⟩
    · exact hnamed o (List.mem_of_find?_eq_some hfinal)
    · exact hnamed o (List.mem_of_find?_eq_some hok)
  next hnone =>
    -- Without a success every alternative has failed.
    rw [Option.orElse_eq_orElse, Option.orElse_eq_or, Option.or_eq_none_iff,
      List.find?_eq_none, List.find?_eq_none] at hnone
    have hfailed := hnone.2
    apply fails_error
    clear hfails hnone
    induction outcomes with
    | nil => exact absurd rfl hne
    | cons first rest ih =>
        obtain ⟨faults, hfirst⟩ : ∃ faults, named first = .error faults := by
          cases hread : first.2 with
          | ok r => exact absurd (by rw [hread]; rfl) (hfailed first List.mem_cons_self)
          | error faults => exact ⟨_, by rw [named, hread]; rfl⟩
        have hfaults := hnamed first List.mem_cons_self faults hfirst
        rw [List.flatMap_cons, hfirst]
        cases rest with
        | nil => simpa using hfaults
        | cons second rest =>
            refine hadd _ _ hfaults (ih (List.cons_ne_nil _ _) ?_ ?_)
            · exact fun o ho => hnamed o (List.mem_cons_of_mem _ ho)
            · exact fun o ho => hfailed o (List.mem_cons_of_mem _ ho)

end Containers

/-! ## Coercions -/

/-- What a scalar is refused for lies in the scalar itself. -/
def RefusesPlainly {α : Type} (coerced : Except Cause α) : Prop :=
  ∀ cause, coerced = .error cause → cause.isPlain = true

section Coercions

variable {α β : Type} {coerced : Except Cause α}

theorem refusesPlainly_ok (a : α) : RefusesPlainly (.ok a) := nofun

theorem refusesPlainly_error
    {cause : Cause} (hplain : cause.isPlain = true) :
    RefusesPlainly (.error cause : Except Cause α) := by
  intro other hother
  cases hother
  exact hplain

theorem RefusesPlainly.map
    (f : α → β) (hplain : RefusesPlainly coerced) :
    RefusesPlainly (coerced.map f) := by
  cases coerced with
  | ok a => exact refusesPlainly_ok _
  | error cause => exact refusesPlainly_error (hplain cause rfl)

/-- Text is refused plainly, too, unless an integer would have to be written that cannot be. -/
theorem cause_of_toText
    {numbers : Bool} {v : Value} {cause : Cause}
    (hcause : Coercion.toText numbers v = .error cause) :
    cause.isPlain = true ∨
      cause = .notWritten .longInteger ∧ ∃ i, v = .integer i ∧ v.hasText = false := by
  unfold Coercion.toText at hcause
  split at hcause
  next => cases hcause
  next =>
    split at hcause <;> cases hcause
    exact .inl rfl
  next i =>
    split_ifs at hcause with hnumbers htext <;> cases hcause
    · exact .inl rfl
    · exact .inr ⟨rfl, i, rfl, by rwa [Value.hasText_scalar, ← Bool.not_eq_true]⟩
  next =>
    split_ifs at hcause
    cases hcause
    exact .inl rfl
  next =>
    cases hcause
    exact .inl rfl

theorem refusesPlainly_flagOfInteger (i : Int) : RefusesPlainly (Coercion.flagOfInteger i) := by
  unfold Coercion.flagOfInteger
  split_ifs
  · exact refusesPlainly_ok _
  · exact refusesPlainly_ok _
  · exact refusesPlainly_error rfl
  · exact refusesPlainly_error rfl

theorem refusesPlainly_flagOfText (s : String) : RefusesPlainly (Coercion.flagOfText s) := by
  unfold Coercion.flagOfText
  split
  · exact refusesPlainly_ok _
  · exact refusesPlainly_error rfl

theorem refusesPlainly_toFlag (v : Value) : RefusesPlainly (Coercion.toFlag v) := by
  unfold Coercion.toFlag
  split
  · exact refusesPlainly_ok _
  · exact refusesPlainly_flagOfInteger _
  · split
    · split_ifs
      · exact refusesPlainly_flagOfInteger _
      · exact refusesPlainly_error rfl
    · exact refusesPlainly_error rfl
  · exact refusesPlainly_flagOfText _
  · exact refusesPlainly_flagOfText _
  · exact refusesPlainly_error rfl

theorem refusesPlainly_integerOfText (s : String) : RefusesPlainly (Coercion.integerOfText s) := by
  unfold Coercion.integerOfText
  dsimp only
  split
  · exact refusesPlainly_error rfl
  · split_ifs
    · exact refusesPlainly_error rfl
    · exact refusesPlainly_ok _

theorem refusesPlainly_toInteger (v : Value) : RefusesPlainly (Coercion.toInteger v) := by
  unfold Coercion.toInteger
  split
  · exact refusesPlainly_ok _
  · exact refusesPlainly_ok _
  · split_ifs
    · exact refusesPlainly_error rfl
    · split
      · exact refusesPlainly_error rfl
      · split_ifs
        · exact refusesPlainly_ok _
        · exact refusesPlainly_error rfl
  · exact (refusesPlainly_integerOfText _).map _
  · split
    · exact (refusesPlainly_integerOfText _).map _
    · exact refusesPlainly_error rfl
  · exact refusesPlainly_error rfl

theorem refusesPlainly_toIntegerFrom
    (least : Option Int) (v : Value) :
    RefusesPlainly (Coercion.toIntegerFrom least v) := by
  have hinteger := refusesPlainly_toInteger v
  unfold Coercion.toIntegerFrom
  cases hread : Coercion.toInteger v with
  | error cause => exact refusesPlainly_error (hinteger cause hread)
  | ok i =>
      cases least with
      | none => exact refusesPlainly_ok _
      | some n =>
          change RefusesPlainly (if i.value < n then .error (.below n) else .ok i)
          split_ifs
          · exact refusesPlainly_error rfl
          · exact refusesPlainly_ok _

theorem refusesPlainly_numberOfText (s : String) : RefusesPlainly (Coercion.numberOfText s) := by
  unfold Coercion.numberOfText
  split
  · exact refusesPlainly_ok _
  · exact refusesPlainly_error rfl

theorem refusesPlainly_toNumber (v : Value) : RefusesPlainly (Coercion.toNumber v) := by
  unfold Coercion.toNumber
  split
  · exact refusesPlainly_ok _
  · dsimp only
    split_ifs
    · exact refusesPlainly_ok _
    · exact refusesPlainly_error rfl
  · exact refusesPlainly_ok _
  · exact (refusesPlainly_numberOfText _).map _
  · split
    · exact (refusesPlainly_numberOfText _).map _
    · exact refusesPlainly_error rfl
  · exact refusesPlainly_error rfl

theorem refusesPlainly_toWord
    (choices : List String) (v : Value) :
    RefusesPlainly (Coercion.toWord choices v) := by
  unfold Coercion.toWord
  split
  · split_ifs
    · exact refusesPlainly_ok _
    · exact refusesPlainly_error rfl
  · exact refusesPlainly_error rfl

theorem refusesPlainly_toListed
    (choices : List Int) (v : Value) :
    RefusesPlainly (Coercion.toListed choices v) := by
  have hchosen (i : Int) : RefusesPlainly
      (if !Coercion.isSmall i then .error .oversizedInteger
        else if choices.contains i then .ok i
        else .error (.notChoice (choices.map toString))) := by
    split_ifs
    · exact refusesPlainly_error rfl
    · exact refusesPlainly_ok _
    · exact refusesPlainly_error rfl
  unfold Coercion.toListed
  dsimp only
  split
  · exact hchosen _
  · exact hchosen _
  · split
    · split_ifs
      · exact refusesPlainly_ok _
      · exact refusesPlainly_error rfl
    · exact refusesPlainly_error rfl
  · exact refusesPlainly_error rfl

end Coercions

/-! ## Properties that locations do not matter for -/

/-- The property holds of faults put together and located, and of those of a value that is
missing or refused without an end to all reading. -/
structure IsStable (Q : List Fault → Prop) : Prop where
  add : IsAdditive Q
  under : ∀ step faults, Q faults → Q (Fault.under step faults)
  plain : ∀ cause, cause.isPlain = true → Q (Fault.here cause)
  missing : ∀ name, Q (Fault.under (.name name) (Fault.here .missing))

/-- The alternatives that the parts of a value may be read as belong to the same kinds. -/
structure IsClosed (K : Kind → Prop) : Prop where
  listOf : ∀ k, K (.listOf k) → K k
  tableOf : ∀ k, K (.tableOf k) → K k
  row : K .row → K .anything
  optionList : K .optionList → K (.record .option)
  commaList : K .commaList → K .text
  attributes : ∀ t, K (.record t) → ∀ a ∈ t.attributes, ∀ k ∈ a.shape.kinds, K k
  action : K .action → ∀ t, K (.record (.action t))
  field : K .field → ∀ t, K (.record (.field t))

section Closed

variable (Q : List Fault → Prop) (K : Kind → Prop)

/-- Whatever alternatives of these kinds there are to read a part as, a failure has the
property. -/
def OfferFails (o : Offer) : Prop :=
  ∀ shape : Shape, shape.kinds ≠ [] → (∀ k ∈ shape.kinds, K k) → Fails Q (o.read shape)

/-- A value that cannot be written fails with the property where it should become text. -/
def TextFails (v : Value) : Prop :=
  v.hasText = false → Q (Fault.here (.notWritten .longInteger))

/-- The parts of a mapping fail with the property, and so do its keys as text. -/
def EntriesFail (offers : List (Key × Offer)) : Prop :=
  ∀ e ∈ offers, TextFails Q (Value.ofKey e.1) ∧ OfferFails Q K e.2

/-- The parts of a value fail with the property. -/
def PartsFail : Parts → Prop
  | .none => True
  | .items _ offers => ∀ o ∈ offers, OfferFails Q K o
  | .entries offers => EntriesFail Q K offers

variable {Q K} (hstable : IsStable Q) (hclosed : IsClosed K)

theorem TextFails.part
    {v x : Value} (htext : TextFails Q v) (hpart : v.hasText = true → x.hasText = true) :
    TextFails Q x := by
  intro hlong
  apply htext
  rw [← Bool.not_eq_true] at hlong ⊢
  exact fun hwhole => hlong (hpart hwhole)

theorem OfferFails.one
    {o : Offer} (ho : OfferFails Q K o) {k : Kind} (hk : K k) :
    Fails Q (o.read (.one k)) :=
  ho _ (List.cons_ne_nil _ _) (by simpa [Shape.one] using hk)

theorem offerFails_ofText (s : String) : OfferFails Q K (Offer.ofText s) :=
  fun _ _ _ => fails_ok _

theorem offerFails_of_find?
    {offers : List (Key × Offer)} (hoffers : EntriesFail Q K offers) {name : String} {o : Offer}
    (hfind : Offer.find? name offers = some o) :
    OfferFails Q K o := by
  obtain ⟨e, he, rfl⟩ := Option.map_eq_some_iff.mp hfind
  exact (hoffers e (List.mem_of_find?_eq_some he)).2

/-- What shorthands fill in is written elsewhere, or it is an empty text. -/
theorem offerFails_of_written?
    {offers : List (Key × Offer)} (hoffers : EntriesFail Q K offers) {t : RecordType}
    {a : Attribute} {spelling : String} {o : Offer}
    (hwritten : written? a (expand t offers) = some (spelling, o)) :
    OfferFails Q K o := by
  rcases find?_expand_eq_some (written?_eq_some hwritten).2 with ⟨n, hn⟩ | ⟨-, -, rfl⟩
  · exact offerFails_of_find? hoffers hn
  · exact offerFails_ofText ""

include hstable

theorem IsStable.mono_under
    {α : Type} {outcome : Except (List Fault) α} (hfails : Fails Q outcome) (step : Step) :
    Fails (fun faults => Q (Fault.under step faults)) outcome :=
  hfails.mono fun faults => hstable.under step faults

theorem IsStable.toText
    {v : Value} (htext : TextFails Q v) {cause : Cause}
    (hcause : Coercion.toText true v = .error cause) :
    Q (Fault.here cause) := by
  rcases cause_of_toText hcause with hplain | ⟨rfl, -, -, hlong⟩
  · exact hstable.plain cause hplain
  · exact htext hlong

theorem fails_readTable_of_closed
    {offers : List (Key × Offer)} (hoffers : EntriesFail Q K offers) {k : Kind} (hk : K k) :
    Fails Q (readTable k offers) := by
  apply fails_readTable hstable.add
  intro o ho
  apply fails_readEntry hstable.add
  · intro cause hcause
    exact hstable.under _ _ (hstable.under _ _ (hstable.toText (hoffers o ho).1 hcause))
  · exact hstable.mono_under ((hoffers o ho).2.one hk) _

theorem fails_readItems_of_closed
    {offers : List Offer} (hoffers : ∀ o ∈ offers, OfferFails Q K o) {k : Kind} (hk : K k) :
    Fails Q (ofItems (readItems (fun o => o.read (.one k)) offers)) := by
  apply fails_readItems hstable.add
  intro i o ho
  exact hstable.mono_under ((hoffers o (List.mem_of_getElem? ho)).one hk) _

include hclosed

theorem fails_readRecord_of_closed
    {offers : List (Key × Offer)} (hoffers : EntriesFail Q K offers) {t : RecordType}
    (ht : K (.record t)) :
    Fails Q (readRecord t offers) := by
  apply fails_readRecord hstable.add
  · intro a ha
    apply fails_readAttribute
    · intro spelling o hwritten
      apply hstable.mono_under
      exact offerFails_of_written? hoffers hwritten _ (RecordType.kinds_ne_nil ha)
        (hclosed.attributes t ht a ha)
    · exact fun _ _ => hstable.missing a.name
  · exact fun _ key => hstable.under _ _ (hstable.plain _ rfl)

theorem fails_readOption_of_closed
    {o : Offer} (ho : OfferFails Q K o) (hoption : K (.record .option)) :
    Fails Q (readOption o) := by
  unfold readOption
  split_ifs
  · exact ho.one hoption
  · apply fails_readRecord_of_closed hstable hclosed _ hoption
    intro e he
    rcases List.mem_cons.mp he with rfl | he
    · exact ⟨nofun, ho⟩
    · cases List.mem_singleton.mp he
      exact ⟨nofun, offerFails_ofText _⟩

variable (htags : K .action → ∀ cause, cause.isTag = true → Q (Fault.here cause))

include htags

theorem fails_readAction_of_closed
    {parts : Parts} (hparts : PartsFail Q K parts) (hk : K .action) :
    Fails Q (readAction parts) := by
  cases parts with
  | entries offers =>
      unfold readAction
      dsimp only
      split
      · exact fails_refuse (htags hk _ rfl)
      · split
        · refine Fails.under (hstable.mono_under ?_ _)
          exact fails_readRecord_of_closed hstable hclosed hparts (hclosed.action hk _)
        · exact fails_refuse (htags hk _ rfl)
  | _ => exact fails_refuse (htags hk _ rfl)

theorem fails_readKind_of_closed
    {v : Value} (htext : TextFails Q v) {parts : Parts} (hparts : PartsFail Q K parts)
    {k : Kind} (hk : K k) :
    Fails Q (readKind v parts k) := by
  have hcoerced {α : Type} (f : α → Element) {coerced : Except Cause (Coerced α)}
      (hplain : RefusesPlainly coerced) : Fails Q (ofCoerced f coerced) :=
    fails_ofCoerced f fun cause hcause => hstable.plain _ (hplain cause hcause)
  have hrefuse (cause : Cause) (hplain : cause.isPlain = true) :
      Fails Q (refuse cause : Outcome) :=
    fails_refuse (hstable.plain _ hplain)
  cases k with
  | anything => exact fails_ok _
  | text => exact fails_ofCoerced _ fun cause => hstable.toText htext
  | flag => exact hcoerced _ (refusesPlainly_toFlag v)
  | integer least => exact hcoerced _ (refusesPlainly_toIntegerFrom least v)
  | number => exact hcoerced (fun d => .value (.real d)) (refusesPlainly_toNumber v)
  | word choices => exact hcoerced _ ((refusesPlainly_toWord choices v).map _)
  | oneOf choices => exact hcoerced _ ((refusesPlainly_toListed choices v).map _)
  | listOf k =>
      cases parts with
      | items inOrder offers =>
          exact fails_readItems_of_closed hstable hparts (hclosed.listOf k hk)
      | _ => exact hrefuse _ rfl
  | tableOf k =>
      cases parts with
      | entries offers =>
          exact fails_readTable_of_closed hstable hparts (hclosed.tableOf k hk)
      | _ => exact hrefuse _ rfl
  | row =>
      cases parts with
      | entries offers => exact fails_readTable_of_closed hstable hparts (hclosed.row hk)
      | _ => exact hrefuse _ rfl
  | optionList =>
      have hoption := hclosed.optionList hk
      cases parts with
      | items inOrder offers =>
          cases inOrder with
          | true =>
              apply fails_readItems hstable.add
              intro i o ho
              have ho := hparts o (List.mem_of_getElem? ho)
              exact hstable.mono_under (fails_readOption_of_closed hstable hclosed ho hoption) _
          | false => exact fails_readItems_of_closed hstable hparts hoption
      | _ => exact hrefuse _ rfl
  | commaList =>
      simp only [readKind]
      split
      · exact fails_ok _
      · exact fails_readItems_of_closed hstable hparts (hclosed.commaList hk)
      · exact hrefuse _ rfl
  | record type =>
      cases parts with
      | entries offers => exact fails_readRecord_of_closed hstable hclosed hparts hk
      | _ => exact hrefuse _ rfl
  | action => exact fails_readAction_of_closed hstable hclosed htags hparts hk
  | field =>
      cases parts with
      | entries offers =>
          refine Fails.under (hstable.mono_under ?_ _)
          exact fails_readRecord_of_closed hstable hclosed hparts (hclosed.field hk _)
      | _ => exact Fails.under (hstable.mono_under (hrefuse _ rfl) _)

theorem offerFails_of_partsFail
    {v : Value} (htext : TextFails Q v) (hparts : PartsFail Q K (partsOf v)) :
    OfferFails Q K (Offer.of v) := by
  intro shape hne hkinds
  rw [read_of, ofValue_eq]
  unfold readShape
  split_ifs
  · exact fails_ok _
  · exact fails_refuse (hstable.plain _ rfl)
  · split
    next k heq =>
      apply fails_readKind_of_closed hstable hclosed htags htext hparts
      exact hkinds k (by simp [heq])
    next =>
      apply fails_choose hstable.add
      · simpa using hne
      · intro o ho
        obtain ⟨k, hk, rfl⟩ := List.mem_map.mp ho
        apply hstable.mono_under
        exact fails_readKind_of_closed hstable hclosed htags htext hparts (hkinds k hk)

theorem offerFails_ofKey
    {k : Key} (htext : TextFails Q (Value.ofKey k)) :
    OfferFails Q K (Offer.of (Value.ofKey k)) := by
  -- Keys are as values made of scalars and tuples.
  suffices hall : ∀ v : Value, TextFails Q v → ∀ k, v = Value.ofKey k → OfferFails Q K (Offer.of v)
    from hall _ htext k rfl
  intro v
  induction v using Value.inductionOn with
  | scalar s => exact fun htext _ _ => offerFails_of_partsFail hstable hclosed htags htext trivial
  | tuple items ih =>
      intro htext k hk
      cases k with
      | scalar s => cases hk
      | tuple ks =>
          have hitems : items = ks.map Value.ofKey := by
            rw [← Value.ofKeys_eq_map]
            exact Value.tuple.inj hk
          apply offerFails_of_partsFail hstable hclosed htags htext
          intro o ho
          obtain ⟨x, hx, rfl⟩ := List.mem_map.mp ho
          obtain ⟨l, -, hl⟩ := List.mem_map.mp (hitems ▸ hx)
          have hpart := htext.part fun hwhole => (Value.hasText_tuple items).mp hwhole x hx
          exact ih x hx hpart l hl.symm
  | list items => exact fun _ k hk => by cases k <;> cases hk
  | set keys => exact fun _ k hk => by cases k <;> cases hk
  | map entries => exact fun _ k hk => by cases k <;> cases hk
  | back levels => exact fun _ k hk => by cases k <;> cases hk

/-- Whatever a value is read as, a failure has a property that locations do not matter for. -/
theorem offerFails_of {v : Value} (htext : TextFails Q v) : OfferFails Q K (Offer.of v) := by
  induction v using Value.inductionOn with
  | scalar s => exact offerFails_of_partsFail hstable hclosed htags htext trivial
  | list items ih =>
      apply offerFails_of_partsFail hstable hclosed htags htext
      intro o ho
      obtain ⟨x, hx, rfl⟩ := List.mem_map.mp ho
      exact ih x hx (htext.part fun hwhole => (Value.hasText_list items).mp hwhole x hx)
  | tuple items ih =>
      apply offerFails_of_partsFail hstable hclosed htags htext
      intro o ho
      obtain ⟨x, hx, rfl⟩ := List.mem_map.mp ho
      exact ih x hx (htext.part fun hwhole => (Value.hasText_tuple items).mp hwhole x hx)
  | set keys =>
      apply offerFails_of_partsFail hstable hclosed htags htext
      intro o ho
      obtain ⟨k, hk, rfl⟩ := List.mem_map.mp ho
      apply offerFails_ofKey hstable hclosed htags
      exact htext.part fun hwhole =>
        (Value.hasText_ofKey k).trans ((Value.hasText_set keys).mp hwhole k hk)
  | map entries ih =>
      apply offerFails_of_partsFail hstable hclosed htags htext
      intro o ho
      obtain ⟨e, he, rfl⟩ := List.mem_map.mp ho
      have hentry := fun hwhole => (Value.hasText_map entries).mp hwhole e he
      refine ⟨htext.part fun hwhole => (Value.hasText_ofKey e.1).trans (hentry hwhole).1, ?_⟩
      exact ih e he (htext.part fun hwhole => (hentry hwhole).2)
  | back levels => exact offerFails_of_partsFail hstable hclosed htags htext trivial

end Closed

/-! ## Failures without an abrupt fault -/

/-- None of the faults ends all reading. -/
def Calm (faults : List Fault) : Prop := ∀ f ∈ faults, f.cause.abrupt? = none

theorem calm_here
    {cause : Cause} (hcause : cause.abrupt? = none) :
    Calm (Fault.here cause) := by
  intro f hf
  rwa [List.mem_singleton.mp hf]

theorem calm_of_isPlain
    {cause : Cause} (hplain : cause.isPlain = true) :
    Calm (Fault.here cause) :=
  calm_here (by cases cause <;> first | rfl | cases hplain)

theorem calm_of_isTag
    {cause : Cause} (htag : cause.isTag = true) :
    Calm (Fault.here cause) :=
  calm_here (by cases cause <;> first | rfl | cases htag)

theorem isStable_calm : IsStable Calm where
  add := isAdditive_forall _
  under step faults hfaults f hf := by
    obtain ⟨g, hg, rfl⟩ := List.mem_map.mp hf
    exact hfaults g hg
  plain _ := calm_of_isPlain
  missing name f hf := by
    rw [List.mem_singleton.mp hf]
    rfl

/-! ## Failures have faults -/

/-- If the outcome is a failure, it has faults. -/
def TellsFaults {α : Type} (outcome : Except (List Fault) α) : Prop :=
  ∀ faults, outcome = .error faults → faults ≠ []

/-- Whatever alternatives there are to read a part as, a failure has faults. -/
def OfferTells (o : Offer) : Prop :=
  ∀ shape : Shape, shape.kinds ≠ [] → TellsFaults (o.read shape)

theorem OfferTells.one {o : Offer} (ho : OfferTells o) (k : Kind) : TellsFaults (o.read (.one k)) :=
  ho _ (List.cons_ne_nil _ _)

theorem isStable_ne_nil : IsStable (· ≠ []) where
  add _ _ hfs _ := List.append_ne_nil_of_left_ne_nil hfs _
  under _ _ hfaults := by simpa [Fault.under] using hfaults
  plain _ _ := List.cons_ne_nil _ _
  missing _ := List.cons_ne_nil _ _

/-- All kinds belong to the same kinds. -/
theorem isClosed_true : IsClosed fun _ => True where
  listOf _ _ := trivial
  tableOf _ _ := trivial
  row _ := trivial
  optionList _ := trivial
  commaList _ := trivial
  attributes _ _ _ _ _ _ := trivial
  action _ _ := trivial
  field _ _ := trivial

/-- Whatever a value is read as, a failure has faults. -/
theorem offerTells_of (v : Value) : OfferTells (Offer.of v) := by
  intro shape hne
  exact offerFails_of isStable_ne_nil isClosed_true (fun _ _ _ => List.cons_ne_nil _ _)
    (fun _ => List.cons_ne_nil _ _) shape hne fun _ _ => trivial

/-- Reading a value that can be written does not end abruptly. -/
theorem calm_of_hasText
    {v : Value} (htext : v.hasText = true) {s : Shape} (hne : s.kinds ≠ []) :
    Fails Calm (ofValue v s) := by
  have htextFails : TextFails Calm v := fun hlong => by cases htext.symm.trans hlong
  exact offerFails_of isStable_calm isClosed_true (fun _ _ => calm_of_isTag) htextFails s hne
    fun _ _ => trivial

end Reading

end Wireframe
