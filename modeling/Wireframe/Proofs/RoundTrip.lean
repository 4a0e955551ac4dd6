import Mathlib.Data.List.Forall2
import Mathlib.Tactic
import Wireframe.Proofs.Documents

/-!
# Round trips of documents

A document that was made from a raw tree without findings is made again from its own plain
tree, and nothing is renamed on the way.  The plain tree of a screen has one content only,
of which the canonical form takes everything over but nulls.
-/

namespace Wireframe

namespace Element

open Reading

theorem reads_of_toValue
    {t : RecordType} {a : Attribute} (ha : a ∈ t.attributes) (hsingle : a.spellings = [a.name])
    {nulls : Bool} {e : Element} (hfits : Fits a.shape e) (hclear : IsClear nulls e)
    {entries : Entries}
    (hget : Entries.get? a.name entries =
      if (e.toValue nulls).isPresent then some (e.toValue nulls) else none) :
    a.Reads entries (e.kept nulls) := by
  rw [reads_iff_of_single hsingle, hget]
  split_ifs with hpresent
  · exact ⟨true, ofValue_toValue hfits (RecordType.shape_isSeparated ha)
      (fun k hk => RecordType.hasSmallChoices_of_mem ha hk) hclear⟩
  · have hnull : e = .null := eq_null_of_toValue nulls (by simpa using hpresent)
    subst hnull
    rw [RecordType.default_of_admitsNull ha (admitsNull_of_fits hfits)]
    rfl

end Element

namespace Canonical

open Element Reading

section Screen

variable {settings : Settings} {nulls : Bool} {s : Element} {raw : Entries}

theorem ofValue_of_reads
    {t : RecordType} (ht : ∀ f, t ≠ .field f) (hfits : Fits (.one (.record t)) s)
    {entries : Entries}
    (hreads : ∀ a ∈ t.attributes, ∀ e, s.attribute? a.name = some e →
      a.Reads entries (e.kept nulls)) :
    ofValue (.map entries) (.one (.record t)) = .ok ⟨s.kept nulls, true⟩ := by
  obtain ⟨attributes, extras, rfl, hrecord⟩ := hfits.admits_one
  have hnone := hrecord.extras_eq_nil (ht _)
  subst hnone
  rw [kept_record]
  refine (ofValue_record_eq_ok_iff ht).mpr ⟨_, ?_, rfl⟩
  rw [List.forall₂_map_right_iff]
  refine List.forall₂_iff_zip.mpr ⟨hrecord.forall₂_names.length_eq, fun {a x} hmem => ?_⟩
  have hname : x.1 = a.name := hrecord.name_of_mem_zip hmem
  exact ⟨hname, hreads a (List.of_mem_zip hmem).1 x.2 (hrecord.attribute?_of_mem hmem)⟩

theorem isWalkable_dump (hdump : IsDump nulls .screen s raw) : IsWalkable raw where
  sections := mayHave_of_dump hdump (a := .may "sections" (.listOf (.record .formSection)))
    (by decide) rfl fun _ _ x _ hx => by
      obtain ⟨entries, hsection⟩ := exists_isDump hx nulls
      exact ⟨entries, hsection.toValue, mayHave_of_dump hsection
        (a := .may "input_fields" (.listOf .field)) (by decide) rfl fun _ _ _ _ _ => trivial⟩
  fields := mayHave_of_dump hdump (a := .may "fields" (.listOf .field)) (by decide) rfl
    fun _ _ _ _ _ => trivial

theorem readsAs_pick
    (hfits : Fits (.one (.record .formSection)) s) (hdump : IsDump nulls .formSection s raw)
    (hclear : IsClear nulls s) :
    ReadsAs (.record .formSection) (object (pick sectionNames raw)) (s.kept nulls) := by
  refine ⟨true, ofValue_of_reads (by simp) hfits fun a ha e he => ?_⟩
  have hnames : ∀ a ∈ RecordType.formSection.attributes,
      a.spellings = [a.name] ∧ a.name ∈ sectionNames := by decide
  refine reads_of_toValue ha (hnames a ha).1 (hdump.fits ha he) (hclear.attribute he) ?_
  rw [get?_pick, hdump.getD ha he]
  simp [(hnames a ha).2]

theorem ownFields_dump
    (hdump : IsDump nulls .formSection s raw) :
    ownFields raw = (s.itemsOf "input_fields").map (toValue nulls) := by
  rcases exists_items_of_dump hdump (a := .may "input_fields" (.listOf .field)) (by decide) rfl
    with ⟨-, hattribute, hget⟩ | ⟨items, hattribute, hget, -⟩
  · have hattribute : s.attribute? "input_fields" = some .null := hattribute
    have hget : raw.getD "input_fields" = .null := hget
    simp [ownFields, hget, itemsOf, hattribute, Value.items?, Element.items]
  · have hattribute : s.attribute? "input_fields" = some (.list items) := hattribute
    have hget : raw.getD "input_fields" = .list (items.map (toValue nulls)) := hget
    simp [ownFields, hget, itemsOf, hattribute, Value.items?, Element.items]

theorem exists_dumps
    {t : RecordType} {items : List Element} (hitems : ∀ x ∈ items, Fits (.one (.record t)) x) :
    ∃ raws : List Entries, items.map (toValue nulls) = raws.map Value.map ∧
      List.Forall₂ (fun raw x => IsDump nulls t x raw ∧ Fits (.one (.record t)) x) raws items := by
  induction items with
  | nil => exact ⟨[], rfl, .nil⟩
  | cons x xs ih =>
      have hx := hitems x List.mem_cons_self
      obtain ⟨raw, hraw⟩ := exists_isDump hx nulls
      obtain ⟨raws, hmap, hall⟩ := ih fun y hy => hitems y (List.mem_cons_of_mem _ hy)
      exact ⟨raw :: raws, by simp [hraw.toValue, hmap], .cons ⟨hraw, hx⟩ hall⟩

theorem isDump_of_map_eq
    {t : RecordType} {items : List Element} (hitems : ∀ x ∈ items, Fits (.one (.record t)) x)
    {raws : List Entries} (hmap : items.map (toValue nulls) = raws.map Value.map) :
    List.Forall₂ (fun raw x => IsDump nulls t x raw ∧ Fits (.one (.record t)) x) raws items := by
  obtain ⟨others, hothers, hall⟩ := exists_dumps hitems
  have hsame : raws = others :=
    List.map_injective_iff.mpr (fun _ _ h => Value.map.inj h) (hmap.symm.trans hothers)
  exact hsame ▸ hall

theorem flatMap_ownFields_dump
    {raws : List Entries} {items : List Element}
    (hdumps : List.Forall₂ (fun raw x => IsDump nulls .formSection x raw ∧
      Fits (.one (.record .formSection)) x) raws items) :
    raws.flatMap ownFields = (items.flatMap (itemsOf "input_fields")).map (toValue nulls) := by
  induction hdumps with
  | nil => rfl
  | cons hhead htail ih => simp [ownFields_dump hhead.1, ih]

theorem items?_eq_none_of_absent
    (hdump : IsDump nulls .screen s raw) {name : String} (hname : name ∉ RecordType.screen.names) :
    (raw.getD name).items? = none := by
  rw [hdump.absent (by simp) name hname]
  rfl

theorem not_lacksSections
    (hdump : IsDump nulls .screen s raw) (hflat : s.HasFlatSections) {items : List Element}
    (hitems : s.attribute? "sections" = some (.list items)) :
    ¬ LacksSections raw := by
  intro hlacks
  have hget : raw.getD "sections" = (Element.list items).toValue nulls :=
    hdump.getD (a := .may "sections" (.listOf (.record .formSection))) (by decide) hitems
  cases items with
  | nil => exact (hflat [] hitems).1 rfl
  | cons x xs =>
      refine hlacks (x.toValue nulls) (xs.map (toValue nulls)) ?_
      rw [hget, toValue_list]
      rfl

theorem attribute?_sections_of_lacks
    (hdump : IsDump nulls .screen s raw) (hflat : s.HasFlatSections) (hlacks : LacksSections raw) :
    s.attribute? "sections" = some .null := by
  have hsections := exists_items_of_dump hdump
    (a := .may "sections" (.listOf (.record .formSection))) (by decide) rfl
  simp only [Attribute.may, Attribute.of] at hsections
  rcases hsections with ⟨-, hattribute, -⟩ | ⟨items, hattribute, -⟩
  · exact hattribute
  · exact absurd hlacks (not_lacksSections hdump hflat hattribute)

theorem reads_sections_of_lacks
    (hdump : IsDump nulls .screen s raw) (hflat : s.HasFlatSections) (hlacks : LacksSections raw)
    {parts : List (String × Value)}
    (hget : Entries.get? "sections" (Entries.named parts) = none) {e : Element}
    (he : s.attribute? "sections" = some e) :
    (Attribute.may "sections" (.listOf (.record .formSection))).Reads (Entries.named parts)
      (e.kept nulls) := by
  have hnull := attribute?_sections_of_lacks hdump hflat hlacks
  rw [he, Option.some.injEq] at hnull
  subst hnull
  rw [reads_iff_of_single rfl]
  simp only [Attribute.may, Attribute.of, hget]
  rfl

/-- The sections that are kept of plain trees are read as the sections again. -/
theorem reads_sections_of_dumps
    {raws : List Entries} {items : List Element}
    (hdumps : List.Forall₂ (fun raw x => IsDump nulls .formSection x raw ∧
      Fits (.one (.record .formSection)) x) raws items)
    (hclear : IsClear nulls (.list items)) (more : List (String × Value)) :
    (Attribute.may "sections" (.listOf (.record .formSection))).Reads
      (Entries.named
        (("sections", .list (raws.map fun s => object (pick sectionNames s))) :: more))
      ((Element.list items).kept nulls) := by
  rw [kept_list]
  refine (reads_iff_of_single rfl).mpr ⟨true, (ofValue_list_eq_ok_iff rfl).mpr ⟨rfl, _, rfl, ?_⟩⟩
  rw [List.forall₂_map_left_iff, List.forall₂_map_right_iff]
  refine List.forall₂_iff_zip.mpr ⟨hdumps.length_eq, fun {raw x} hmem => ?_⟩
  have hx := List.forall₂_zip hdumps hmem
  exact readsAs_pick hx.2 hx.1 (hclear.item (List.of_mem_zip hmem).2)

/-- The fields and the sections of the plain tree of a screen are the content that is made
of it again. -/
theorem reads_content
    (hdump : IsDump nulls .screen s raw) (hflat : s.HasFlatSections) (hclear : IsClear nulls s)
    {parts : List (String × Value)} (hparts : HasContent settings raw parts) :
    (∀ e, s.attribute? "sections" = some e →
      (Attribute.may "sections" (.listOf (.record .formSection))).Reads (Entries.named parts)
        (e.kept nulls)) ∧
    (∀ e, s.attribute? "fields" = some e →
      Entries.get? "fields" (Entries.named parts) =
        if (e.toValue nulls).isPresent then some (e.toValue nulls) else none) := by
  have hsections := exists_items_of_dump hdump
    (a := .may "sections" (.listOf (.record .formSection))) (by decide) rfl
  have hfields := exists_items_of_dump hdump (a := .may "fields" (.listOf .field)) (by decide) rfl
  simp only [Attribute.may, Attribute.of] at hsections hfields
  cases hparts with
  | @sections first rest hwritten =>
      rcases hsections with ⟨-, -, hget⟩ | ⟨items, hattribute, hget, hfits⟩
      · rw [hget] at hwritten
        cases hwritten
      · rw [hget] at hwritten
        have hdumps := isDump_of_map_eq hfits (Option.some.inj hwritten)
        refine ⟨fun e he => ?_, fun e he => ?_⟩
        · rw [he, Option.some.injEq] at hattribute
          subst hattribute
          exact reads_sections_of_dumps hdumps (hclear.attribute he) _
        · have hflatten := (hflat items hattribute).2
          rw [he, Option.some.injEq] at hflatten
          subst hflatten
          rw [toValue_list, ← flatMap_ownFields_dump hdumps]
          rfl
  | @fields items hlacks hitems =>
      refine ⟨fun e => reads_sections_of_lacks hdump hflat hlacks rfl, fun e he => ?_⟩
      rcases hfields with ⟨-, -, hget⟩ | ⟨fs, hattribute, hget, -⟩
      · rw [hget] at hitems
        cases hitems
      · rw [he, Option.some.injEq] at hattribute
        subst hattribute
        rw [hget] at hitems
        cases hitems
        rw [toValue_list]
        rfl
  -- The shorthands of fields are no attributes of screens, so no plain tree has them.
  | columns hlacks habsent hcolumns htable =>
      rw [items?_eq_none_of_absent hdump (by decide)] at hcolumns
      cases hcolumns
  | inputFields hlacks habsent hinput =>
      rw [items?_eq_none_of_absent hdump (by decide)] at hinput
      cases hinput
  | nothing hlacks habsent =>
      refine ⟨fun e => reads_sections_of_lacks hdump hflat hlacks rfl, fun e he => ?_⟩
      have hget : raw.getD "fields" = e.toValue nulls :=
        hdump.getD (a := .may "fields" (.listOf .field)) (by decide) he
      rw [hget] at habsent
      rw [habsent]
      rfl

theorem expandAction_of_isMap
    {v : Value} (hmap : v.isMap = true) (place : Nat) :
    expandAction v place = v := by
  cases v with
  | map entries => rfl
  | _ => cases hmap

theorem isMap_toValue_of_action
    {e : Element} (hfits : Fits (.one .action) e) :
    (e.toValue nulls).isMap = true := by
  obtain ⟨f, attributes, extras, rfl, -⟩ := hfits.admits_one
  rw [toValue_record]
  rfl

theorem get?_actions_dump
    (hdump : IsDump nulls .screen s raw) {e : Element} (he : s.attribute? "actions" = some e) :
    Entries.get? "actions" (Entries.named (actions raw)) =
      if (e.toValue nulls).isPresent then some (e.toValue nulls) else none := by
  have hactions := exists_items_of_dump hdump (a := .may "actions" (.listOf .action))
    (by decide) rfl
  simp only [Attribute.may, Attribute.of, he, Option.some.injEq] at hactions
  rcases hactions with ⟨-, rfl, hget⟩ | ⟨items, rfl, hget, hfits⟩
  · rw [actions, hget]
    rfl
  · have hkept : (items.map (toValue nulls)).zipIdx.map (fun a => expandAction a.1 a.2) =
        items.map (toValue nulls) := by
      refine (List.map_congr_left fun a ha => ?_).trans (List.zipIdx_map_fst 0 _)
      obtain ⟨-, -, hgetElem⟩ := List.mem_zipIdx ha
      have hmem : a.1 ∈ items.map (toValue nulls) := hgetElem ▸ List.getElem_mem _
      obtain ⟨x, hx, heq⟩ := List.mem_map.mp hmem
      exact expandAction_of_isMap (heq ▸ isMap_toValue_of_action (hfits x hx)) _
    rw [actions, hget]
    simp only [Value.items?, hkept, toValue_list]
    rfl

theorem title_dump
    (hdump : IsDump nulls .screen s raw) {e : Element} (he : s.attribute? "title" = some e) :
    title raw = e.toValue nulls ∧ (e.toValue nulls).isPresent = true := by
  have ha : (Attribute.need "title" .text).titled "Screen title"
      "Title shown at the top of the screen." ∈ RecordType.screen.attributes := by decide
  obtain ⟨x, rfl⟩ := (hdump.fits ha he).admits_one
  refine ⟨?_, rfl⟩
  have hget : raw.getD "title" = .text x := hdump.getD ha he
  have hpresent : (Value.text x).isPresent = true := rfl
  simp [title, Value.coalesce, hget, hpresent, toValue]

theorem get?_purpose_dump
    (hdump : IsDump nulls .screen s raw) {e : Element} (he : s.attribute? "description" = some e) :
    Entries.get? "description" (Entries.named (purpose raw)) =
      if (e.toValue nulls).isPresent then some (e.toValue nulls) else none := by
  have hget : raw.getD "description" = e.toValue nulls :=
    hdump.getD (a := description) (by decide) he
  have hpurpose : raw.getD "purpose" = .null := hdump.absent (by simp) _ (by decide)
  have hnull : Value.null.isPresent = false := rfl
  cases hpresent : (e.toValue nulls).isPresent with
  | true => simp [purpose, Value.coalesce, hget, hpresent, Entries.get?_named]
  | false =>
      simp only [purpose, Value.coalesce, hget, hpurpose, hpresent, hnull, List.find?_cons,
        List.find?_nil, Option.getD_none, Bool.false_eq_true, if_false]
      rfl

/-- A screen without fields beside its sections is made again from its plain tree. -/
theorem screen_dump
    (settings : Settings) (hfits : Fits (.one (.record .screen)) s) (hflat : s.HasFlatSections)
    (hclear : IsClear nulls s) :
    ∃ w, screen settings (s.toValue nulls) = .ok w ∧
      ofValue w (.one (.record .screen)) = .ok ⟨s.kept nulls, true⟩ := by
  obtain ⟨raw, hdump⟩ := exists_isDump hfits nulls
  obtain ⟨parts, hparts, hok⟩ : ∃ parts, HasContent settings raw parts ∧
      screen settings (.map raw) = .ok (object (screenAttributes raw parts)) := by
    refine (screen_of_isWalkable settings (isWalkable_dump hdump)).resolve_right ?_
    rintro ⟨cause, -, names, hcolumns, -⟩
    rw [items?_eq_none_of_absent hdump (by decide)] at hcolumns
    cases hcolumns
  have hsingle : ∀ a ∈ RecordType.screen.attributes, a.spellings = [a.name] ∧
      (a.name ∈ screenNames ∨ a.name = "title" ∨ a.name = "description" ∨ a.name = "fields" ∨
        a.name = "actions" ∨ a = .may "sections" (.listOf (.record .formSection))) := by decide
  obtain ⟨hsections, hfields⟩ := reads_content hdump hflat hclear hparts
  refine ⟨object (screenAttributes raw parts), by rw [hdump.toValue, hok],
    ofValue_of_reads (by simp) hfits fun a ha e he => ?_⟩
  have hfit := hdump.fits ha he
  have hclearAttribute := hclear.attribute he
  obtain ⟨hspelling, hcases⟩ := hsingle a ha
  rcases hcases with hkept | hname | hname | hname | hname | rfl
  · refine reads_of_toValue ha hspelling hfit hclearAttribute ?_
    rw [get?_screenAttributes_kept hparts hkept, hdump.getD ha he]
  · refine reads_of_toValue ha hspelling hfit hclearAttribute ?_
    rw [hname] at he ⊢
    obtain ⟨htitle, hpresent⟩ := title_dump hdump he
    rw [get?_screenAttributes_title, htitle, if_pos hpresent]
  · refine reads_of_toValue ha hspelling hfit hclearAttribute ?_
    rw [hname] at he ⊢
    rw [get?_screenAttributes_description hparts, get?_purpose_dump hdump he]
  · refine reads_of_toValue ha hspelling hfit hclearAttribute ?_
    rw [hname] at he ⊢
    rw [get?_screenAttributes_content raw parts (.inr rfl), hfields e he]
  · refine reads_of_toValue ha hspelling hfit hclearAttribute ?_
    rw [hname] at he ⊢
    rw [get?_screenAttributes_actions hparts, get?_actions_dump hdump he]
  · have hreads := hsections e he
    rw [reads_iff_of_single rfl] at hreads ⊢
    have hget := get?_screenAttributes_content raw parts (.inl (Eq.refl "sections"))
    simpa only [Attribute.may, Attribute.of, hget] using hreads

end Screen

/-! ## Documents -/

/-- An entry of a document that is made again when its plain tree is an entry of a keyed
collection. -/
def IsMadeAgain (settings : Settings) (nulls : Bool) (kind : CollectionKind) (e : Element) :
    Prop :=
  ∃ w, keyedEntry settings kind (e.toValue nulls) = .ok w ∧
    ofValue w (.one (.record (entryType kind))) = .ok ⟨e.kept nulls, true⟩

theorem isMadeAgain_of_fits
    (settings : Settings) {nulls : Bool} {kind : CollectionKind} {e : Element}
    (hfits : Fits (.one (.record (entryType kind))) e)
    (hflat : kind = .screens → e.HasFlatSections) (hclear : IsClear nulls e) :
    IsMadeAgain settings nulls kind e := by
  have hself (hkind : kind ≠ .screens) :
      keyedEntry settings kind (e.toValue nulls) = .ok (e.toValue nulls) := by
    obtain ⟨attributes, extras, rfl, -⟩ := hfits.admits_one
    rw [toValue_record]
    cases kind with
    | screens => exact absurd rfl hkind
    | components => rfl
    | rules => rfl
  have hback : ofValue (e.toValue nulls) (.one (.record (entryType kind))) =
      .ok ⟨e.kept nulls, true⟩ :=
    ofValue_toValue hfits rfl (by simp [Shape.one, Kind.hasSmallChoices]) hclear
  cases kind with
  | screens => exact screen_dump settings hfits (hflat rfl) hclear
  | components => exact ⟨_, hself (by decide), hback⟩
  | rules => exact ⟨_, hself (by decide), hback⟩

theorem exists_forall₂
    {α β : Type} {R : α → β → Prop} {as : List α} (hall : ∀ a ∈ as, ∃ b, R a b) :
    ∃ bs, List.Forall₂ R as bs := by
  induction as with
  | nil => exact ⟨[], .nil⟩
  | cons a rest ih =>
      obtain ⟨b, hb⟩ := hall a List.mem_cons_self
      obtain ⟨bs, hbs⟩ := ih fun a ha => hall a (List.mem_cons_of_mem _ ha)
      exact ⟨b :: bs, .cons hb hbs⟩

/-- A collection of a document is made again from its plain tree. -/
theorem collection_dump
    {settings : Settings} {nulls : Bool} {kind : CollectionKind}
    {entries : List (String × Element)} (hnames : (entries.map Prod.fst).Nodup)
    (hagain : ∀ e ∈ entries, IsMadeAgain settings nulls kind e.2) :
    ∃ es, collection settings kind
        (.keyed (Entries.named (entries.map fun e => (e.1, e.2.toValue nulls)))) =
          .ok (object es, []) ∧
      readTable (.record (entryType kind)) (Entries.offers (Entries.named es)) =
        .ok ⟨(Element.table entries).kept nulls, true⟩ := by
  have hstep : ∀ e ∈ entries, ∃ x : String × Value, x.1 = e.1 ∧
      keyedEntry settings kind (e.2.toValue nulls) = .ok x.2 ∧
        ofValue x.2 (.one (.record (entryType kind))) = .ok ⟨e.2.kept nulls, true⟩ := fun e he => by
    obtain ⟨w, hw, hread⟩ := hagain e he
    exact ⟨(e.1, w), rfl, hw, hread⟩
  obtain ⟨done, hdone⟩ := exists_forall₂ hstep
  have hsame : done.map Prod.fst = entries.map Prod.fst :=
    map_eq_map_of_forall₂ hdone fun _ _ h => h.1
  have hdistinct : Entries.distinct done = done := Entries.distinct_of_nodup (hsame ▸ hnames)
  refine ⟨done, ?_, ?_⟩
  · have hkeyed : keyed settings kind
        (Entries.named (entries.map fun e => (e.1, e.2.toValue nulls))) = .ok done := by
      refine keyed_eq_ok_iff.mpr ⟨done, ?_, hdistinct.symm⟩
      rw [Entries.named, List.map_map, List.forall₂_map_left_iff]
      exact hdone.imp fun _ _ h => ⟨⟨rfl, h.1⟩, h.2.1⟩
    exact collection_keyed_eq_ok_iff.mpr ⟨done, hkeyed, rfl⟩
  · refine readTable_eq_ok_iff.mpr ⟨entries.map fun e => (e.1, e.2.kept nulls), ?_, ?_⟩
    · rw [Entries.offers, Entries.named, List.map_map, List.forall₂_map_left_iff,
        List.forall₂_map_right_iff]
      refine List.Forall₂.flip (hdone.imp fun e x h => ?_)
      have hread : (Offer.of x.2).read (.one (.record (entryType kind))) =
          .ok ⟨e.2.kept nulls, true⟩ := h.2.2
      have hentry : readEntry (.record (entryType kind)) (.text x.1) (Offer.of x.2) =
          .ok (e.1, e.2.kept nulls) := by
        rw [readEntry_text hread, h.1]
      exact hentry
    · rw [kept_table, Entries.distinct_of_nodup (by rwa [List.map_map])]

/-- What a document is made of again: of every collection that it has. -/
theorem collections_of_found
    {settings : Settings} {document : Entries} {found : CollectionKind → Option Value}
    (hfound : ∀ kind, match found kind with
      | some w => ∃ c, Collection.ofValue? (document.getD kind.name) = some c ∧
          collection settings kind c = .ok (w, [])
      | none => Collection.ofValue? (document.getD kind.name) = none)
    (kinds : List CollectionKind) :
    collections settings document kinds =
      .ok (kinds.filterMap fun kind => (found kind).map fun w => (kind.name, w), []) := by
  induction kinds with
  | nil => rfl
  | cons kind kinds ih =>
      have hkind := hfound kind
      cases hw : found kind with
      | none =>
          simp only [hw] at hkind
          rw [collections_cons_of_none hkind, ih]
          simp [hw]
      | some w =>
          simp only [hw] at hkind
          obtain ⟨c, hc, hcollection⟩ := hkind
          rw [collections_cons_eq_ok_iff hc]
          exact ⟨_, _, hcollection, ih, by simp [hw]⟩

theorem get?_found
    (found : CollectionKind → Option Value) (kind : CollectionKind) :
    Entries.get? kind.name (Entries.named
      (CollectionKind.all.filterMap fun kind => (found kind).map fun w => (kind.name, w))) =
        found kind := by
  rw [Entries.get?_named]
  cases hscreens : found .screens <;> cases hcomponents : found .components <;>
    cases hrules : found .rules <;> cases kind <;>
      simp [CollectionKind.all, CollectionKind.name, hscreens, hcomponents, hrules]

/-- A document whose screens have no fields beside their sections is made again from its
plain tree, without null extras if nulls are left out. -/
theorem document_kept
    (settings : Settings) {nulls : Bool} {root : Element}
    (hfits : Fits (.one (.record .document)) root)
    (hflat : ∀ screens, root.attribute? "view" = some (.table screens) →
      ∀ x ∈ screens, x.2.HasFlatSections)
    (hclear : IsClear nulls root) :
    ∃ w, restructure settings (root.toValue nulls) = .ok (w, []) ∧
      ofValue w (.one (.record .document)) = .ok ⟨root.kept nulls, true⟩ := by
  obtain ⟨raw, hdump⟩ := exists_isDump hfits nulls
  have hcollection (kind : CollectionKind) : ∃ found : Option Value,
      (match found with
        | some w => ∃ c, Collection.ofValue? (raw.getD kind.name) = some c ∧
            collection settings kind c = .ok (w, [])
        | none => Collection.ofValue? (raw.getD kind.name) = none) ∧
      ∀ e, root.attribute? kind.name = some e →
        match found with
        | some w => ∀ s : Shape, s.kinds = [.tableOf (.record (entryType kind))] →
            ofValue w s = .ok ⟨e.kept nulls, true⟩
        | none => e = .null := by
    obtain ⟨a, ha, hname, hkinds, -⟩ := exists_documentAttribute kind
    obtain ⟨e, he, hfit, hget⟩ := hdump.written a ha
    rw [hname] at he hget
    rcases hfit.admits_of_single hkinds with ⟨-, rfl⟩ | ⟨entries, rfl, hnodup, hentries⟩
    · refine ⟨none, by rw [hget]; rfl, fun f hf => ?_⟩
      exact (Option.some.inj (he.symm.trans hf)).symm
    · have hagain : ∀ x ∈ entries, IsMadeAgain settings nulls kind x.2 := fun x hx =>
        isMadeAgain_of_fits settings (hentries x hx) (fun hkind => by
          subst hkind
          exact hflat entries he x hx) ((hclear.attribute he).entry hx)
      obtain ⟨es, hok, hread⟩ := collection_dump hnodup hagain
      refine ⟨some (object es), ⟨_, by rw [hget, toValue_table]; rfl, hok⟩, fun f hf s hs => ?_⟩
      rw [← Option.some.inj (he.symm.trans hf), ofValue_of_single hs rfl nofun]
      exact hread
  choose found hfound hreads using hcollection
  refine ⟨object (CollectionKind.all.filterMap fun kind =>
    (found kind).map fun w => (kind.name, w)), ?_, ?_⟩
  · rw [hdump.toValue]
    simp only [restructure, mapping, collections_of_found hfound, bind, Except.bind]
  · refine ofValue_of_reads (by simp) hfits fun a ha e he => ?_
    obtain ⟨hsingle, kind, hname, hkinds⟩ := exists_collectionKind ha
    have hfit := hdump.fits ha he
    rw [reads_iff_of_single hsingle]
    rw [hname] at he ⊢
    have hread := hreads kind e he
    rw [get?_found]
    cases hw : found kind with
    | none =>
        simp only [hw] at hread
        subst hread
        rw [RecordType.default_of_admitsNull ha (admitsNull_of_fits hfit)]
        rfl
    | some w =>
        simp only [hw] at hread
        exact ⟨true, hread _ hkinds⟩

theorem document_dump
    (settings : Settings) {root : Element} (hfits : Fits (.one (.record .document)) root)
    (hflat : ∀ screens, root.attribute? "view" = some (.table screens) →
      ∀ x ∈ screens, x.2.HasFlatSections) :
    ∃ w, restructure settings (root.toValue true) = .ok (w, []) ∧
      ofValue w (.one (.record .document)) = .ok ⟨root, true⟩ := by
  have hclear : IsClear true root := fun h => by cases h
  have hkept := document_kept settings hfits hflat hclear
  rwa [kept_true] at hkept

end Canonical

namespace Document

open Reading

/-- A document that was made from a raw tree without findings is made again, without
renamings, from its own plain tree. -/
theorem round_trip
    {settings : Settings} {positions : Positions} {tree : Value} (hraw : tree.isRaw = true)
    (hcheck : tree.check settings positions = .ok [])
    {canonical : Value} {renamings : List Renaming}
    (hrestructure : Canonical.restructure settings tree = .ok (canonical, renamings))
    {d : Document} (hbuild : build canonical = .ok d) :
    ∃ again, Canonical.restructure settings (d.toValue true) = .ok (again, []) ∧
      build again = .ok d := by
  have hroot := Value.root_eq_nil_of_check hcheck
  obtain ⟨document, rfl, -⟩ := Rules.root_eq_nil_iff.mp hroot
  obtain ⟨exact, hread⟩ := build_eq_ok_iff.mp hbuild
  have hfits := fits_of_ofValue (Canonical.isRaw_restructure hraw hroot hrestructure) hread
  have hflat := Canonical.hasFlatSections_of_build hrestructure hread
  obtain ⟨again, hagain, hbuilt⟩ := Canonical.document_dump settings hfits hflat
  exact ⟨again, hagain, build_eq_ok_iff.mpr ⟨true, hbuilt⟩⟩

/-- Two listed screens of one name. -/
def namesakes : Value :=
  Canonical.object [("view", .list [
    Canonical.object [("name", .text "Home"), ("sections", .list [
      Canonical.object [("input_fields", .list [
        Canonical.object [("type", .text "select"), ("options", .list [.integer 1])]])]])],
    Canonical.object [("name", .text "Home")]])]

/-- The second of two screens of one name is renamed the first time only. -/
theorem round_trip_namesakes :
    ∃ canonical renamed d,
      Canonical.restructure .default namesakes = .ok (canonical, [renamed]) ∧
        build canonical = .ok d ∧
        ∃ again, Canonical.restructure .default (d.toValue true) = .ok (again, []) ∧
          build again = .ok d :=
  ⟨_, _, _, rfl, rfl, @round_trip .default [] namesakes rfl rfl _ _ rfl _ rfl⟩

end Document

end Wireframe
