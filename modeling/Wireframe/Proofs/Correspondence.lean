import Mathlib.Data.List.Forall2
import Mathlib.Tactic
import Wireframe.Proofs.ListedKeys
import Wireframe.Proofs.RoundTrip

/-!
# Correspondence of entries

A document that is built from a checked tree has the entries that are written in the tree,
one for each and in written order.  Two things could lose one: texts of keys that meet, which
the check rules out, and slugs that meet, which free keys keep apart.
-/

namespace Wireframe

namespace Canonical

open Element Reading

/-- The keys that the entries of a collection have in canonical form: the texts of their
keys, or what is free of their names when the entries before them have taken their keys. -/
def AreKeysOf (kind : CollectionKind) (c : Collection) (keys : List String) : Prop :=
  match c with
  | .keyed entries => keys = entries.map fun e => e.1.render
  | .listed items =>
    keys.length = items.length ∧
      ∀ i raw, items[i]? = some (.map raw) →
        ∃ wanted, wantedKey kind raw i = .ok wanted ∧
          keys[i]? = some (Slug.unique (keys.take i) wanted)

/-- The entries of a table are those of a collection, each brought into canonical form and
read on its own. -/
structure Corresponds (settings : Settings) (kind : CollectionKind) (c : Collection)
    (table : List (String × Element)) : Prop where
  nodup : (table.map Prod.fst).Nodup
  keys : AreKeysOf kind c (table.map Prod.fst)
  values : List.Forall₂
    (fun step entry => ∃ w, entryOf settings kind c step.2 = .ok w ∧
      w.readAs (.record (entryType kind)) = .ok entry.2)
    c.steps table

/-! ## Canonical forms of collections -/

section Listed

variable {settings : Settings} {kind : CollectionKind} {taken : List (String × Value)}
  {place : Nat} {items : List Value} {r : List (String × Value) × List Renaming}

/-- Listed entries are put behind those that have taken their keys. -/
theorem exists_made_of_listed
    (hlisted : listed settings kind taken place items = .ok r) :
    ∃ made, r.1 = taken ++ made ∧
      List.Forall₂ (fun v x => listedEntry settings kind v = .ok x.2) items made ∧
      ∀ i raw, items[i]? = some (.map raw) →
        ∃ wanted, wantedKey kind raw (place + i) = .ok wanted ∧
          (made.map Prod.fst)[i]? =
            some (Slug.unique ((taken ++ made.take i).map Prod.fst) wanted) := by
  obtain ⟨rows, values, rfl, hnames, hvalues, rfl⟩ := exists_rows_of_listed hlisted
  have hlength : (keysFrom kind (taken.map Prod.fst) place rows).length = values.length := by
    rw [length_keysFrom, ← hvalues.length_eq, List.length_map]
  refine ⟨_, rfl, ?_, fun i raw hi => ?_⟩
  · rw [← List.map_snd_zip hlength.ge, List.forall₂_map_right_iff] at hvalues
    exact hvalues
  · have hrow : rows[i]? = some raw := by simpa using hi
    have hname := hnames raw (List.mem_of_getElem? hrow)
    refine ⟨_, wantedKey_eq_ok_iff.mpr ⟨hname, rfl⟩, ?_⟩
    rw [List.map_fst_zip hlength.le, getElem?_keysFrom hrow, List.map_append, List.map_take,
      List.map_fst_zip hlength.le]

/-- No listed entry gets a key that is taken. -/
theorem nodup_of_listed
    (htaken : (taken.map Prod.fst).Nodup)
    (hlisted : listed settings kind taken place items = .ok r) :
    (r.1.map Prod.fst).Nodup := by
  obtain ⟨rows, values, rfl, -, hvalues, rfl⟩ := exists_rows_of_listed hlisted
  have hlength : (keysFrom kind (taken.map Prod.fst) place rows).length = values.length := by
    rw [length_keysFrom, ← hvalues.length_eq, List.length_map]
  rw [List.map_append, List.map_fst_zip hlength.le]
  exact nodup_keysFrom htaken

end Listed

/-- The texts of different keys of a checked collection are different. -/
theorem nodup_render
    {entries : Entries} (hnodup : ((Collection.keyed entries).steps.map Prod.fst).Nodup) :
    (entries.map fun e => e.1.render).Nodup := by
  rw [Collection.steps, List.map_map] at hnodup
  apply List.Nodup.of_map Step.name
  rw [List.map_map]
  exact hnodup

/-- A collection in canonical form has an entry for each entry of the collection. -/
theorem exists_entries_of_collection
    {settings : Settings} {kind : CollectionKind} {c : Collection}
    (hnodup : (c.steps.map Prod.fst).Nodup) {r : Value × List Renaming}
    (hcollection : collection settings kind c = .ok r) :
    ∃ es : List (String × Value), r.1 = object es ∧ (es.map Prod.fst).Nodup ∧
      AreKeysOf kind c (es.map Prod.fst) ∧
      List.Forall₂ (fun step x => entryOf settings kind c step.2 = .ok x.2) c.steps es := by
  cases c with
  | keyed entries =>
      obtain ⟨es, hkeyed, rfl⟩ := collection_keyed_eq_ok_iff.mp hcollection
      obtain ⟨done, hdone, heq⟩ := keyed_eq_ok_iff.mp hkeyed
      have hkeys : done.map Prod.fst = entries.map fun e => e.1.render :=
        map_eq_map_of_forall₂ hdone fun _ _ h => h.1.2
      have hnames : (done.map Prod.fst).Nodup := by
        rw [hkeys]
        exact nodup_render hnodup
      rw [Entries.distinct_of_nodup hnames] at heq
      subst heq
      refine ⟨es, rfl, hnames, hkeys, ?_⟩
      rw [Collection.steps, List.forall₂_map_left_iff]
      exact hdone.imp fun _ _ h => h.2
  | listed items =>
      obtain ⟨done, hlisted, rfl⟩ := collection_listed_eq_ok_iff.mp hcollection
      obtain ⟨made, hmade, hentries, hkeys⟩ := exists_made_of_listed hlisted
      rw [List.nil_append] at hmade
      have hnames : (done.1.map Prod.fst).Nodup := nodup_of_listed (by simp) hlisted
      rw [hmade] at hnames
      refine ⟨made, by rw [hmade], hnames, ⟨?_, ?_⟩, ?_⟩
      · rw [List.length_map, hentries.length_eq]
      · intro i raw hi
        obtain ⟨wanted, hwanted, hkey⟩ := hkeys i raw hi
        rw [Nat.zero_add] at hwanted
        rw [List.nil_append, List.map_take] at hkey
        exact ⟨wanted, hwanted, hkey⟩
      · rw [Collection.steps, List.forall₂_map_left_iff]
        rw [← List.zipIdx_map_fst 0 items, List.forall₂_map_left_iff] at hentries
        exact hentries

/-! ## Tables of documents -/

theorem readEntry_text_eq_ok
    {k : Kind} {name : String} {offer : Offer} {e : String × Element}
    (hread : readEntry k (.text name) offer = .ok e) :
    e.1 = name ∧ ∃ exact, offer.read (.one k) = .ok ⟨e.2, exact⟩ := by
  obtain ⟨exact, hvalue⟩ := readEntry_eq_ok hread
  rw [readEntry_text hvalue, Except.ok.injEq] at hread
  exact ⟨by rw [← hread], exact, hvalue⟩

/-- A table that is read from distinct names has an entry for each of them. -/
theorem forall₂_of_table
    {k : Kind} {s : Shape} (hkinds : s.kinds = [.tableOf k]) {es : List (String × Value)}
    (hnodup : (es.map Prod.fst).Nodup) {r : Reading}
    (hread : ofValue (object es) s = .ok r) :
    ∃ table, r.element = .table table ∧
      List.Forall₂ (fun x entry => entry.1 = x.1 ∧ ReadsAs k x.2 entry.2) es table := by
  rw [object, ofValue_of_single hkinds rfl (by simp)] at hread
  obtain ⟨entries, hentries, rfl⟩ := readTable_eq_ok_iff.mp hread
  rw [Entries.offers, Entries.named, List.map_map, List.forall₂_map_left_iff] at hentries
  have hrel : List.Forall₂ (fun x entry => entry.1 = x.1 ∧ ReadsAs k x.2 entry.2) es entries :=
    hentries.imp fun _ _ h => readEntry_text_eq_ok h
  have hnames : entries.map Prod.fst = es.map Prod.fst :=
    map_eq_map_of_forall₂ hrel fun _ _ h => h.1
  have hdistinct : Entries.distinct entries = entries := Entries.distinct_of_nodup (hnames ▸ hnodup)
  exact ⟨entries, by rw [hdistinct], hrel⟩

theorem readsAs_iff
    {k : Kind} {v : Value} {e : Element} :
    ReadsAs k v e ↔ v.readAs k = .ok e := by
  unfold ReadsAs Value.readAs
  rw [map_element_eq_ok_iff]

theorem corresponds_of_forall₂
    {settings : Settings} {kind : CollectionKind} {c : Collection} {es : List (String × Value)}
    {table : List (String × Element)} (hnodup : (es.map Prod.fst).Nodup)
    (hkeys : AreKeysOf kind c (es.map Prod.fst))
    (hentries : List.Forall₂ (fun step x => entryOf settings kind c step.2 = .ok x.2) c.steps es)
    (htable : List.Forall₂
      (fun x entry => entry.1 = x.1 ∧ ReadsAs (.record (entryType kind)) x.2 entry.2) es table) :
    Corresponds settings kind c table := by
  have hnames : table.map Prod.fst = es.map Prod.fst :=
    map_eq_map_of_forall₂ htable fun _ _ h => h.1
  constructor
  · rw [hnames]
    exact hnodup
  · rw [hnames]
    exact hkeys
  · refine (forall₂_comp hentries htable).imp ?_
    rintro step entry ⟨x, hx, -, hread⟩
    exact ⟨x.2, hx, readsAs_iff.mp hread⟩

theorem get?_collections
    {settings : Settings} {document : Entries} {kinds : List CollectionKind}
    {r : List (String × Value) × List Renaming}
    (hcollections : collections settings document kinds = .ok r) {kind : CollectionKind} {w : Value}
    (hget : Entries.get? kind.name (Entries.named r.1) = some w) :
    ∃ c renamings, Collection.ofValue? (document.getD kind.name) = some c ∧
      collection settings kind c = .ok (w, renamings) := by
  induction kinds generalizing r with
  | nil =>
      cases hcollections
      cases hget
  | cons other kinds ih =>
      cases hc : Collection.ofValue? (document.getD other.name) with
      | none =>
          rw [collections_cons_of_none hc] at hcollections
          exact ih hcollections hget
      | some c =>
          obtain ⟨one, rest, hone, hrest, rfl⟩ := (collections_cons_eq_ok_iff hc).mp hcollections
          by_cases hsame : other.name = kind.name
          · have hkind := name_injective hsame
            subst hkind
            have hw : one.1 = w := by simpa [Entries.get?_named] using hget
            exact ⟨c, one.2, hc, by rw [hone, ← hw]⟩
          · have htail : Entries.get? kind.name (Entries.named rest.1) = some w := by
              simpa [Entries.get?_named, hsame] using hget
            exact ih hrest htail

/-- The canonical form of a document has the canonical forms of the collections that are
written in it, and nothing for the others. -/
theorem exists_found_of_restructure
    {settings : Settings} {document : Entries} {r : Value × List Renaming}
    (hrestructure : restructure settings (.map document) = .ok r) (kind : CollectionKind) :
    ∃ attributes, r.1 = object attributes ∧
      match Collection.ofValue? (document.getD kind.name) with
      | some c => ∃ one, collection settings kind c = .ok one ∧
          Entries.get? kind.name (Entries.named attributes) = some one.1
      | none => Entries.get? kind.name (Entries.named attributes) = none := by
  obtain ⟨found, hcollections, rfl⟩ := restructure_map_eq_ok_iff.mp hrestructure
  refine ⟨found.1, rfl, ?_⟩
  have hkind := (collections_eq_ok (by decide) hcollections).2 kind (by cases kind <;> decide)
  unfold IsCanonical at hkind
  cases hc : Collection.ofValue? (document.getD kind.name) with
  | none => simpa only [hc] using hkind
  | some c =>
      simp only [hc] at hkind ⊢
      obtain ⟨es, hget, -⟩ := hkind
      obtain ⟨c', renamings, hc', hcollection⟩ := get?_collections hcollections hget
      rw [hc, Option.some.injEq] at hc'
      subst hc'
      exact ⟨_, hcollection, hget⟩

end Canonical

namespace Document

open Canonical Reading

/-- The entries of a document that is built from a checked tree are the entries of the tree:
a collection that is there has an entry for each of its entries and in their order, and a
collection that is not there is null. -/
theorem entries_correspond
    {settings : Settings} {positions : Positions} {tree : Value}
    (hcheck : tree.check settings positions = .ok [])
    {canonical : Value} {renamings : List Renaming}
    (hrestructure : restructure settings tree = .ok (canonical, renamings))
    {d : Document} (hbuild : build canonical = .ok d) (kind : CollectionKind) :
    ∃ document : Entries, tree = .map document ∧
      ((document.getD kind.name).isPresent = false ∧ d.root.attribute? kind.name = some .null ∨
        ∃ c table, Collection.ofValue? (document.getD kind.name) = some c ∧
          d.root.attribute? kind.name = some (.table table) ∧
          Corresponds settings kind c table) := by
  obtain ⟨document, rfl, hall⟩ := Rules.root_eq_nil_iff.mp (Value.root_eq_nil_of_check hcheck)
  refine ⟨document, rfl, ?_⟩
  have hkind := hall kind
  obtain ⟨attributes, rfl, hfound⟩ := exists_found_of_restructure hrestructure kind
  obtain ⟨exact, hread⟩ := build_eq_ok_iff.mp hbuild
  obtain ⟨a, ha, hname, hkinds, hnullable⟩ := exists_documentAttribute kind
  obtain ⟨e, he, hreads⟩ := exists_attribute? (by simp) hread ha
  rw [reads_iff_of_single (exists_collectionKind ha).1] at hreads
  rw [hname] at he hreads
  unfold Rules.HasCollection at hkind
  cases hc : Collection.ofValue? (Entries.getD kind.name document) with
  | none =>
      simp only [hc] at hkind hfound
      have hdefault : a.default = .null := by
        apply RecordType.default_of_admitsNull ha
        simp [Shape.admitsNull, hnullable, hkind.2]
      rw [hfound, hdefault] at hreads
      cases hreads
      exact .inl ⟨hkind.1, he⟩
  | some c =>
      simp only [hc] at hkind hfound
      obtain ⟨one, hcollection, hget⟩ := hfound
      obtain ⟨es, hobject, hnodup, hkeys, hentries⟩ :=
        exists_entries_of_collection hkind.1 hcollection
      rw [hget, hobject] at hreads
      obtain ⟨exact', htable⟩ := hreads
      obtain ⟨table, rfl, hrel⟩ := forall₂_of_table hkinds hnodup htable
      exact .inr ⟨c, table, rfl, he, corresponds_of_forall₂ hnodup hkeys hentries hrel⟩

/-- A screen that is keyed by a number, and two listed components whose names have one slug. -/
def sameSlugs : Value :=
  .map [(.text "view", .map [(.scalar (.integer 1), Canonical.object [("title", .text "Home")])]),
    (.text "common_components", .list [
      Canonical.object [("component_name", .text "Row")],
      Canonical.object [("component_name", .text "row")]])]

theorem entries_correspond_sameSlugs :
    ∃ canonical renamings d, sameSlugs.check .default [] = .ok [] ∧
      restructure .default sameSlugs = .ok (canonical, renamings) ∧ build canonical = .ok d ∧
        ∃ c table, d.root.attribute? "common_components" = some (.table table) ∧
          Corresponds .default .components c table := by
  refine ⟨_, _, _, rfl, rfl, rfl, ?_⟩
  obtain ⟨document, hdocument, hcases⟩ :=
    @entries_correspond .default [] sameSlugs rfl _ _ rfl _ rfl .components
  cases hdocument
  rcases hcases with ⟨habsent, -⟩ | ⟨c, table, -, htable, hcorresponds⟩
  · cases habsent
  · exact ⟨c, table, htable, hcorresponds⟩

end Document

end Wireframe
