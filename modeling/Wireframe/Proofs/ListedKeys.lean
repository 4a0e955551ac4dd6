import Mathlib.Tactic
import Wireframe.Proofs.Documents
import Wireframe.Proofs.FreeKeys
import Wireframe.Proofs.Slugs

/-!
# Keys of listed entries

The entries of a listed collection are keyed one after the other.  Which keys the entries before
have is all that is carried along, so the keys can be told without bringing any entry into
canonical form: each is the first free variant of the key that its entry asks for.  A key that is
asked for is a slug, and so is every variant of it.  There are no keys at all if the name of an
entry cannot be written.
-/

namespace Wireframe

namespace Canonical

open Slug

/-- Every entry has a key: the first that is free of the key that the entry asks for, when the
entries before it have theirs. -/
structure AreAssigned (kind : CollectionKind) (rows : List Entries) (keys : List String) :
    Prop where
  length : keys.length = rows.length
  firstFree : ∀ (i : Nat) (row : Entries) (key wanted : String), rows[i]? = some row →
    keys[i]? = some key → wantedKey kind row i = .ok wanted →
      IsFirstFree (keys.take i) wanted key

/-- Keys the entries from a place on, when some keys are taken. -/
def keysFrom (kind : CollectionKind) (taken : List String) (place : Nat) :
    List Entries → List String
  | [] => []
  | row :: rows =>
    let key := unique taken (askedKey kind row place)
    key :: keysFrom kind (taken ++ [key]) (place + 1) rows

/-- The keys of the entries of a listed collection. -/
def keysOf (kind : CollectionKind) (rows : List Entries) : List String :=
  keysFrom kind [] 0 rows

/-- The entries from a place on whose keys are not the ones that they ask for. -/
def renamedFrom (kind : CollectionKind) (place : Nat) (rows : List Entries)
    (keys : List String) : List Renaming :=
  ((rows.zip keys).zipIdx place).filterMap fun x =>
    let wanted := askedKey kind x.1.1 x.2
    if x.1.2 = wanted then none else some ⟨kind, x.2, wanted, x.1.2⟩

section Keys

variable {kind : CollectionKind} {taken : List String} {place : Nat} {rows : List Entries}

theorem length_keysFrom :
    (keysFrom kind taken place rows).length = rows.length := by
  induction rows generalizing taken place with
  | nil => rfl
  | cons row rows ih => rw [keysFrom, List.length_cons, ih, List.length_cons]

/-- What an entry is keyed depends on the keys before it and on what it asks for. -/
theorem getElem?_keysFrom
    {i : Nat} {row : Entries} (hrow : rows[i]? = some row) :
    (keysFrom kind taken place rows)[i]? =
      some (unique (taken ++ (keysFrom kind taken place rows).take i)
        (askedKey kind row (place + i))) := by
  induction rows generalizing taken place i with
  | nil => cases hrow
  | cons first rows ih =>
      rw [keysFrom]
      cases i with
      | zero =>
          cases hrow
          rw [List.take_zero, List.append_nil]
          rfl
      | succ i =>
          rw [List.getElem?_cons_succ, ih hrow, List.append_assoc, List.singleton_append,
            List.take_succ_cons, show place + 1 + i = place + (i + 1) by omega]

theorem isFirstFree_keysFrom
    {i : Nat} {row : Entries} {key : String} (hrow : rows[i]? = some row)
    (hkey : (keysFrom kind taken place rows)[i]? = some key) :
    IsFirstFree (taken ++ (keysFrom kind taken place rows).take i)
      (askedKey kind row (place + i)) key := by
  rw [getElem?_keysFrom hrow, Option.some.injEq] at hkey
  rw [← hkey]
  exact isFirstFree_unique _ _

/-- No key is given twice, nor one that was taken. -/
theorem nodup_keysFrom (htaken : taken.Nodup) :
    (taken ++ keysFrom kind taken place rows).Nodup := by
  induction rows generalizing taken place with
  | nil => rwa [keysFrom, List.append_nil]
  | cons row rows ih =>
      rw [keysFrom, List.append_cons]
      refine ih ?_
      rw [← List.concat_eq_append, List.nodup_concat]
      exact ⟨unique_not_mem _ _, htaken⟩

theorem keysFrom_take (count : Nat) :
    keysFrom kind taken place (rows.take count) =
      (keysFrom kind taken place rows).take count := by
  induction rows generalizing taken place count with
  | nil => rw [List.take_nil, keysFrom, List.take_nil]
  | cons row rows ih =>
      cases count with
      | zero => rfl
      | succ count => rw [List.take_succ_cons, keysFrom, keysFrom, List.take_succ_cons, ih]

end Keys

theorem nodup_keysOf (kind : CollectionKind) (rows : List Entries) :
    (keysOf kind rows).Nodup := by
  have hnodup := @nodup_keysFrom kind [] 0 rows .nil
  rwa [List.nil_append] at hnodup

theorem areAssigned_keysOf (kind : CollectionKind) (rows : List Entries) :
    AreAssigned kind rows (keysOf kind rows) where
  length := length_keysFrom
  firstFree i row key wanted hrow hkey hwanted := by
    have hfree := isFirstFree_keysFrom hrow hkey
    rwa [List.nil_append, Nat.zero_add, ← (wantedKey_eq_ok_iff.mp hwanted).2] at hfree

/-! ## Keys are slugs -/

theorem isSlug_toString (n : Nat) :
    IsSlug (toString n).toList ∧ (toString n).toList ≠ [] := by
  rw [Nat.toString_eq_ofList_toDigits, String.toList_ofList]
  refine ⟨isSlug_of_forall fun c hc => isWord_of_isDigit ?_, Nat.toDigits_ne_nil⟩
  exact Nat.isDigit_of_mem_toDigits (by decide) (by decide) hc

theorem isSlug_variant
    {key : String} (hkey : IsSlug key.toList) (hne : key.toList ≠ []) (n : Nat) :
    IsSlug (variant key n).toList ∧ (variant key n).toList ≠ [] := by
  obtain ⟨hdigits, hsome⟩ := isSlug_toString n
  have happend := hkey.append hne hdigits hsome
  have hlist : (variant key n).toList = key.toList ++ '_' :: (toString n).toList := by
    simp [variant]
  rw [hlist]
  exact ⟨happend, by simp⟩

theorem isSlug_askedKey (kind : CollectionKind) (row : Entries) (place : Nat) :
    IsSlug (askedKey kind row place).toList ∧ (askedKey kind row place).toList ≠ [] := by
  unfold askedKey
  extract_lets slug
  split_ifs with hempty
  · have hstem : IsSlug (fallbackStem kind).toList ∧ (fallbackStem kind).toList ≠ [] := by
      cases kind <;> exact ⟨isSlug_iff.mpr (by decide), by decide⟩
    exact isSlug_variant hstem.1 hstem.2 place
  · exact ⟨isSlug_ofName _, by simpa using hempty⟩

theorem isSlug_of_mem_keysFrom
    {kind : CollectionKind} {taken : List String} {place : Nat} {rows : List Entries}
    {key : String} (hkey : key ∈ keysFrom kind taken place rows) :
    IsSlug key.toList ∧ key.toList ≠ [] := by
  obtain ⟨i, hi, heq⟩ := List.mem_iff_getElem.mp hkey
  have hrow : i < rows.length := length_keysFrom ▸ hi
  have hfree := isFirstFree_keysFrom (List.getElem?_eq_getElem hrow)
    (by rw [List.getElem?_eq_getElem hi, heq])
  obtain ⟨hslug, hne⟩ := isSlug_askedKey kind rows[i] (place + i)
  rcases hfree with ⟨-, hsame⟩ | ⟨-, n, -, hvariant, -⟩
  · rw [hsame]
    exact ⟨hslug, hne⟩
  · rw [hvariant]
    exact isSlug_variant hslug hne n

/-! ## Listed collections in canonical form -/

/-- The keys and the renamings do not depend on what the entries become. -/
theorem listed_eq
    (settings : Settings) {kind : CollectionKind} {rows : List Entries}
    (hnames : ∀ row ∈ rows, HasName kind row) (taken : List (String × Value)) (place : Nat) :
    listed settings kind taken place (rows.map Value.map) =
      ((rows.map Value.map).mapM (listedEntry settings kind)).map fun values =>
        (taken ++ (keysFrom kind (taken.map Prod.fst) place rows).zip values,
          renamedFrom kind place rows (keysFrom kind (taken.map Prod.fst) place rows)) := by
  induction rows generalizing taken place with
  | nil => simp [listed, keysFrom, renamedFrom, pure, Except.pure, Except.map]
  | cons row rows ih =>
      obtain ⟨hname, hnames⟩ := List.forall_mem_cons.mp hnames
      have hwanted : wantedKey kind row place = .ok (askedKey kind row place) :=
        wantedKey_eq_ok_iff.mpr ⟨hname, rfl⟩
      rw [List.map_cons, listed, List.mapM_cons]
      cases hentry : listedEntry settings kind (.map row) with
      | error e => rfl
      | ok entry =>
          simp only [mapping, hwanted, bind, Except.bind, Except.mapError, ih hnames]
          cases (rows.map Value.map).mapM (listedEntry settings kind) with
          | error e => rfl
          | ok values =>
              simp only [Except.map, pure, Except.pure, keysFrom, renamedFrom]
              split_ifs <;> simp_all

/-- A list that has canonical form is a list of mappings, which are brought into canonical form
one by one and put under their keys. -/
theorem exists_rows_of_listed
    {settings : Settings} {kind : CollectionKind} {taken : List (String × Value)} {place : Nat}
    {items : List Value} {r : List (String × Value) × List Renaming}
    (hlisted : listed settings kind taken place items = .ok r) :
    ∃ rows values, items = rows.map Value.map ∧ (∀ row ∈ rows, HasName kind row) ∧
      List.Forall₂ (fun v w => listedEntry settings kind v = .ok w) items values ∧
      r = (taken ++ (keysFrom kind (taken.map Prod.fst) place rows).zip values,
        renamedFrom kind place rows (keysFrom kind (taken.map Prod.fst) place rows)) := by
  have hrows : ∃ rows : List Entries, items = rows.map Value.map ∧
      ∀ row ∈ rows, HasName kind row := by
    induction items generalizing taken place r with
    | nil => exact ⟨[], rfl, nofun⟩
    | cons v vs ih =>
        obtain ⟨raw, entry, wanted, r', rfl, -, hwanted, hrest, -⟩ := listed_cons_eq_ok hlisted
        obtain ⟨rows, rfl, hnames⟩ := ih hrest
        have hname : HasName kind raw := (wantedKey_eq_ok_iff.mp hwanted).1
        exact ⟨raw :: rows, rfl, List.forall_mem_cons.mpr ⟨hname, hnames⟩⟩
  obtain ⟨rows, rfl, hnames⟩ := hrows
  rw [listed_eq settings hnames] at hlisted
  cases hvalues : (rows.map Value.map).mapM (listedEntry settings kind) with
  | error o =>
      rw [hvalues] at hlisted
      cases hlisted
  | ok values =>
      rw [hvalues] at hlisted
      cases hlisted
      exact ⟨rows, values, rfl, hnames, mapM_eq_ok_iff.mp hvalues, rfl⟩

theorem listed_eq_ok_iff
    {settings : Settings} {kind : CollectionKind} {rows : List Entries}
    {r : List (String × Value) × List Renaming} :
    listed settings kind [] 0 (rows.map Value.map) = .ok r ↔
      (∀ row ∈ rows, HasName kind row) ∧
        ∃ values, (rows.map Value.map).mapM (listedEntry settings kind) = .ok values ∧
          r = ((keysOf kind rows).zip values, renamedFrom kind 0 rows (keysOf kind rows)) := by
  constructor
  · intro hlisted
    obtain ⟨others, values, heq, hnames, hvalues, rfl⟩ := exists_rows_of_listed hlisted
    obtain rfl : rows = others := List.map_injective_iff.mpr (fun _ _ h => Value.map.inj h) heq
    exact ⟨hnames, values, mapM_eq_ok_iff.mpr hvalues, rfl⟩
  · rintro ⟨hnames, values, hvalues, rfl⟩
    rw [listed_eq settings hnames, hvalues]
    rfl

/-- Entries whose names are distinct keep them. -/
theorem keyed_named
    (settings : Settings) (kind : CollectionKind) {es : List (String × Value)}
    (hnames : (es.map Prod.fst).Nodup) :
    keyed settings kind (Entries.named es) =
      ((es.map Prod.snd).mapM (keyedEntry settings kind)).map fun values =>
        (es.map Prod.fst).zip values := by
  have hmapM (done : List (String × Value)) :
      (done.map fun e => (Key.text e.1, e.2)).mapM (fun e => (do
          let key ← e.1.write.mapError Obstacle.notWritten
          .ok (key, ← keyedEntry settings kind e.2) : Except Obstacle (String × Value))) =
        ((done.map Prod.snd).mapM (keyedEntry settings kind)).map fun values =>
          (done.map Prod.fst).zip values := by
    induction done with
    | nil => rfl
    | cons e done ih =>
        rw [List.map_cons, List.mapM_cons, ih, List.map_cons, List.map_cons, List.mapM_cons]
        cases keyedEntry settings kind e.2 with
        | error o => rfl
        | ok v => cases (done.map Prod.snd).mapM (keyedEntry settings kind) <;> rfl
  unfold keyed
  rw [Entries.named, hmapM]
  cases hvalues : (es.map Prod.snd).mapM (keyedEntry settings kind) with
  | error o => rfl
  | ok values =>
      have hlength : (es.map Prod.fst).length = values.length := by
        rw [← (mapM_eq_ok_iff.mp hvalues).length_eq, List.length_map, List.length_map]
      exact congrArg Except.ok
        (Entries.distinct_of_nodup (by rwa [List.map_fst_zip hlength.le]))

/-- Listed screens and the same screens under the keys that they are given have one canonical
form.  Only for the list it is told which of the keys are new. -/
theorem collection_screens
    (settings : Settings) {rows : List Entries} (hnames : ∀ row ∈ rows, HasName .screens row) :
    let keys := keysOf .screens rows
    collection settings .screens (.listed (rows.map Value.map)) =
        ((rows.map Value.map).mapM (screen settings)).map (fun values =>
          (object (keys.zip values), renamedFrom .screens 0 rows keys)) ∧
      collection settings .screens (.keyed (Entries.named (keys.zip (rows.map Value.map)))) =
        ((rows.map Value.map).mapM (screen settings)).map fun values =>
          (object (keys.zip values), []) := by
  intro keys
  have hlength : keys.length = (rows.map Value.map).length := by
    rw [List.length_map, (areAssigned_keysOf .screens rows).length]
  have hkeys : (keys.zip (rows.map Value.map)).map Prod.fst = keys := List.map_fst_zip hlength.le
  have hrows : (keys.zip (rows.map Value.map)).map Prod.snd = rows.map Value.map :=
    List.map_snd_zip hlength.ge
  have hnodup : keys.Nodup := nodup_keysOf .screens rows
  have hlistedEntry : listedEntry settings .screens = screen settings := rfl
  have hkeyedEntry : keyedEntry settings .screens = screen settings := rfl
  simp only [collection, listed_eq settings hnames, hlistedEntry,
    keyed_named settings .screens (hkeys.symm ▸ hnodup), hkeys, hrows, hkeyedEntry]
  cases (rows.map Value.map).mapM (screen settings) <;> exact ⟨rfl, rfl⟩

theorem collections_congr
    (settings : Settings) {document other : Entries} {kinds : List CollectionKind}
    (hsame : ∀ kind ∈ kinds, other.getD kind.name = document.getD kind.name) :
    collections settings other kinds = collections settings document kinds := by
  induction kinds with
  | nil => rfl
  | cons kind kinds ih =>
      have ih := ih fun k hk => hsame k (List.mem_cons_of_mem _ hk)
      simp only [collections, hsame kind List.mem_cons_self, ih]

/-- A document whose screens are listed, and one that has them under the keys that they are
given. -/
theorem restructure_of_screens
    {settings : Settings} {document other : Entries} {rows : List Entries}
    (hlisted : Collection.ofValue? (document.getD CollectionKind.screens.name) =
      some (.listed (rows.map Value.map)))
    (hkeyed : other.getD CollectionKind.screens.name =
      .map (Entries.named ((keysOf .screens rows).zip (rows.map Value.map))))
    (hsame : ∀ kind : CollectionKind, kind ≠ .screens →
      other.getD kind.name = document.getD kind.name)
    (hnames : ∀ row ∈ rows, HasName .screens row) :
    restructure settings (.map document) = (restructure settings (.map other)).map fun r =>
      (r.1, renamedFrom .screens 0 rows (keysOf .screens rows) ++ r.2) := by
  have hothers : collections settings other [.components, .rules] =
      collections settings document [.components, .rules] :=
    collections_congr settings fun kind hkind => hsame kind (by rintro rfl; simp at hkind)
  have hfound : Collection.ofValue? (other.getD CollectionKind.screens.name) =
      some (.keyed (Entries.named ((keysOf .screens rows).zip (rows.map Value.map)))) := by
    rw [hkeyed]
    rfl
  have hfirst {d : Entries} {c : Collection}
      (hc : Collection.ofValue? (d.getD CollectionKind.screens.name) = some c) :
      collections settings d [.screens, .components, .rules] = (do
        let one ← collection settings .screens c
        let rest ← collections settings d [.components, .rules]
        .ok ((CollectionKind.screens.name, one.1) :: rest.1, one.2 ++ rest.2)) := by
    rw [collections, hc]
  obtain ⟨hlist, hkeys⟩ := collection_screens settings hnames
  simp only [restructure, mapping, CollectionKind.all, bind, Except.bind, hfirst hlisted,
    hfirst hfound, hothers, hlist, hkeys]
  cases (rows.map Value.map).mapM (screen settings) with
  | error o => rfl
  | ok values => cases collections settings document [.components, .rules] <;> rfl

/-- The keys of listed entries are assigned in order, each the first that is free of the key
that its entry asks for.  They are different slugs, and those of the first entries are the same
whatever follows.  A list is brought into canonical form if and only if the names of its entries
can be written and its entries can be brought into canonical form.  Then every entry whose key is
not the one that it asks for is told, and none else.  A checked document with listed screens whose
names can be written has the canonical form that it has with the screens under their keys. -/
theorem listed_keys
    (settings : Settings) :
    (∀ kind rows,
      AreAssigned kind rows (keysOf kind rows) ∧
      (keysOf kind rows).Nodup ∧
      (∀ key ∈ keysOf kind rows, key ≠ "" ∧ Slug.ofName key = key) ∧
      (∀ count, keysOf kind (rows.take count) = (keysOf kind rows).take count) ∧
      ∀ r, listed settings kind [] 0 (rows.map Value.map) = .ok r ↔
        (∀ row ∈ rows, HasName kind row) ∧
          ∃ values, (rows.map Value.map).mapM (listedEntry settings kind) = .ok values ∧
            r = ((keysOf kind rows).zip values, renamedFrom kind 0 rows (keysOf kind rows))) ∧
    ∀ positions document items,
      Collection.ofValue? (Entries.getD CollectionKind.screens.name document) =
        some (.listed items) →
      (Value.map document).check settings positions = .ok [] →
      ∃ rows, items = rows.map Value.map ∧
        ((∀ row ∈ rows, HasName .screens row) → ∀ other : Entries,
          other.getD CollectionKind.screens.name =
            .map (Entries.named ((keysOf .screens rows).zip items)) →
          (∀ kind : CollectionKind, kind ≠ .screens →
            other.getD kind.name = document.getD kind.name) →
          restructure settings (.map document) =
            (restructure settings (.map other)).map fun r =>
              (r.1, renamedFrom .screens 0 rows (keysOf .screens rows) ++ r.2)) ∧
        ((Value.map document).hasText = true →
          ∃ r, restructure settings (.map document) = .ok r) := by
  refine ⟨fun kind rows => ⟨areAssigned_keysOf kind rows, nodup_keysOf kind rows,
    fun key hkey => ?_, ?_, fun r => ?_⟩, ?_⟩
  · obtain ⟨hslug, hne⟩ := isSlug_of_mem_keysFrom hkey
    exact ⟨by simpa using hne, (ofName_eq_intercalate_words key).2.2.2.mpr hslug⟩
  · exact keysFrom_take
  · exact listed_eq_ok_iff
  · intro positions document items hlisted hcheck
    have hroot := Value.root_eq_nil_of_check hcheck
    obtain ⟨document, heq, hall⟩ := Rules.root_eq_nil_iff.mp hroot
    cases heq
    have hscreens := hall .screens
    simp only [Rules.HasCollection, hlisted] at hscreens
    have hmaps : ∀ v ∈ items, v.IsMapOf Rules.IsListedScreen := fun v hv => by
      obtain ⟨step, hstep⟩ := exists_step_of_mem hv
      exact hscreens.2 _ hstep
    obtain ⟨rows, rfl, -⟩ := eq_map_of_isMapOf hmaps
    exact ⟨rows, rfl,
      fun hnames other hkeyed hsame => restructure_of_screens hlisted hkeyed hsame hnames,
      (succeedsFor_restructure hroot).exists_ok⟩

/-- Screens that ask for keys of each other: the third asks for the key that the second has been
given, and the last, which has no name, for the one that the fourth has been given. -/
def rivals : List Entries :=
  [Entries.named [("name", .text "A")], Entries.named [("name", .text "A")],
    Entries.named [("name", .text "A 2")], Entries.named [("name", .text "Screen 4")],
    Entries.named [("title", .text "Last")]]

theorem listed_keys_rivals :
    (object [("view", .list (rivals.map Value.map))]).check .default [] = .ok [] ∧
      ∃ canonical,
        restructure .default (object [("view", .list (rivals.map Value.map))]) =
          .ok (canonical, [⟨.screens, 1, "a", "a_2"⟩, ⟨.screens, 2, "a_2", "a_2_2"⟩,
            ⟨.screens, 4, "screen_4", "screen_4_2"⟩]) ∧
        restructure .default (object [("view", object
            (["a", "a_2", "a_2_2", "screen_4", "screen_4_2"].zip (rivals.map Value.map)))]) =
          .ok (canonical, []) := by
  have hcheck : (object [("view", .list (rivals.map Value.map))]).check .default [] = .ok [] :=
    rfl
  have hkeys : keysOf .screens rivals = ["a", "a_2", "a_2_2", "screen_4", "screen_4_2"] := by
    decide +kernel
  refine ⟨hcheck, ?_⟩
  obtain ⟨canonical, hkeyed⟩ : ∃ canonical, restructure .default (object [("view", object
      (["a", "a_2", "a_2_2", "screen_4", "screen_4_2"].zip (rivals.map Value.map)))]) =
        .ok (canonical, []) := ⟨_, rfl⟩
  refine ⟨canonical, ?_, hkeyed⟩
  have hnames : ∀ row ∈ rivals, HasName .screens row := by
    simp only [rivals, List.forall_mem_cons]
    exact ⟨rfl, rfl, rfl, rfl, rfl, by simp⟩
  obtain ⟨rows, hrows, hforms, -⟩ := (listed_keys .default).2 [] _ _ rfl hcheck
  have heq : rivals = rows := List.map_injective_iff.mpr (fun _ _ h => Value.map.inj h) hrows
  subst heq
  have hsame := hforms hnames
    (Entries.named [("view", object ((keysOf .screens rivals).zip (rivals.map Value.map)))]) rfl
    fun kind hkind => by cases kind <;> first | rfl | exact absurd rfl hkind
  have hrenamed : renamedFrom .screens 0 rivals (keysOf .screens rivals) =
      [⟨.screens, 1, "a", "a_2"⟩, ⟨.screens, 2, "a_2", "a_2_2"⟩,
        ⟨.screens, 4, "screen_4", "screen_4_2"⟩] := by
    decide +kernel
  rw [hrenamed, hkeys] at hsame
  exact hsame.trans (congrArg _ hkeyed)

/-- A listed screen whose name is an integer of too many digits. -/
def longNamed : Entries :=
  Entries.named [("name", .scalar .long), ("title", .text "Home")]

/-- The rules find nothing wrong with the screen, and yet it gets no key. -/
theorem restructure_longNamed :
    (object [("view", .list [.map longNamed])]).check .default [] = .ok [] ∧
      restructure .default (object [("view", .list [.map longNamed])]) =
        .error (.notWritten .longInteger) := by
  have hcheck : (object [("view", .list [.map longNamed])]).check .default [] = .ok [] := by
    decide +kernel
  refine ⟨hcheck, restructure_eq_error hcheck fun r hok => ?_⟩
  obtain ⟨found, hfound, -⟩ := restructure_map_eq_ok_iff.mp hok
  obtain ⟨one, -, hone, -⟩ := (collections_cons_eq_ok_iff rfl).mp hfound
  obtain ⟨done, hlisted, -⟩ := collection_listed_eq_ok_iff.mp hone
  have hnames := (listed_eq_ok_iff.mp (show listed .default .screens [] 0
    ([longNamed].map Value.map) = .ok done from hlisted)).1
  have hname : Scalar.long.hasText = true := hnames longNamed List.mem_cons_self
  rw [Scalar.hasText_long] at hname
  cases hname

end Canonical

end Wireframe
