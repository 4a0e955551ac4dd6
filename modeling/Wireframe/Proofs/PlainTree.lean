import Mathlib.Data.List.Forall2
import Mathlib.Tactic
import Wireframe.Proofs.Fitting

/-!
# Plain trees of elements

The plain tree of a record is a mapping that has every attribute of the record under its
name.  An attribute that is null may be left out, which looks the same to whoever takes
absent attributes for null.
-/

namespace Wireframe

namespace Element

theorem toValues_eq_map (nulls : Bool) (items : List Element) :
    toValues nulls items = items.map (toValue nulls) := by
  induction items with
  | nil => rfl
  | cons e es ih => simp [toValues, ih]

theorem toEntries_eq_named (nulls : Bool) (entries : List (String × Element)) :
    toEntries nulls entries = Entries.named (entries.map fun e => (e.1, e.2.toValue nulls)) := by
  induction entries with
  | nil => rfl
  | cons e es ih =>
      obtain ⟨name, x⟩ := e
      simpa [toEntries, Entries.named] using ih

theorem toAttributes_eq_named (nulls : Bool) (attributes : List (String × Element)) :
    toAttributes nulls attributes =
      Entries.named ((attributes.filter fun x => nulls || !x.2.isNull).map fun x =>
        (x.1, x.2.toValue nulls)) := by
  induction attributes with
  | nil => rfl
  | cons a rest ih =>
      obtain ⟨name, x⟩ := a
      cases hkept : nulls || !x.isNull with
      | true => simpa [toAttributes, Entries.named, hkept] using ih
      | false => simpa [toAttributes, hkept] using ih

@[simp] theorem toValue_list (nulls : Bool) (items : List Element) :
    (Element.list items).toValue nulls = .list (items.map (toValue nulls)) := by
  rw [toValue, toValues_eq_map]

@[simp] theorem toValue_table (nulls : Bool) (entries : List (String × Element)) :
    (Element.table entries).toValue nulls =
      .map (Entries.named (entries.map fun e => (e.1, e.2.toValue nulls))) := by
  rw [toValue, toEntries_eq_named]

theorem eq_null_of_toValue
    (nulls : Bool) {e : Element} (habsent : (e.toValue nulls).isPresent = false) :
    e = .null := by
  cases e with
  | value v =>
      cases v with
      | scalar s =>
          cases s <;> first | rfl | simp [toValue, Value.isPresent] at habsent
      | _ => simp [toValue, Value.isPresent] at habsent
  | _ => simp [toValue, Value.isPresent] at habsent

theorem eq_null_of_isNull
    {e : Element} (hnull : e.isNull = true) :
    e = .null := by
  unfold isNull at hnull
  split at hnull
  · rfl
  · contradiction

theorem admitsNull_of_fits
    {s : Shape} (hfits : Fits s .null) :
    s.admitsNull = true := by
  unfold Shape.admitsNull
  cases hfits with
  | null hnull => simp [hnull]
  | anything v hk => simp [hk]

theorem isPresent_of_fits
    (nulls : Bool) {s : Shape} {e : Element} (hfits : Fits s e) (hs : s.admitsNull = false) :
    (e.toValue nulls).isPresent = true := by
  by_contra habsent
  have hnull : e = .null := eq_null_of_toValue nulls (by simpa using habsent)
  subst hnull
  have hadmits := admitsNull_of_fits hfits
  rw [hs] at hadmits
  contradiction

/-! ## What plain trees keep -/

mutual

/-- The element without extras that are null, if nulls are left out. -/
def kept (nulls : Bool) : Element → Element
  | value v => value v
  | list items => list (keptItems nulls items)
  | table entries => table (keptEntries nulls entries)
  | record t attributes extras =>
    record t (keptEntries nulls attributes) (extras.filter fun x => nulls || x.2.isPresent)

def keptItems (nulls : Bool) : List Element → List Element
  | [] => []
  | e :: es => kept nulls e :: keptItems nulls es

def keptEntries (nulls : Bool) : List (String × Element) → List (String × Element)
  | [] => []
  | (name, e) :: es => (name, kept nulls e) :: keptEntries nulls es

end

mutual

/-- Whether every record in an element passes a test. -/
def everyRecord (p : RecordType → List (String × Element) → List (String × Value) → Bool) :
    Element → Bool
  | value _ => true
  | list items => everyRecordOfItems p items
  | table entries => everyRecordOfEntries p entries
  | record t attributes extras => p t attributes extras && everyRecordOfEntries p attributes

def everyRecordOfItems (p : RecordType → List (String × Element) → List (String × Value) → Bool) :
    List Element → Bool
  | [] => true
  | e :: es => everyRecord p e && everyRecordOfItems p es

def everyRecordOfEntries
    (p : RecordType → List (String × Element) → List (String × Value) → Bool) :
    List (String × Element) → Bool
  | [] => true
  | (_, e) :: es => everyRecord p e && everyRecordOfEntries p es

end

theorem keptItems_eq_map (nulls : Bool) (items : List Element) :
    keptItems nulls items = items.map (kept nulls) := by
  induction items with
  | nil => rfl
  | cons e es ih => rw [keptItems, ih, List.map_cons]

theorem keptEntries_eq_map (nulls : Bool) (entries : List (String × Element)) :
    keptEntries nulls entries = entries.map fun e => (e.1, e.2.kept nulls) := by
  induction entries with
  | nil => rfl
  | cons e es ih => rw [keptEntries, ih, List.map_cons]

@[simp] theorem kept_list (nulls : Bool) (items : List Element) :
    (Element.list items).kept nulls = .list (items.map (kept nulls)) := by
  rw [kept, keptItems_eq_map]

@[simp] theorem kept_table (nulls : Bool) (entries : List (String × Element)) :
    (Element.table entries).kept nulls = .table (entries.map fun e => (e.1, e.2.kept nulls)) := by
  rw [kept, keptEntries_eq_map]

theorem kept_record
    (nulls : Bool) (t : RecordType) (attributes : List (String × Element))
    (extras : List (String × Value)) :
    (Element.record t attributes extras).kept nulls =
      .record t (attributes.map fun x => (x.1, x.2.kept nulls))
        (extras.filter fun x => nulls || x.2.isPresent) := by
  rw [kept, keptEntries_eq_map]

/-- Whether no extra is null. -/
def hasFullExtras (_ : RecordType) (_ : List (String × Element))
    (extras : List (String × Value)) : Bool :=
  extras.all fun x => x.2.isPresent

/-- Whether no extra would be taken for an attribute that is null and left out. -/
def hasClearExtras (t : RecordType) (attributes : List (String × Element))
    (extras : List (String × Value)) : Bool :=
  (t.attributes.zip attributes).all fun p =>
    !p.2.2.isNull || extras.all fun x => !x.2.isPresent || !p.1.spellings.contains x.1

section EveryRecord

variable {p : RecordType → List (String × Element) → List (String × Value) → Bool}

theorem everyRecord_list
    {items : List Element} :
    (Element.list items).everyRecord p = true ↔ ∀ e ∈ items, e.everyRecord p = true := by
  rw [everyRecord]
  induction items with
  | nil => simp [everyRecordOfItems]
  | cons e es ih => simp [everyRecordOfItems, ih]

theorem everyRecordOfEntries_iff
    {entries : List (String × Element)} :
    everyRecordOfEntries p entries = true ↔ ∀ e ∈ entries, e.2.everyRecord p = true := by
  induction entries with
  | nil => simp [everyRecordOfEntries]
  | cons e es ih => rw [everyRecordOfEntries, Bool.and_eq_true, ih, List.forall_mem_cons]

theorem everyRecord_table
    {entries : List (String × Element)} :
    (Element.table entries).everyRecord p = true ↔ ∀ e ∈ entries, e.2.everyRecord p = true := by
  rw [everyRecord, everyRecordOfEntries_iff]

theorem everyRecord_record
    {t : RecordType} {attributes : List (String × Element)} {extras : List (String × Value)} :
    (Element.record t attributes extras).everyRecord p = true ↔
      p t attributes extras = true ∧ ∀ x ∈ attributes, x.2.everyRecord p = true := by
  rw [everyRecord, Bool.and_eq_true, everyRecordOfEntries_iff]

end EveryRecord

mutual

/-- An element without null extras keeps all that it has. -/
theorem kept_eq_self
    {nulls : Bool} :
    ∀ {e : Element}, (nulls = false → e.everyRecord hasFullExtras = true) → e.kept nulls = e
  | value _, _ => rfl
  | list items, hfull => by
    rw [kept_list, keptItems_eq_self fun h => everyRecord_list.mp (hfull h)]
  | table entries, hfull => by
    rw [kept_table, keptEntries_eq_self fun h => everyRecord_table.mp (hfull h)]
  | record t attributes extras, hfull => by
    have hextras : extras.filter (fun x => nulls || x.2.isPresent) = extras := by
      refine List.filter_eq_self.mpr fun x hx => ?_
      cases nulls with
      | true => rfl
      | false => exact List.all_eq_true.mp (everyRecord_record.mp (hfull rfl)).1 x hx
    rw [kept_record, hextras, keptEntries_eq_self fun h => (everyRecord_record.mp (hfull h)).2]

theorem keptItems_eq_self
    {nulls : Bool} :
    ∀ {items : List Element},
      (nulls = false → ∀ e ∈ items, e.everyRecord hasFullExtras = true) →
        items.map (kept nulls) = items
  | [], _ => rfl
  | e :: es, hfull => by
    simp only [List.forall_mem_cons] at hfull
    rw [List.map_cons, kept_eq_self fun h => (hfull h).1, keptItems_eq_self fun h => (hfull h).2]

theorem keptEntries_eq_self
    {nulls : Bool} :
    ∀ {entries : List (String × Element)},
      (nulls = false → ∀ e ∈ entries, e.2.everyRecord hasFullExtras = true) →
        (entries.map fun e => (e.1, e.2.kept nulls)) = entries
  | [], _ => rfl
  | (name, e) :: es, hfull => by
    simp only [List.forall_mem_cons] at hfull
    rw [List.map_cons, kept_eq_self fun h => (hfull h).1,
      keptEntries_eq_self fun h => (hfull h).2]

end

@[simp] theorem kept_true (e : Element) : e.kept true = e :=
  kept_eq_self fun h => by cases h

theorem zip_kept
    {nulls : Bool} {as : List Attribute} {attributes : List (String × Element)} {a : Attribute}
    {y : String × Element}
    (hmem : (a, y) ∈ as.zip (attributes.map fun x => (x.1, x.2.kept nulls))) :
    ∃ x, (a, x) ∈ as.zip attributes ∧ y = (x.1, x.2.kept nulls) := by
  rw [List.zip_map_right, List.mem_map] at hmem
  obtain ⟨⟨b, x⟩, hx, heq⟩ := hmem
  cases heq
  exact ⟨x, hx, rfl⟩

/-- What is kept fits wherever the whole did. -/
theorem Fits.kept
    {s : Shape} {e : Element} (hfits : Fits s e) (nulls : Bool) :
    Fits s (e.kept nulls) := by
  induction hfits with
  | null hnull => exact .null hnull
  | anything v hk => exact .anything v hk
  | text x hk => exact .text x hk
  | word x hk hx => exact .word x hk hx
  | flag b hk => exact .flag b hk
  | integer i hk hleast htext => exact .integer i hk hleast htext
  | oneOf i hk hi => exact .oneOf i hk hi
  | number d hk => exact .number d hk
  | list hk hitem hitems ih =>
      rw [kept_list]
      exact .list hk hitem (List.forall_mem_map.mpr ih)
  | table hk hentry hnames hentries ih =>
      rw [kept_table]
      refine .table hk hentry ?_ (List.forall_mem_map.mpr ih)
      rw [List.map_map]
      exact hnames
  | @record s k t attributes extras hk hholds hnames hextras htag hattributes ih =>
      rw [kept_record]
      refine .record hk hholds ?_ ?_ ?_ ?_
      · rw [List.map_map]
        exact hnames
      · unfold ExtrasFit at hextras ⊢
        split_ifs with ht
        · rw [if_pos ht] at hextras
          exact fun x hx => hextras x (List.mem_of_mem_filter hx)
        · rw [if_neg ht] at hextras
          rw [hextras]
          rfl
      · intro hfield ht
        obtain ⟨tag, hmem, hunknown⟩ := htag hfield ht
        exact ⟨tag, List.mem_map.mpr ⟨_, hmem, rfl⟩, hunknown⟩
      · intro a y hmem
        obtain ⟨x, hx, rfl⟩ := zip_kept hmem
        exact ih a x hx

/-! ## Records -/

/-- The entries of the plain tree of a record. -/
def dump (nulls : Bool) (attributes : List (String × Element))
    (extras : List (String × Value)) : Entries :=
  Entries.named ((attributes.filter fun x => nulls || !x.2.isNull).map fun x =>
      (x.1, x.2.toValue nulls)) ++
    Entries.named (extras.filter fun x => nulls || x.2.isPresent)

theorem toValue_record
    (nulls : Bool) (t : RecordType) (attributes : List (String × Element))
    (extras : List (String × Value)) :
    (Element.record t attributes extras).toValue nulls = .map (dump nulls attributes extras) := by
  rw [toValue, toAttributes_eq_named]
  rfl

/-- With nulls kept, the plain tree has all attributes and all extras. -/
theorem dump_true
    (attributes : List (String × Element)) (extras : List (String × Value)) :
    dump true attributes extras =
      Entries.named (attributes.map (fun x => (x.1, x.2.toValue true)) ++ extras) := by
  simp [dump, Entries.named_append]

section Dump

variable {t : RecordType} {attributes : List (String × Element)} {extras : List (String × Value)}
  (hrecord : RecordFits t attributes extras) {a : Attribute} {x : String × Element}
  (nulls : Bool)

include hrecord

theorem get?_extras_eq_none
    {name : String} (hname : name ∈ t.names) :
    Entries.get? name (Entries.named (extras.filter fun x => nulls || x.2.isPresent)) = none := by
  refine Entries.get?_named_of_not_mem fun hmem => hrecord.not_mem_extras hname ?_
  obtain ⟨x, hx, heq⟩ := List.mem_map.mp hmem
  exact List.mem_map.mpr ⟨x, List.mem_of_mem_filter hx, heq⟩

/-- An attribute is under its name unless it is null and nulls are left out. -/
theorem get?_dump
    (hmem : (a, x) ∈ t.attributes.zip attributes) :
    Entries.get? a.name (dump nulls attributes extras) =
      if nulls || !x.2.isNull then some (x.2.toValue nulls) else none := by
  have hname := hrecord.name_of_mem_zip hmem
  have hx := (List.of_mem_zip hmem).2
  have hextras := get?_extras_eq_none hrecord nulls (t.name_mem (List.of_mem_zip hmem).1)
  have hnodup : (((attributes.filter fun x => nulls || !x.2.isNull).map fun x =>
      (x.1, x.2.toValue nulls)).map Prod.fst).Nodup := by
    rw [List.map_map]
    exact hrecord.nodup_names.sublist (List.filter_sublist.map _)
  rw [dump, Entries.get?_append, hextras, Option.or_none, ← hname]
  split_ifs with hkept
  · exact Entries.get?_named_of_mem hnodup
      (List.mem_map.mpr ⟨x, List.mem_filter.mpr ⟨hx, hkept⟩, rfl⟩)
  · refine Entries.get?_named_of_not_mem fun hfound => hkept ?_
    rw [List.map_map, List.mem_map] at hfound
    obtain ⟨y, hy, heq⟩ := hfound
    have hsame : y = x :=
      List.inj_on_of_nodup_map hrecord.nodup_names (List.mem_of_mem_filter hy) hx heq
    exact hsame ▸ (List.mem_filter.mp hy).2

theorem getD_dump
    (hmem : (a, x) ∈ t.attributes.zip attributes) :
    (dump nulls attributes extras).getD a.name = x.2.toValue nulls := by
  rw [Entries.getD, get?_dump hrecord nulls hmem]
  split_ifs with hkept
  · rfl
  · simp only [Bool.or_eq_true, Bool.not_eq_true', not_or, Bool.not_eq_false] at hkept
    rw [eq_null_of_isNull hkept.2]
    rfl

theorem get?_dump_eq_none
    {name : String} (hname : name ∉ t.names)
    (hextras : name ∉ (extras.filter fun x => nulls || x.2.isPresent).map Prod.fst) :
    Entries.get? name (dump nulls attributes extras) = none := by
  rw [dump, Entries.get?_append, Entries.get?_named_of_not_mem, Entries.get?_named_of_not_mem]
  · rfl
  · exact hextras
  · intro hmem
    rw [List.map_map, List.mem_map] at hmem
    obtain ⟨x, hx, rfl⟩ := hmem
    exact hname (hrecord.names ▸ List.mem_map_of_mem (List.mem_of_mem_filter hx))

end Dump

/-- The plain tree of a record of a type, seen as a mapping. -/
structure IsDump (nulls : Bool) (t : RecordType) (e : Element) (raw : Entries) : Prop where
  toValue : e.toValue nulls = .map raw
  written : ∀ a ∈ t.attributes, ∃ f, e.attribute? a.name = some f ∧ Fits a.shape f ∧
    raw.getD a.name = f.toValue nulls
  absent : t ≠ .field .unrecognized → ∀ name, name ∉ t.names → raw.getD name = .null

theorem RecordFits.isDump
    {t : RecordType} {attributes : List (String × Element)} {extras : List (String × Value)}
    (hrecord : RecordFits t attributes extras) (nulls : Bool) :
    IsDump nulls t (.record t attributes extras) (dump nulls attributes extras) where
  toValue := toValue_record _ _ _ _
  written := by
    intro a ha
    obtain ⟨x, hx⟩ := hrecord.exists_mem_zip ha
    exact ⟨x.2, hrecord.attribute?_of_mem hx, hrecord.fits a x hx, getD_dump hrecord nulls hx⟩
  absent := by
    intro ht name hname
    rw [Entries.getD, get?_dump_eq_none hrecord nulls hname (by simp [hrecord.extras_eq_nil ht])]
    rfl

theorem exists_isDump
    {t : RecordType} {e : Element} (hfits : Fits (.one (.record t)) e) (nulls : Bool) :
    ∃ raw, IsDump nulls t e raw := by
  obtain ⟨attributes, extras, rfl, hrecord⟩ := hfits.admits_one
  exact ⟨_, hrecord.isDump nulls⟩

theorem IsDump.has
    {nulls : Bool} {t : RecordType} {e : Element} {raw : Entries} (hdump : IsDump nulls t e raw)
    {names : List String} (hneeds : ∀ name ∈ names, t.Needs name) :
    raw.Has names := by
  intro name hname
  obtain ⟨a, ha, rfl, hshape⟩ := hneeds name hname
  obtain ⟨f, -, hfits, hget⟩ := hdump.written a ha
  rw [hget]
  exact isPresent_of_fits nulls hfits hshape

namespace IsDump

variable {nulls : Bool} {t : RecordType} {e f : Element} {raw : Entries}
  (hdump : IsDump nulls t e raw) {a : Attribute} (ha : a ∈ t.attributes)
  (hattribute : e.attribute? a.name = some f)

include hdump ha hattribute

theorem fits : Fits a.shape f := by
  obtain ⟨g, hg, hfits, -⟩ := hdump.written a ha
  exact Option.some.inj (hattribute.symm.trans hg) ▸ hfits

theorem getD : raw.getD a.name = f.toValue nulls := by
  obtain ⟨g, hg, -, hget⟩ := hdump.written a ha
  exact Option.some.inj (hattribute.symm.trans hg) ▸ hget

end IsDump

theorem exists_items_of_dump
    {nulls : Bool} {t : RecordType} {e : Element} {raw : Entries} (hdump : IsDump nulls t e raw)
    {a : Attribute} (ha : a ∈ t.attributes) {k : Kind} (hkinds : a.shape.kinds = [.listOf k]) :
    (a.shape.nullable = true ∧ e.attribute? a.name = some .null ∧ raw.getD a.name = .null) ∨
      ∃ items, e.attribute? a.name = some (.list items) ∧
        raw.getD a.name = .list (items.map (toValue nulls)) ∧ ∀ x ∈ items, Fits (.one k) x := by
  obtain ⟨f, hattribute, hfits, hget⟩ := hdump.written a ha
  rcases hfits.admits_of_single hkinds with ⟨hnull, rfl⟩ | ⟨items, rfl, hitems⟩
  · exact .inl ⟨hnull, hattribute, hget⟩
  · rw [toValue_list] at hget
    exact .inr ⟨items, hattribute, hget, hitems⟩

theorem mayHave_of_dump
    {nulls : Bool} {t : RecordType} {e : Element} {raw : Entries} (hdump : IsDump nulls t e raw)
    {a : Attribute} (ha : a ∈ t.attributes) {k : Kind} (hkinds : a.shape.kinds = [.listOf k])
    {P : Value → Prop}
    (hitems : ∀ items, e.attribute? a.name = some (.list items) →
      ∀ x ∈ items, Fits (.one k) x → P (x.toValue nulls)) :
    raw.MayHave a.name P := by
  intro hpresent
  rcases exists_items_of_dump hdump ha hkinds with ⟨-, -, hnull⟩ | ⟨items, he, hlist, hfits⟩
  · rw [hnull] at hpresent
    cases hpresent
  · refine ⟨_, by rw [hlist]; rfl, ?_⟩
    rw [List.forall_mem_map]
    exact fun x hx => hitems items he x hx (hfits x hx)

end Element

end Wireframe
