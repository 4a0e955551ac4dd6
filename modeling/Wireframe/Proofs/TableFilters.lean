import Mathlib.Tactic
import Wireframe.Proofs.ColumnTables

/-!
# Filters of tables from names

A name of a filter is for search if it holds a keyword.  The look for a word goes on behind every
place where the word is only a part of another one, so it finds the word wherever the text can be
cut around it.  The names that are not for search are the filters, in their order.  Columns and
filters are numbered apart, and every filter is about the column with its own number, so a filter
has no column if it comes behind as many filters as there are columns.
-/

namespace Wireframe

open Text

namespace Value

/-- What a mapping has under a name, null if it has nothing there. -/
def entry (name : String) : Value → Value
  | map entries => Entries.getD name entries
  | _ => null

end Value

namespace Settings

/-! ## Keywords -/

/-- A small letter or a digit. -/
def IsWordChar (c : Char) : Prop := ('a' ≤ c ∧ c ≤ 'z') ∨ ('0' ≤ c ∧ c ≤ '9')

def IsAscii (s : List Char) : Prop := ∀ c ∈ s, c.toNat < 0x80

/-- The keyword is in the text.  If it is in ASCII, it is there with no small letter and no
digit next to it. -/
def Holds (text keyword : List Char) : Prop :=
  (¬ IsAscii keyword ∧ keyword <:+: text) ∨
    (IsAscii keyword ∧ ∃ before after, text = before ++ keyword ++ after ∧
      (∀ c ∈ before.getLast?, ¬ IsWordChar c) ∧ ∀ c ∈ after.head?, ¬ IsWordChar c)

/-- The name holds one of the keywords, in whatever case the two are written. -/
def IsForSearch (settings : Settings) (name : String) : Prop :=
  ∃ keyword ∈ settings.searchKeywords, Holds (lower name).toList (lower keyword).toList

theorem isWordChar_iff {c : Char} : isWordChar c = true ↔ IsWordChar c := by
  simp [isWordChar, IsWordChar]

theorem isGap_iff {c : Option Char} : isGap c = true ↔ ∀ x ∈ c, ¬ IsWordChar x := by
  cases c with
  | none => simp [isGap]
  | some x => simp [isGap, ← isWordChar_iff]

theorem hasPart_iff {part s : List Char} : hasPart part s = true ↔ part <:+: s := by
  induction s with
  | nil => simp [hasPart]
  | cons c rest ih =>
      rw [hasPart, Bool.or_eq_true, ih, List.isPrefixOf_iff_prefix, List.infix_cons_iff]

theorem isWordHere_iff {word s : List Char} {before : Option Char} :
    (isGap before && word.isPrefixOf s && isGap (s.drop word.length).head?) = true ↔
      ∃ back, s = word ++ back ∧ isGap before = true ∧ isGap back.head? = true := by
  rw [Bool.and_eq_true, Bool.and_eq_true, List.isPrefixOf_iff_prefix]
  constructor
  · rintro ⟨⟨hbefore, back, rfl⟩, hback⟩
    rw [List.drop_left] at hback
    exact ⟨back, rfl, hbefore, hback⟩
  · rintro ⟨back, rfl, hbefore, hback⟩
    exact ⟨⟨hbefore, List.prefix_append word back⟩, by rwa [List.drop_left]⟩

theorem getLast?_cons_or (c : Char) (front : List Char) (before : Option Char) :
    (c :: front).getLast?.or before = front.getLast?.or (some c) := by
  rw [List.getLast?_cons]
  cases front.getLast? <;> rfl

/-- A word is found where a text can be cut around it.  What is before the text counts as the
end of what is cut off in front. -/
theorem hasWord_iff {word s : List Char} {before : Option Char} :
    hasWord word before s = true ↔
      ∃ front back, s = front ++ word ++ back ∧
        isGap (front.getLast?.or before) = true ∧ isGap back.head? = true := by
  induction s generalizing before with
  | nil =>
      rw [hasWord, Bool.or_false, isWordHere_iff]
      constructor
      · rintro ⟨back, hs, hgaps⟩
        exact ⟨[], back, hs, hgaps⟩
      · rintro ⟨front, back, hs, hgaps⟩
        obtain ⟨rfl, -⟩ := List.append_eq_nil_iff.mp (List.append_eq_nil_iff.mp hs.symm).1
        exact ⟨back, hs, hgaps⟩
  | cons c rest ih =>
      rw [hasWord, Bool.or_eq_true, isWordHere_iff, ih]
      constructor
      · rintro (⟨back, hs, hgaps⟩ | ⟨front, back, rfl, hgaps⟩)
        · exact ⟨[], back, hs, hgaps⟩
        · exact ⟨c :: front, back, rfl, by rwa [getLast?_cons_or]⟩
      · rintro ⟨front, back, hs, hgaps⟩
        cases front with
        | nil => exact .inl ⟨back, hs, hgaps⟩
        | cons d front =>
            obtain ⟨rfl, rfl⟩ := List.cons.inj hs
            rw [getLast?_cons_or] at hgaps
            exact .inr ⟨front, back, rfl, hgaps⟩

theorem matchesKeyword_iff {name keyword : List Char} :
    matchesKeyword name keyword = true ↔ Holds name keyword := by
  have hascii : (keyword.all fun c => c.toNat < 0x80) = true ↔ IsAscii keyword := by
    simp [IsAscii]
  unfold matchesKeyword Holds
  by_cases hkeyword : IsAscii keyword
  · rw [if_pos (hascii.mpr hkeyword), hasWord_iff]
    simp only [Option.or_none, isGap_iff, hkeyword, not_true, false_and, false_or, true_and]
  · rw [if_neg (mt hascii.mp hkeyword), hasPart_iff]
    simp only [hkeyword, not_false_iff, true_and, false_and, or_false]

theorem isSearch_iff {settings : Settings} {name : String} :
    settings.isSearch name = true ↔ settings.IsForSearch name := by
  unfold isSearch IsForSearch
  simp only [List.any_eq_true, matchesKeyword_iff]

instance (settings : Settings) : DecidablePred settings.IsForSearch :=
  fun _ => decidable_of_iff _ isSearch_iff

end Settings

namespace Canonical

/-! ## Filters -/

theorem map_zipIdx_place {α β : Type} (f : Nat → β) (xs : List α) :
    (xs.zipIdx.map fun x => f x.2) = (List.range xs.length).map f := by
  rw [List.range_eq_range', ← List.zipIdx_map_snd 0 xs, List.map_map]
  rfl

/-- The names of filters that do not turn on the search box. -/
def keptNames (settings : Settings) (names : List String) : List String :=
  names.filter fun n => ¬ settings.IsForSearch n

theorem filter_not_isSearch (settings : Settings) (names : List String) :
    (names.filter fun n => !settings.isSearch n) = keptNames settings names := by
  refine List.filter_congr fun n _ => ?_
  rw [Bool.eq_iff_iff, decide_eq_true_iff, ← Settings.isSearch_iff]
  simp

/-- The filters that are written for names. -/
def filterFields (settings : Settings) (names : List String) : List Value :=
  (keptNames settings names).zipIdx.map fun n => filterField n.1 n.2

theorem entry_fields (settings : Settings) (names : List String) :
    (filters settings names).entry "fields" = .list (filterFields settings names) := by
  rw [filterFields, ← filter_not_isSearch]
  rfl

theorem map_label_filterFields (settings : Settings) (names : List String) :
    (filterFields settings names).map (Value.entry "label") =
      (keptNames settings names).map Value.text := by
  conv_rhs => rw [← List.zipIdx_map_fst 0 (keptNames settings names), List.map_map]
  rw [filterFields, List.map_map]
  rfl

theorem length_filterFields (settings : Settings) (names : List String) :
    (filterFields settings names).length = (keptNames settings names).length := by
  rw [filterFields, List.length_map, List.length_zipIdx]

/-- What depends on the place of a filter only is the same as for the numbers of the filters. -/
theorem map_entry_filterFields
    {name : String} {f : Nat → Value} (hname : ∀ n i, (filterField n i).entry name = f i)
    (settings : Settings) (names : List String) :
    (filterFields settings names).map (Value.entry name) =
      (List.range (keptNames settings names).length).map f := by
  rw [filterFields, List.map_map, ← map_zipIdx_place]
  exact List.map_congr_left fun n _ => hname n.1 n.2

theorem entry_showSearch (settings : Settings) (names : List String) :
    (filters settings names).entry "show_search" =
      .flag (decide (∃ n ∈ names, settings.IsForSearch n)) := by
  have hshow : (filters settings names).entry "show_search" =
      .flag (decide ((names.filter fun n => !settings.isSearch n).length < names.length)) := rfl
  have hsearch : decide ((names.filter fun n => !settings.isSearch n).length < names.length) =
      decide (∃ n ∈ names, settings.IsForSearch n) := by
    rw [decide_eq_decide, List.length_filter_lt_length_iff_exists]
    simp [Settings.isSearch_iff]
  rw [hshow, hsearch]

/-- The filters have the names that are not for search, in their order and as often, and are
numbered one after the other.  The search box is shown if there is any other name. -/
theorem filters_are_kept (settings : Settings) (names : List String) :
    ∃ fields, (filters settings names).entry "fields" = .list fields ∧
      fields.map (Value.entry "label") =
        (names.filter fun n => ¬ settings.IsForSearch n).map Value.text ∧
      fields.map (Value.entry "id") =
        (List.range fields.length).map (fun i => .text ("filter_" ++ toString i)) ∧
      (filters settings names).entry "show_search" =
        .flag (decide (∃ n ∈ names, settings.IsForSearch n)) := by
  refine ⟨_, entry_fields settings names, map_label_filterFields settings names, ?_,
    entry_showSearch settings names⟩
  rw [length_filterFields]
  exact map_entry_filterFields (fun _ _ => rfl) settings names

/-- A keyword that is only part of a word is passed over, and the word behind it is found. -/
example : keptNames .default ["Research area", "Research / search", "Status"] =
    ["Research area", "Status"] := by
  decide +kernel

/-! ## Columns of filters -/

/-- The identifiers of the columns of a table. -/
def columnIds (t : Value) : List Value :=
  ((t.entry "columns").items?.getD []).map (Value.entry "id")

/-- What the filters of a table say which column they are about. -/
def filterColumns (t : Value) : List Value :=
  (((t.entry "filters").entry "fields").items?.getD []).map (Value.entry "column")

theorem columnIds_tableOf
    (settings : Settings) (labels filterLabels : List String) (name : String) :
    columnIds (tableOf settings labels filterLabels name) =
      (List.range labels.length).map fun i => .text (numbered "col" i) := by
  have hcolumns : (tableOf settings labels filterLabels name).entry "columns" =
      .list (labels.zipIdx.map fun c => column c.1 c.2) := rfl
  rw [columnIds, hcolumns, ← map_zipIdx_place]
  exact List.map_map

/-- The names of the filters that a table gets. -/
def tableFilters (settings : Settings) (filterNames : Value) : List String :=
  keptNames settings ((filterNames.items?.getD []).map Value.render)

theorem filterColumns_tableOf
    (settings : Settings) (labels filterLabels : List String) (name : String) :
    filterColumns (tableOf settings labels filterLabels name) =
      (List.range (keptNames settings filterLabels).length).map
        fun i => .text (numbered "col" i) := by
  obtain ⟨id, label, htable⟩ := exists_tableOf_eq settings labels filterLabels name
  have hfilters : (tableOf settings labels filterLabels name).entry "filters" =
      Entries.getD "filters" (Entries.named (filteringOf settings filterLabels)) := by
    rw [htable]
    rfl
  rw [filterColumns, hfilters, filteringOf]
  cases filterLabels with
  | nil => rfl
  | cons first rest =>
      have hwritten : Entries.getD "filters" (Entries.named
          [("filters", filters settings (first :: rest))]) =
            filters settings (first :: rest) := rfl
      simp only [List.isEmpty_cons, Bool.false_eq_true, if_false, hwritten, entry_fields]
      exact map_entry_filterFields (fun _ _ => rfl) settings _

theorem text_numbered_mem_iff {stem : String} {i n : Nat} :
    Value.text (numbered stem i) ∈ (List.range n).map (fun j => Value.text (numbered stem j)) ↔
      i < n := by
  rw [List.mem_map_of_injective fun i j h => numbered_injective stem (by simpa using h),
    List.mem_range]

/-- A filter of a table is about one of its columns if it comes behind fewer filters than there
are columns, and only then.  So all filters are if there are no more of them than columns. -/
theorem filters_refer_iff
    {settings : Settings} {columns : List Value} {filterNames screenName t : Value}
    (htable : table settings columns filterNames screenName = .ok t) :
    (∀ i c, (filterColumns t)[i]? = some c → (c ∈ columnIds t ↔ i < columns.length)) ∧
      ((∀ c ∈ filterColumns t, c ∈ columnIds t) ↔
        (tableFilters settings filterNames).length ≤ columns.length) := by
  obtain ⟨-, rfl⟩ := table_eq_ok_iff.mp htable
  rw [filterColumns_tableOf, columnIds_tableOf, List.length_map, tableFilters]
  constructor
  · intro i c hc
    rw [List.getElem?_map, Option.map_eq_some_iff] at hc
    obtain ⟨j, hj, rfl⟩ := hc
    obtain ⟨hi, hplace⟩ := List.getElem?_eq_some_iff.mp hj
    rw [List.getElem_range] at hplace
    rw [text_numbered_mem_iff, hplace]
  · simp only [List.forall_mem_map, text_numbered_mem_iff, List.mem_range]
    exact forall_lt_iff_le

/-- Two filters and two columns, the third filter being for search. -/
theorem filters_refer_iff_searched :
    ∃ t, table .default [.text "Name", .integer 3]
        (.list [.text "Status", .text "Keyword", .text "Owner"]) (.text "Users") = .ok t ∧
      (filterColumns t).length = 2 ∧ ∀ c ∈ filterColumns t, c ∈ columnIds t := by
  obtain ⟨t, htable⟩ : ∃ t, table .default [.text "Name", .integer 3]
      (.list [.text "Status", .text "Keyword", .text "Owner"]) (.text "Users") = .ok t :=
    ⟨_, rfl⟩
  have hkept : tableFilters .default (.list [.text "Status", .text "Keyword", .text "Owner"]) =
      ["Status", "Owner"] := by decide +kernel
  refine ⟨t, htable, ?_, (filters_refer_iff htable).2.mpr (by rw [hkept]; decide)⟩
  obtain ⟨-, rfl⟩ := table_eq_ok_iff.mp htable
  rw [filterColumns_tableOf, List.length_map, List.length_range]
  exact congrArg List.length hkept

/-- The second filter of a table with one column is about a column that is not there. -/
theorem exists_filter_without_column :
    ∃ t, table .default [.text "Name"] (.list [.text "Status", .text "Owner"])
        (.text "Users") = .ok t ∧
      ¬ ∀ c ∈ filterColumns t, c ∈ columnIds t := by
  have hkept : keptNames .default ["Status", "Owner"] = ["Status", "Owner"] := by decide +kernel
  refine ⟨_, rfl, fun hall => ?_⟩
  have hsecond := hall (.text (numbered "col" 1)) ?_
  · have hfirst := (columnIds_tableOf .default ["Name"] ["Status", "Owner"] "Users") ▸ hsecond
    exact absurd (text_numbered_mem_iff.mp hfirst) (by decide)
  · have hcolumns := filterColumns_tableOf .default ["Name"] ["Status", "Owner"] "Users"
    rw [hkept] at hcolumns
    exact hcolumns ▸ List.mem_map.mpr ⟨1, by decide, rfl⟩

end Canonical

end Wireframe
