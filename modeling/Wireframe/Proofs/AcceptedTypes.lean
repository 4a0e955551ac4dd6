import Mathlib.Data.Set.List
import Mathlib.Tactic
import Wireframe.Proofs.FieldAttributes
import Wireframe.Proofs.Trimming

/-!
# Accepted types

The types that a field for uploads accepts may be written in one text, with commas between them.
Every text is made of pieces with commas between them, each of which is an item with blanks around
it, or blanks only.  The field accepts the items of the pieces, in their order, however the text
is taken for pieces.  So the items are got back from any text that they are joined to.
-/

namespace Wireframe

open Text

/-! ## Lists in a text -/

namespace CommaList

/-- An item of a list that is written in a text. -/
structure Item where
  text : String
  ne_empty : text ≠ ""
  no_comma : ',' ∉ text.toList
  head : ∀ c ∈ text.toList.head?, isBlank c = false
  last : ∀ c ∈ text.toList.getLast?, isBlank c = false

/-- What stands between two commas: an item with blanks around it, or blanks only. -/
structure Piece where
  before : String
  item? : Option Item
  after : String
  before_blank : ∀ c ∈ before.toList, isBlank c = true
  after_blank : ∀ c ∈ after.toList, isBlank c = true

namespace Piece

def content (p : Piece) : String := p.item?.elim "" Item.text

def write (p : Piece) : String := p.before ++ p.content ++ p.after

/-- The text with the pieces and with commas between them. -/
def join (pieces : List Piece) : String := ",".intercalate (pieces.map write)

def items (pieces : List Piece) : List String := pieces.filterMap fun p => p.item?.map Item.text

theorem toList_write (p : Piece) :
    p.write.toList = p.before.toList ++ p.content.toList ++ p.after.toList := by
  rw [write, String.toList_append, String.toList_append]

theorem trim_write (p : Piece) : trim isBlank p.write.toList = p.content.toList := by
  rw [toList_write, content]
  cases p.item? with
  | none =>
      refine trim_of_forall ?_
      simpa [or_imp, forall_and] using ⟨p.before_blank, p.after_blank⟩
  | some item =>
      refine trim_around p.before_blank p.after_blank ?_ item.head item.last
      exact fun hnil => item.ne_empty (String.toList_eq_nil_iff.mp hnil)

theorem no_comma_write (p : Piece) : ',' ∉ p.write.toList := by
  have hblank {s : String} (hs : ∀ c ∈ s.toList, isBlank c = true) : ',' ∉ s.toList :=
    fun hc => absurd (hs _ hc) (by decide)
  have hcontent : ',' ∉ p.content.toList := by
    rw [content]
    cases p.item? with
    | none => nofun
    | some item => exact item.no_comma
  rw [toList_write, List.mem_append, List.mem_append, not_or, not_or]
  exact ⟨⟨hblank p.before_blank, hcontent⟩, hblank p.after_blank⟩

theorem exists_item {s : List Char} (hs : ',' ∉ s) (hne : trim isBlank s ≠ []) :
    ∃ item : Item, item.text.toList = trim isBlank s := by
  have hcomma : ',' ∉ trim isBlank s := fun hmem =>
    hs ((List.dropWhile_suffix _).mem ((isPrefix_trim isBlank s).mem hmem))
  refine ⟨⟨.ofList (trim isBlank s), by simpa using hne, ?_, ?_, ?_⟩, String.toList_ofList⟩
  all_goals rw [String.toList_ofList]
  · exact hcomma
  · exact head?_trim isBlank s
  · exact getLast?_trim isBlank s

/-- A text without commas is a piece, and what trimming leaves of it is the item. -/
theorem exists_write_eq {s : List Char} (hs : ',' ∉ s) : ∃ p : Piece, p.write.toList = s := by
  obtain ⟨before, after, heq, hbefore, hafter⟩ := exists_around_trim isBlank s
  have hitem : ∃ item? : Option Item, (item?.elim "" Item.text).toList = trim isBlank s := by
    by_cases hnil : trim isBlank s = []
    · exact ⟨none, hnil.symm⟩
    · obtain ⟨item, hitem⟩ := exists_item hs hnil
      exact ⟨some item, hitem⟩
  obtain ⟨item?, hitem⟩ := hitem
  refine ⟨⟨.ofList before, item?, .ofList after, by rwa [String.toList_ofList],
    by rwa [String.toList_ofList]⟩, ?_⟩
  simp only [toList_write, content, hitem, String.toList_ofList, heq]

/-! ## Joining and splitting -/

theorem not_mem_of_mem_splitOn (x : Char) (s : List Char) : ∀ l ∈ s.splitOn x, x ∉ l := by
  induction s with
  | nil => simp
  | cons c s ih =>
      obtain ⟨piece, rest, hpieces⟩ := List.exists_cons_of_ne_nil (List.splitOn_ne_nil x s)
      rw [List.splitOn_cons_eq_if_modifyHead, hpieces, List.modifyHead_cons]
      rw [hpieces, List.forall_mem_cons] at ih
      split_ifs with hc
      · exact List.forall_mem_cons.mpr ⟨List.not_mem_nil, List.forall_mem_cons.mpr ih⟩
      · refine List.forall_mem_cons.mpr ⟨?_, ih.2⟩
        rw [List.mem_cons, not_or]
        exact ⟨fun hx => hc (by simp [hx]), ih.1⟩

theorem toList_join (pieces : List Piece) :
    (join pieces).toList = [','].intercalate (pieces.map fun p => p.write.toList) := by
  rw [join, String.toList_intercalate, List.map_map]
  rfl

/-- Every text is made of pieces. -/
theorem exists_join_eq (s : String) : ∃ pieces, join pieces = s := by
  have hrange : s.toList.splitOn ',' ∈ Set.range (List.map fun p : Piece => p.write.toList) := by
    rw [Set.range_list_map]
    exact fun l hl => exists_write_eq (not_mem_of_mem_splitOn ',' s.toList l hl)
  obtain ⟨pieces, hpieces⟩ := hrange
  refine ⟨pieces, String.toList_inj.mp ?_⟩
  rw [toList_join]
  exact hpieces ▸ List.intercalate_splitOn ','

/-- However pieces are joined, splitting the text gives their items. -/
theorem splitCommas_join (pieces : List Piece) :
    Reading.splitCommas (join pieces) = items pieces := by
  have hitems : ((pieces.map fun p => p.content.toList).filter (!·.isEmpty)).map String.ofList =
      items pieces := by
    unfold items
    induction pieces with
    | nil => rfl
    | cons p pieces ih =>
        rw [List.map_cons, List.filterMap_cons, ← ih, content]
        cases p.item? with
        | none => rfl
        | some item => simp [item.ne_empty]
  cases pieces with
  | nil => rfl
  | cons p rest =>
      have hsplit : (join (p :: rest)).toList.splitOn ',' =
          (p :: rest).map fun p => p.write.toList := by
        rw [toList_join]
        refine List.splitOn_intercalate ',' ?_ (List.cons_ne_nil _ _)
        exact List.forall_mem_map.mpr fun p _ => p.no_comma_write
      rw [← hitems, Reading.splitCommas, splitAt_eq_splitOnP, ← List.splitOn_eq_splitOnP, hsplit,
        List.map_map]
      simp only [Function.comp_def, trim_write]

end Piece

end CommaList

/-! ## Fields for uploads -/

namespace FieldType

open Attribute CommaList Reading

/-- The attribute in which a field for uploads lists what it accepts. -/
def acceptedTypes : Attribute := (may "accept" .commaList).spelled ["accepted_types", "accept"]

theorem acceptedTypes_mem : acceptedTypes ∈ (RecordType.field .fileUpload).attributes := by
  decide +kernel

/-- The accepted types that pieces of a text stand for. -/
def accepted (pieces : List Piece) : Element := .list ((Piece.items pieces).map .text)

/-- A field for uploads in which nothing is written but what it accepts. -/
def bareUpload (spelling s : String) : Entries :=
  [(.text "type", .text fileUpload.tag), (.text spelling, .text s)]

theorem yields_accepted
    {entries : Entries} {spelling : String} {pieces : List Piece}
    (htype : entries.getD "type" = .text fileUpload.tag)
    (hwritten : acceptedTypes.spelling? entries = some (spelling, .text (Piece.join pieces))) :
    entries.Yields acceptedTypes (accepted pieces) := by
  have hread : ofValue (.text (Piece.join pieces)) acceptedTypes.shape =
      .ok ⟨accepted pieces, true⟩ := by
    rw [accepted, ← Piece.splitCommas_join]
    rfl
  have hoffer : written? acceptedTypes (expand (.field fileUpload) entries.offers) =
      some (spelling, Offer.of (.text (Piece.join pieces))) := by
    rw [written?_congr fun s hs => find?_expand_of_several acceptedTypes_mem (by decide) hs _,
      written?_offers, hwritten]
    rfl
  exact yields_of_written (by decide) acceptedTypes_mem htype hoffer hread

theorem exists_bareUpload {spelling : String} (hspelling : spelling ∈ acceptedTypes.spellings)
    (s : String) :
    acceptedTypes.spelling? (bareUpload spelling s) = some (spelling, .text s) ∧
      ∃ field, (Value.map (bareUpload spelling s)).readAs .field = .ok field := by
  have hcases : spelling = "accepted_types" ∨ spelling = "accept" := by
    simpa [acceptedTypes, spelled] using hspelling
  rcases hcases with rfl | rfl <;> exact ⟨rfl, _, rfl⟩

/-- A text in which a field for uploads lists what it accepts is made of pieces, and whatever
pieces it is made of, the field accepts their items. -/
theorem accepted_of_text (s : String) :
    (∃ pieces, Piece.join pieces = s) ∧
    ∀ pieces, Piece.join pieces = s →
      (∀ (entries : Entries) (spelling : String),
        entries.getD "type" = .text fileUpload.tag →
        acceptedTypes.spelling? entries = some (spelling, .text s) →
        entries.Yields acceptedTypes (accepted pieces)) ∧
      ∀ spelling ∈ acceptedTypes.spellings, ∃ field,
        (Value.map (bareUpload spelling s)).readAs .field = .ok field ∧
          field.attribute? "accept" = some (accepted pieces) := by
  refine ⟨Piece.exists_join_eq s, ?_⟩
  rintro pieces rfl
  refine ⟨fun entries spelling htype hwritten => yields_accepted htype hwritten, ?_⟩
  intro spelling hspelling
  obtain ⟨hwritten, field, hfield⟩ := exists_bareUpload hspelling (Piece.join pieces)
  have hyields := yields_accepted rfl hwritten
  rw [Entries.Yields, hfield] at hyields
  exact ⟨field, hfield, hyields⟩

/-- Two items, of which the second holds a blank, with more commas and blanks than needed. -/
def looseList : List Piece :=
  [⟨" ", some ⟨".png", by decide, by decide, by simp [isBlank], by simp [isBlank]⟩, "",
      by simp [isBlank], by simp⟩,
    ⟨"", none, "", by simp, by simp⟩,
    ⟨"\t", none, "\u3000", by simp [isBlank], by simp [isBlank]⟩,
    ⟨"\u00a0", some ⟨"tar gz", by decide, by decide, by simp [isBlank], by simp [isBlank]⟩, " ",
      by simp [isBlank], by simp [isBlank]⟩]

def looseUpload : Entries :=
  [(.text "accept", .list [.text ".pdf"]), (.text "type", .text "file_upload"),
    (.text "accepted_types", .text " .png,,\t\u3000,\u00a0tar gz ")]

theorem accepted_of_text_looseList :
    Piece.join looseList = " .png,,\t\u3000,\u00a0tar gz " ∧
      acceptedTypes.spelling? looseUpload =
        some ("accepted_types", .text " .png,,\t\u3000,\u00a0tar gz ") ∧
      ∃ field bare, (Value.map looseUpload).readAs .field = .ok field ∧
        field.attribute? "accept" = some (.list [.text ".png", .text "tar gz"]) ∧
        (Value.map (bareUpload "accept" " .png,,\t\u3000,\u00a0tar gz ")).readAs .field =
          .ok bare ∧
        bare.attribute? "accept" = some (.list [.text ".png", .text "tar gz"]) := by
  have hjoin : Piece.join looseList = " .png,,\t\u3000,\u00a0tar gz " := by decide +kernel
  have hwritten : acceptedTypes.spelling? looseUpload =
      some ("accepted_types", .text " .png,,\t\u3000,\u00a0tar gz ") := rfl
  have hbuilt : ∃ field, (Value.map looseUpload).readAs .field = .ok field := ⟨_, rfl⟩
  obtain ⟨field, hfield⟩ := hbuilt
  obtain ⟨hyields, hbare⟩ := (accepted_of_text _).2 looseList hjoin
  have haccept := hyields looseUpload "accepted_types" rfl hwritten
  rw [Entries.Yields, hfield] at haccept
  obtain ⟨bare, hread, hbareAccept⟩ := hbare "accept" (by decide)
  exact ⟨hjoin, hwritten, field, bare, hfield, haccept, hread, hbareAccept⟩

end FieldType

end Wireframe
