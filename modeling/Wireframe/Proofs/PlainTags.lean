import Mathlib.Tactic
import Wireframe.Proofs.FlatGraphs
import Wireframe.Proofs.PlainLexemes
import Wireframe.Proofs.TimestampPatterns

/-!
# Tags of plain scalars

The tag of a plain scalar is that of the first resolver that takes its text.  Strict documents
have no resolver of timestamps.  No other resolver takes the text of a timestamp, which starts
with digits and a hyphen behind them, so without its resolver such a text is tagged as text.
-/

namespace Wireframe.Yaml

open Wireframe.Decimal

/-- A tag for plain texts that a pattern matches.  Only texts that start with one of some
characters are looked at, where the empty text starts with none. -/
structure Resolver where
  tag : Tag
  pattern : Pattern
  firsts : List (Option Char)

namespace Resolver

/-- A line feed behind what the pattern matches does not count. -/
def takes (r : Resolver) (text : List Char) : Bool :=
  r.firsts.contains text.head? &&
    (r.pattern.rmatch text || (text.getLast? == some '\n' && r.pattern.rmatch text.dropLast))

/-- The tag of the first resolver that takes a text. -/
def tagOf (rs : List Resolver) (text : List Char) : Tag :=
  ((rs.find? fun r => r.takes text).map tag).getD .str

def ofBool : Resolver :=
  ⟨.bool, .oneWord ["yes", "Yes", "YES", "no", "No", "NO", "true", "True", "TRUE", "false", "False",
      "FALSE", "on", "On", "ON", "off", "Off", "OFF"],
    ['y', 'Y', 'n', 'N', 't', 'T', 'f', 'F', 'o', 'O'].map some⟩

def ofFloat : Resolver :=
  ⟨.float, .real, ('-' :: '+' :: '.' :: Pattern.between '0' '9').map some⟩

def ofInt : Resolver :=
  ⟨.int, .integer, ('-' :: '+' :: Pattern.between '0' '9').map some⟩

def ofMerge : Resolver := ⟨.merge, .oneWord ["<<"], [some '<']⟩

def ofNull : Resolver :=
  ⟨.null, .oneWord ["~", "null", "Null", "NULL", ""], [some '~', some 'n', some 'N', none]⟩

def ofTimestamp : Resolver :=
  ⟨.timestamp, .timestamp, (Pattern.between '0' '9').map some⟩

def ofValue : Resolver := ⟨.value, .oneWord ["="], [some '=']⟩

def ofYaml : Resolver := ⟨.yaml, .oneWord ["!", "&", "*"], [some '!', some '&', some '*']⟩

/-- All resolvers in the order in which they are tried. -/
def standard : List Resolver :=
  [ofBool, ofFloat, ofInt, ofMerge, ofNull, ofTimestamp, ofValue, ofYaml]

/-- All resolvers but that of timestamps. -/
def strict : List Resolver := standard.filter fun r => r.tag ≠ .timestamp

/-- Texts that the pattern matches are looked at and do not hold line feeds. -/
def isFair (r : Resolver) : Bool :=
  (Pattern.heads r.pattern).all (fun c => r.firsts.contains (some c)) &&
    !(Pattern.letters r.pattern).contains '\n'

theorem isFair_of_mem : ∀ r ∈ standard, r.isFair = true := by
  simp only [standard, List.forall_mem_cons]
  refine ⟨?_, ?_, ?_, ?_, ?_, ?_, ?_, ?_, List.forall_mem_nil _⟩ <;> decide +kernel

variable {r : Resolver} {text : List Char}

/-- The first characters and a line feed at the end do not matter to a fair resolver. -/
theorem takes_iff (hr : r ∈ standard) (htext : Tag.dropLastBreak text ≠ []) :
    r.takes text = true ↔ Pattern.Matches r.pattern (Tag.dropLastBreak text) := by
  have hfair := isFair_of_mem r hr
  simp only [isFair, Bool.and_eq_true, List.all_eq_true, List.contains_iff_mem,
    Bool.not_eq_true', ← Bool.not_eq_true] at hfair
  obtain ⟨hfirsts, hbreak⟩ := hfair
  have hhead {c : Char} {rest : List Char} (hmatches : Pattern.Matches r.pattern (c :: rest)) :
      some c ∈ r.firsts := hfirsts c (Pattern.mem_heads hmatches)
  rw [takes, Bool.and_eq_true, Bool.or_eq_true, Bool.and_eq_true, List.contains_iff_mem,
    beq_iff_eq, ← Pattern.matches_iff_rmatch, ← Pattern.matches_iff_rmatch]
  unfold Tag.dropLastBreak at htext ⊢
  split_ifs at htext ⊢ with hlast
  · obtain ⟨c, rest, hrest⟩ := List.exists_cons_of_ne_nil htext
    have hsplit : text = (c :: rest) ++ ['\n'] :=
      hrest ▸ (List.dropLast_append_getLast? _ hlast).symm
    have hwhole : ¬ Pattern.Matches r.pattern text := fun hmatches =>
      hbreak (Pattern.mem_letters hmatches (hsplit ▸ List.mem_append_right _ (.head _)))
    rw [or_iff_right hwhole, and_iff_right hlast, hrest]
    refine and_iff_right_of_imp fun hmatches => ?_
    rw [hsplit]
    exact hhead hmatches
  · rw [or_iff_left fun h => hlast h.1]
    obtain ⟨c, rest, rfl⟩ := List.exists_cons_of_ne_nil htext
    exact and_iff_right_of_imp hhead

theorem tagOf_cons (r : Resolver) (rs : List Resolver) (text : List Char) :
    tagOf (r :: rs) text = if r.takes text then r.tag else tagOf rs text := by
  unfold tagOf
  rw [List.find?_cons]
  cases r.takes text <;> rfl

end Resolver

namespace Tag

open Resolver

/-! ## Tags of plain texts -/

/-- Nothing is left of a text without its last line feed if that is all of it. -/
theorem eq_of_dropLastBreak_eq_nil {text : List Char} (htext : dropLastBreak text = []) :
    text = [] ∨ text = ['\n'] := by
  unfold dropLastBreak at htext
  split_ifs at htext with hlast
  · right
    rw [← List.dropLast_append_getLast? _ hlast, htext]
    rfl
  · exact .inl htext

section Chain

variable {text : String} (hchars : dropLastBreak text.toList ≠ [])

include hchars

/-- A resolver takes the texts that its pattern matches, by whichever check this is told. -/
theorem takes_eq {r : Resolver} (hr : r ∈ Resolver.standard) {check : Bool}
    (hcheck : Pattern.Matches r.pattern (dropLastBreak text.toList) ↔ check = true) :
    r.takes text.toList = check := by
  rw [Bool.eq_iff_iff, takes_iff hr hchars]
  exact hcheck

theorem takes_oneWord {r : Resolver} (hr : r ∈ Resolver.standard) {words : List String}
    (hwords : r.pattern = .oneWord words) :
    r.takes text.toList = decide (String.ofList (dropLastBreak text.toList) ∈ words) := by
  refine takes_eq hchars hr ?_
  rw [hwords, Pattern.matches_oneWord, decide_eq_true_eq]

theorem takes_ofBool :
    ofBool.takes text.toList = isBoolText (String.ofList (dropLastBreak text.toList)) := by
  rw [takes_oneWord hchars (by simp [Resolver.standard]) rfl, isBoolText, List.contains_eq_mem]

theorem takes_ofNull :
    ofNull.takes text.toList = isNullText (String.ofList (dropLastBreak text.toList)) := by
  rw [takes_oneWord hchars (by simp [Resolver.standard]) rfl, isNullText, List.contains_eq_mem,
    decide_eq_decide]
  simp only [List.mem_cons, List.not_mem_nil, or_false]
  tauto

theorem takes_ofFloat : ofFloat.takes text.toList = isFloatText (dropLastBreak text.toList) :=
  takes_eq hchars (by simp [Resolver.standard]) Pattern.matches_real

theorem takes_ofInt : ofInt.takes text.toList = isIntText (dropLastBreak text.toList) :=
  takes_eq hchars (by simp [Resolver.standard]) Pattern.matches_integer

theorem takes_ofTimestamp :
    ofTimestamp.takes text.toList = Timestamp.isPlain (dropLastBreak text.toList) :=
  takes_eq hchars (by simp [Resolver.standard]) Pattern.matches_timestamp

theorem takes_ofMerge :
    ofMerge.takes text.toList = decide (String.ofList (dropLastBreak text.toList) = "<<") := by
  rw [takes_oneWord hchars (by simp [Resolver.standard]) rfl]
  simp only [List.mem_singleton]

theorem takes_ofValue :
    ofValue.takes text.toList = decide (String.ofList (dropLastBreak text.toList) = "=") := by
  rw [takes_oneWord hchars (by simp [Resolver.standard]) rfl]
  simp only [List.mem_singleton]

theorem takes_ofYaml :
    ofYaml.takes text.toList = decide (String.ofList (dropLastBreak text.toList) = "!" ∨
      String.ofList (dropLastBreak text.toList) = "&" ∨
        String.ofList (dropLastBreak text.toList) = "*") := by
  rw [takes_oneWord hchars (by simp [Resolver.standard]) rfl]
  simp only [List.mem_cons, List.not_mem_nil, or_false]

end Chain

/-- The tag of a plain text is that of the first resolver of the dialect that takes it. -/
theorem ofPlain_eq_tagOf (text : String) :
    ofPlain .standard text = tagOf Resolver.standard text.toList ∧
      ofPlain .strict text = tagOf Resolver.strict text.toList := by
  by_cases hchars : dropLastBreak text.toList = []
  · have htext : text = "" ∨ text = "\n" := by
      rw [← String.toList_inj, ← String.toList_inj]
      exact eq_of_dropLastBreak_eq_nil hchars
    rcases htext with rfl | rfl <;> decide +kernel
  · have hstrict : Resolver.strict =
        [ofBool, ofFloat, ofInt, ofMerge, ofNull, ofValue, ofYaml] := rfl
    have hempty : ¬ (dropLastBreak text.toList).isEmpty = true := by
      rwa [List.isEmpty_iff]
    simp only [hstrict, Resolver.standard, tagOf_cons, takes_ofBool hchars, takes_ofFloat hchars,
      takes_ofInt hchars, takes_ofMerge hchars, takes_ofNull hchars, takes_ofTimestamp hchars,
      takes_ofValue hchars, takes_ofYaml hchars, decide_eq_true_eq]
    unfold ofPlain
    simp only [if_neg hempty, Dialect.standard, Dialect.strict, Bool.true_and, Bool.false_and,
      Bool.false_eq_true, if_false]
    exact ⟨rfl, rfl⟩

end Tag

/-! ## Texts of timestamps -/

namespace Pattern

variable {P Q : Pattern} {s : List Char}

/-- A timestamp starts with digits, and a hyphen is behind them. -/
theorem exists_of_timestamp (hs : Matches timestamp s) :
    ∃ c digits rest, s = (c :: digits) ++ '-' :: rest ∧ ∀ d ∈ c :: digits, isDigit d = true := by
  have hyear {Q : Pattern} (hs : Matches (fourDigits * (.char '-' * Q)) s) :
      ∃ c digits rest, s = (c :: digits) ++ '-' :: rest ∧ ∀ d ∈ c :: digits, isDigit d = true := by
    obtain ⟨t, u, ht, hu, rfl⟩ := matches_mul.mp hs
    obtain ⟨hleast, -, hdigits⟩ := (spans_fourDigits t).mp ht
    cases t with
    | nil => cases hleast
    | cons c digits =>
        cases u with
        | nil => exact absurd hu matches_char_mul_nil
        | cons d rest =>
            obtain ⟨rfl, -⟩ := matches_char_mul_cons.mp hu
            exact ⟨c, digits, rest, rfl, hdigits⟩
  exact (matches_add.mp hs).elim hyear hyear

section Apart

variable (hs : Matches timestamp s)

include hs

theorem not_matches_of_avoids (hP : Avoids P (between '0' '9')) : ¬ Matches P s := by
  obtain ⟨c, digits, rest, rfl, hdigits⟩ := exists_of_timestamp hs
  exact hP.not_matches (mem_digits.mpr (hdigits c List.mem_cons_self))

theorem splitSign_of_timestamp : (splitSign s).2 = s := by
  obtain ⟨c, digits, rest, rfl, hdigits⟩ := exists_of_timestamp hs
  refine splitSign_of_not_mem fun hc => ?_
  have hdigit := hdigits c List.mem_cons_self
  simp only [List.mem_cons, List.not_mem_nil, or_false] at hc
  rcases hc with rfl | rfl <;> cases hdigit

/-- No part of an integer but its sign is a hyphen. -/
theorem not_matches_integer : ¬ Matches integer s := by
  rw [matches_integer_iff, splitSign_of_timestamp hs]
  obtain ⟨c, digits, rest, rfl, -⟩ := exists_of_timestamp hs
  intro hmatches
  exact absurd (mem_letters hmatches (List.mem_append_right _ List.mem_cons_self))
    (by decide +kernel)

/-- In front of a point a number has no hyphen but its sign. -/
theorem not_matches_point (hP : '-' ∉ letters P) (hpoint : '.' ∉ letters P) :
    ¬ Matches (P * (.char '.' * Q)) s := by
  obtain ⟨c, digits, rest, rfl, hdigits⟩ := exists_of_timestamp hs
  rw [matches_mul_char_mul hpoint]
  rintro ⟨tail, -, hwhole, -⟩
  refine hP (mem_letters hwhole ?_)
  have hbefore (d : Char) (hd : d ∈ c :: digits) : (d != '.') = true := by
    refine bne_iff_ne.mpr fun h => ?_
    have hdigit := hdigits d hd
    rw [h] at hdigit
    cases hdigit
  rw [List.takeWhile_append_of_pos hbefore, List.takeWhile_cons_of_pos (by decide)]
  exact List.mem_append_right _ List.mem_cons_self

theorem not_matches_real : ¬ Matches real s := by
  unfold real
  simp only [matches_add]
  rw [matches_sign_mul (by decide), matches_sign_mul (by decide), matches_sign_mul (by decide),
    splitSign_of_timestamp hs]
  rintro ((((h | h) | h) | h) | h)
  · exact not_matches_point hs (by decide) (by decide) h
  · exact not_matches_of_avoids hs (by decide) h
  · exact not_matches_point hs (by decide) (by decide) h
  · exact not_matches_of_avoids hs (by decide) h
  · exact not_matches_of_avoids hs (by decide) h

end Apart

end Pattern

namespace Resolver

variable {r : Resolver} {text : List Char}

theorem eq_ofTimestamp (hr : r ∈ standard) (htag : r.tag = .timestamp) : r = ofTimestamp := by
  simp only [standard, List.mem_cons, List.not_mem_nil, or_false] at hr
  rcases hr with rfl | rfl | rfl | rfl | rfl | rfl | rfl | rfl <;> first | rfl | cases htag

/-- No text is taken by the resolver of timestamps and by another one. -/
theorem not_takes_of_timestamp (hr : r ∈ standard) (hother : r.tag ≠ .timestamp)
    (hstamp : ofTimestamp.takes text = true) :
    r.takes text = false := by
  have htext : Tag.dropLastBreak text ≠ [] := by
    intro hnil
    rcases Tag.eq_of_dropLastBreak_eq_nil hnil with rfl | rfl <;>
      exact absurd hstamp (by decide +kernel)
  have hs : Pattern.Matches Pattern.timestamp (Tag.dropLastBreak text) :=
    (takes_iff (by simp [standard]) htext).mp hstamp
  rw [← Bool.not_eq_true, takes_iff hr htext]
  simp only [standard, List.mem_cons, List.not_mem_nil, or_false] at hr
  rcases hr with rfl | rfl | rfl | rfl | rfl | rfl | rfl | rfl
  · exact Pattern.not_matches_of_avoids hs (by decide +kernel)
  · exact Pattern.not_matches_real hs
  · exact Pattern.not_matches_integer hs
  · exact Pattern.not_matches_of_avoids hs (by decide +kernel)
  · exact Pattern.not_matches_of_avoids hs (by decide +kernel)
  · exact absurd rfl hother
  · exact Pattern.not_matches_of_avoids hs (by decide +kernel)
  · exact Pattern.not_matches_of_avoids hs (by decide +kernel)

/-- The tag of timestamps is that of the texts that their resolver takes. -/
theorem tagOf_standard_iff :
    tagOf standard text = .timestamp ↔ ofTimestamp.takes text = true := by
  constructor
  · intro htag
    unfold tagOf at htag
    cases hfind : standard.find? fun r => r.takes text with
    | none => simp [hfind] at htag
    | some r =>
        have hr : r = ofTimestamp :=
          eq_ofTimestamp (List.mem_of_find?_eq_some hfind) (by simpa [hfind] using htag)
        have htaken : r.takes text = true := by simpa using List.find?_some hfind
        exact hr ▸ htaken
  · intro hstamp
    have hother {r : Resolver} (hr : r ∈ standard) (htag : r.tag ≠ .timestamp) :
        ¬ r.takes text = true := by
      rw [not_takes_of_timestamp hr htag hstamp]
      exact Bool.false_ne_true
    simp only [standard, tagOf_cons]
    rw [if_neg (hother (r := ofBool) (by simp [standard]) (by decide)),
      if_neg (hother (r := ofFloat) (by simp [standard]) (by decide)),
      if_neg (hother (r := ofInt) (by simp [standard]) (by decide)),
      if_neg (hother (r := ofMerge) (by simp [standard]) (by decide)),
      if_neg (hother (r := ofNull) (by simp [standard]) (by decide)), if_pos hstamp]
    rfl

/-- Without their resolver the texts of timestamps are text, and nothing else changes. -/
theorem tagOf_strict :
    tagOf strict text =
      if tagOf standard text = .timestamp then .str else tagOf standard text := by
  have hfind : (strict.find? fun r => r.takes text) =
      standard.find? fun r => decide (r.tag ≠ .timestamp ∧ r.takes text = true) := by
    simp [strict, List.find?_filter]
  by_cases hstamp : ofTimestamp.takes text = true
  · have hnone : (strict.find? fun r => r.takes text) = none := by
      rw [hfind, List.find?_eq_none]
      intro r hr htaken
      rw [decide_eq_true_eq] at htaken
      have hnot := not_takes_of_timestamp hr htaken.1 hstamp
      rw [htaken.2] at hnot
      cases hnot
    rw [if_pos (tagOf_standard_iff.mpr hstamp), tagOf, hnone]
    rfl
  · have hsame : (strict.find? fun r => r.takes text) = standard.find? fun r => r.takes text := by
      rw [hfind]
      refine List.find?_congr fun r hr => ?_
      by_cases htag : r.tag = .timestamp
      · have hnot : r.takes text = false := by
          rw [eq_ofTimestamp hr htag]
          simpa using hstamp
        simp [htag, hnot]
      · simp [htag]
    rw [if_neg (mt tagOf_standard_iff.mp hstamp), tagOf, tagOf, hsame]

end Resolver

/-! ## Nodes that are text -/

namespace Graph

variable {g : Graph} {id : Nat} {text : String}

/-- A node is text: it is read as that, and that is what is made of it when a tree is built. -/
structure IsText (g : Graph) (id : Nat) (text : String) : Prop where
  tag : (g.node id).tag = .str
  content : (g.node id).content = .scalar text
  scalar : g.scalarOf id = .ok (some (.text text))
  made : ∀ tree, SharedTree.ofGraph .strict g = .ok tree →
    ∃ site, Builder.build .strict g.root (Site.start g) = .ok (tree.root, site) ∧
      site.containers = tree.containers ∧
        ∀ part, site.part? id = some part → part = .scalar (.text text)

theorem scalarOf_of_str
    (htag : (g.node id).tag = .str) (hcontent : (g.node id).content = .scalar text) :
    g.scalarOf id = .ok (some (.text text)) := by
  have hnode : Builder.node id (Site.start g) = .ok (g.node id, Site.start g) := rfl
  have htext : Builder.scalarText ((Site.start g).nodes.size + 1) id (Site.start g) =
      .ok (text, Site.start g) := by
    unfold Builder.scalarText
    rw [Builder.bind_of_eq hnode]
    dsimp only
    rw [hcontent]
    rfl
  have hget : (get : Builder Site) (Site.start g) = .ok (Site.start g, Site.start g) := rfl
  unfold scalarOf Builder.scalar?
  rw [Builder.bind_of_eq hnode, htag]
  dsimp only [Builder.reading?]
  rw [Builder.bind_of_eq hget, Builder.bind_of_eq htext]
  rfl

theorem isText_of_str
    (htag : (g.node id).tag = .str) (hcontent : (g.node id).content = .scalar text) :
    g.IsText id text where
  tag := htag
  content := hcontent
  scalar := scalarOf_of_str htag hcontent
  made tree htree := by
    obtain ⟨site, hbuild, hcontainers, -, hfills, -⟩ :=
      SharedTree.exists_site_of_ofGraph rfl htree
    refine ⟨site, hbuild, hcontainers, fun part hpart => ?_⟩
    rcases hfills.filled.own id part hpart with rfl | ⟨x, rfl, hkey⟩
    · have hknown := hfills.filled.known id hpart
      rw [htag] at hknown
      cases hknown
    · rw [hkey.eq_text htag hcontent]

end Graph

/-- Only timestamps change their meaning.  A plain text has the tag of the first resolver that
takes it.  Without the resolver of timestamps, the texts that it takes are text, and all other
texts keep their tags.  Wherever the text of a timestamp is a plain scalar of a document that
is read, there is a node that is just this text. -/
theorem Tag.timestamps_are_text (text : String) :
    Tag.ofPlain .standard text = Resolver.tagOf Resolver.standard text.toList ∧
      Tag.ofPlain .strict text = Resolver.tagOf Resolver.strict text.toList ∧
      Tag.ofPlain .strict text = (if Tag.ofPlain .standard text = .timestamp then .str
        else Tag.ofPlain .standard text) ∧
      (Tag.ofPlain .standard text = .timestamp ↔
        Resolver.ofTimestamp.takes text.toList = true) ∧
      ∀ (input : Input) (source : Source) (g : Graph) (before : List Lexeme) (start : Position),
        Resolver.ofTimestamp.takes text.toList = true → Source.ofInput input = .ok source →
          Reading.graph .strict input = .ok (some g) →
            (Lexemes.ofSource source).HasPlain before text start →
              ∃ id < g.nodes.size, g.IsText id text ∧
                (Lexeme.endsInAnchor before = false → (g.node id).start = start) := by
  obtain ⟨hstandard, hstrict⟩ := Tag.ofPlain_eq_tagOf text
  have hsame : Tag.ofPlain .strict text = if Tag.ofPlain .standard text = .timestamp then .str
      else Tag.ofPlain .standard text := by
    rw [hstandard, hstrict]
    exact Resolver.tagOf_strict
  have htimestamp : Tag.ofPlain .standard text = .timestamp ↔
      Resolver.ofTimestamp.takes text.toList = true := by
    rw [hstandard]
    exact Resolver.tagOf_standard_iff
  refine ⟨hstandard, hstrict, hsame, htimestamp, ?_⟩
  intro input source g before start htakes hsource hgraph hplain
  have hlexemes : Graph.ofLexemes .strict (Lexemes.ofSource source) = .ok (some g) := by
    unfold Reading.graph at hgraph
    rwa [hsource] at hgraph
  obtain ⟨id, hid, hnode⟩ := Graph.exists_isPlainNode hlexemes hplain
  have htag : (g.node id).tag = .str := by
    rw [hnode.tag, hsame, if_pos (htimestamp.mpr htakes)]
  exact ⟨id, hid, Graph.isText_of_str htag hnode.content, hnode.start⟩

/-- The time of a meeting. -/
def meeting : Input := .text "due: 2024-01-31 10:00:00\n".toList

def meetingGraph : Graph where
  nodes := #[
    ⟨.map, ⟨0, 0⟩, .mapping [(1, 2)]⟩,
    ⟨.str, ⟨0, 0⟩, .scalar "due"⟩,
    ⟨.str, ⟨0, 5⟩, .scalar "2024-01-31 10:00:00"⟩]
  root := 0

/-- The lexemes in front of the time. -/
def beforeMeeting : List Lexeme :=
  [⟨.blockMappingStart, ⟨0, 0⟩, ⟨0, 0⟩⟩, ⟨.key, ⟨0, 0⟩, ⟨0, 0⟩⟩,
    ⟨.scalar "due" true, ⟨0, 0⟩, ⟨0, 3⟩⟩, ⟨.value, ⟨0, 3⟩, ⟨0, 4⟩⟩]

/-- The time stays as it is written. -/
theorem Tag.timestamps_are_text_meeting :
    Tag.ofPlain .standard "2024-01-31 10:00:00" = .timestamp ∧
      Tag.ofPlain .strict "2024-01-31 10:00:00" = .str ∧
      Reading.graph .strict meeting = .ok (some meetingGraph) ∧
        ∃ id < meetingGraph.nodes.size, meetingGraph.IsText id "2024-01-31 10:00:00" ∧
          (meetingGraph.node id).start = ⟨0, 5⟩ := by
  obtain ⟨-, -, hsame, htimestamp, hread⟩ := Tag.timestamps_are_text "2024-01-31 10:00:00"
  have htakes : Resolver.ofTimestamp.takes "2024-01-31 10:00:00".toList = true := by
    decide +kernel
  have hgraph : Reading.graph .strict meeting = .ok (some meetingGraph) := by
    apply eq_ok_of_toOption
    decide +kernel
  have hplain : (Lexemes.ofSource ⟨"due: 2024-01-31 10:00:00\n".toList, none⟩).HasPlain
      beforeMeeting "2024-01-31 10:00:00" ⟨0, 5⟩ := by
    refine ⟨⟨⟨0, 24⟩, [⟨.blockEnd, ⟨1, 0⟩, ⟨1, 0⟩⟩, ⟨.streamEnd, ⟨1, 0⟩, ⟨1, 0⟩⟩], ?_⟩,
      by decide, by decide⟩
    decide +kernel
  obtain ⟨id, hid, htext, hstart⟩ :=
    hread meeting _ meetingGraph beforeMeeting ⟨0, 5⟩ htakes rfl hgraph hplain
  refine ⟨htimestamp.mpr htakes, ?_, hgraph, id, hid, htext, hstart (by decide)⟩
  rw [hsame, if_pos (htimestamp.mpr htakes)]

end Wireframe.Yaml
