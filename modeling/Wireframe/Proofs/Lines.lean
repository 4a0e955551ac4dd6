import Mathlib.Tactic
import Wireframe.Proofs.Trees

/-!
# Lines of a text

A text is cut into lines at every character that ends a line.  Texts that are joined by line
feeds are the lines of what they are joined to if, and only if, none of them holds the end of a
line itself.  The text of a value is one line, unless the value is a text that is none.
-/

namespace Wireframe

namespace Text

/-- The characters that end a line. -/
def lineEnds : List Char :=
  ['\n', '\r', '\x0b', '\x0c', '\x1c', '\x1d', '\x1e', '\u0085', '\u2028', '\u2029']

def isLineEnd (c : Char) : Bool := lineEnds.contains c

/-- The lines of a text that goes on with a line already begun.  A line feed after a carriage
return ends the same line, and no line follows the last end. -/
def linesFrom (line : List Char) : List Char → List (List Char)
  | [] => if line.isEmpty then [] else [line]
  | '\r' :: '\n' :: rest => line :: linesFrom [] rest
  | c :: rest =>
    if isLineEnd c then line :: linesFrom [] rest else linesFrom (line ++ [c]) rest

def lines (s : String) : List String := (linesFrom [] s.toList).map String.ofList

def IsOneLine (s : String) : Prop := ∀ c ∈ s.toList, isLineEnd c = false

instance (s : String) : Decidable (IsOneLine s) := List.decidableBAll _ s.toList

variable {s t : String} {texts : List String} {line more cs : List Char}

theorem linesFrom_append
    (hmore : ∀ c ∈ more, isLineEnd c = false) (line rest : List Char) :
    linesFrom line (more ++ rest) = linesFrom (line ++ more) rest := by
  induction more generalizing line with
  | nil => rw [List.append_nil, List.nil_append]
  | cons c more ih =>
      have hc := hmore c List.mem_cons_self
      have hnot : c ≠ '\r' := by
        rintro rfl
        exact absurd hc (by decide)
      rw [List.cons_append, linesFrom, if_neg (by simp [hc]),
        ih fun d hd => hmore d (List.mem_cons_of_mem _ hd), List.append_assoc]
      · rfl
      · rintro - rfl
        exact absurd rfl hnot

theorem linesFrom_newline (line rest : List Char) :
    linesFrom line ('\n' :: rest) = line :: linesFrom [] rest := by
  rw [linesFrom, if_pos (by decide)]
  nofun

/-- No line holds the end of a line. -/
theorem isLineEnd_of_mem_linesFrom
    (hline : ∀ c ∈ line, isLineEnd c = false) {l : List Char} (hl : l ∈ linesFrom line cs) :
    ∀ c ∈ l, isLineEnd c = false := by
  induction line, cs using linesFrom.induct with
  | case1 line hempty =>
      rw [linesFrom, if_pos hempty] at hl
      cases hl
  | case2 line hempty =>
      rw [linesFrom, if_neg hempty, List.mem_singleton] at hl
      exact hl ▸ hline
  | case3 line rest ih =>
      rw [linesFrom] at hl
      rcases List.mem_cons.mp hl with rfl | hl
      · exact hline
      · exact ih nofun hl
  | case4 line c rest hnot hend ih =>
      rw [linesFrom, if_pos hend] at hl
      · rcases List.mem_cons.mp hl with rfl | hl
        · exact hline
        · exact ih nofun hl
      · exact hnot
  | case5 line c rest hnot hend ih =>
      rw [linesFrom, if_neg hend] at hl
      · refine ih ?_ hl
        intro d hd
        rcases List.mem_append.mp hd with hd | hd
        · exact hline d hd
        · rw [List.mem_singleton.mp hd]
          simpa using hend
      · exact hnot

theorem isOneLine_of_mem_lines (hs : s ∈ lines t) : IsOneLine s := by
  obtain ⟨l, hl, rfl⟩ := List.mem_map.mp hs
  intro c hc
  rw [String.toList_ofList] at hc
  exact isLineEnd_of_mem_linesFrom (List.forall_mem_nil _) hl c hc

theorem lines_of_isOneLine (hs : IsOneLine s) (hne : s ≠ "") : lines s = [s] := by
  have hempty : s.toList.isEmpty = false := by simpa using hne
  have hlines := linesFrom_append hs [] []
  rw [List.append_nil, List.nil_append, linesFrom, hempty] at hlines
  unfold lines
  rw [hlines]
  exact congrArg (fun s => [s]) String.ofList_toList

theorem lines_append_newline (hs : IsOneLine s) (rest : String) :
    lines (s ++ "\n" ++ rest) = s :: lines rest := by
  have hchars : (s ++ "\n" ++ rest).toList = s.toList ++ '\n' :: rest.toList := by
    rw [String.toList_append, String.toList_append, List.append_assoc]
    rfl
  unfold lines
  rw [hchars, linesFrom_append hs, linesFrom_newline, List.map_cons, List.nil_append,
    String.ofList_toList]

/-- Texts that are joined by line feeds are the lines of the whole iff each is one line. -/
theorem lines_intercalate_iff (hne : ∀ s ∈ texts, s ≠ "") :
    lines ("\n".intercalate texts) = texts ↔ ∀ s ∈ texts, IsOneLine s := by
  constructor
  · intro hlines s hs
    rw [← hlines] at hs
    exact isOneLine_of_mem_lines hs
  · intro hone
    induction texts with
    | nil => rfl
    | cons s texts ih =>
        have hs := hone s List.mem_cons_self
        cases texts with
        | nil => exact lines_of_isOneLine hs (hne s List.mem_cons_self)
        | cons t texts =>
            rw [String.intercalate_cons_cons, lines_append_newline hs,
              ih (fun x hx => hne x (List.mem_cons_of_mem _ hx))
                (fun x hx => hone x (List.mem_cons_of_mem _ hx))]

/-! ## Texts of one line -/

theorem isOneLine_append : IsOneLine (s ++ t) ↔ IsOneLine s ∧ IsOneLine t := by
  simp only [IsOneLine, String.toList_append, List.forall_mem_append]

theorem isOneLine_around (hs : IsOneLine s) (ht : IsOneLine t) {u : String} (hu : IsOneLine u) :
    IsOneLine (s ++ t ++ u) :=
  isOneLine_append.mpr ⟨isOneLine_append.mpr ⟨hs, ht⟩, hu⟩

theorem isOneLine_ofList : IsOneLine (String.ofList cs) ↔ ∀ c ∈ cs, isLineEnd c = false := by
  rw [IsOneLine, String.toList_ofList]

theorem isLineEnd_of_all (hall : (cs.all fun c => !isLineEnd c) = true) :
    ∀ c ∈ cs, isLineEnd c = false := by
  simpa using hall

/-- The characters of a text that is written out need not be found in its encoding. -/
theorem isOneLine_of_all (hall : (cs.all fun c => !isLineEnd c) = true) :
    IsOneLine (String.ofList cs) :=
  isOneLine_ofList.mpr (isLineEnd_of_all hall)

theorem isOneLine_intercalate (hs : IsOneLine s) (htexts : ∀ t ∈ texts, IsOneLine t) :
    IsOneLine (s.intercalate texts) := by
  induction texts with
  | nil => exact nofun
  | cons t texts ih =>
      have ht := htexts t List.mem_cons_self
      cases texts with
      | nil => exact ht
      | cons u texts =>
          rw [String.intercalate_cons_cons]
          exact isOneLine_around ht hs (ih fun x hx => htexts x (List.mem_cons_of_mem _ hx))

theorem isLineEnd_digitChar (n : Nat) : isLineEnd n.digitChar = false := by
  have hdigits : ∀ m < 16, isLineEnd m.digitChar = false := by decide
  by_cases hn : n < 16
  · exact hdigits n hn
  · have hother : n.digitChar = '*' := by
      unfold Nat.digitChar
      iterate 16 rw [if_neg (by omega)]
    rw [hother]
    decide

theorem isLineEnd_of_mem_toDigits {base n : Nat} :
    ∀ c ∈ Nat.toDigits base n, isLineEnd c = false := by
  have hcore (fuel : Nat) : ∀ n cs, (∀ c ∈ cs, isLineEnd c = false) →
      ∀ c ∈ Nat.toDigitsCore base fuel n cs, isLineEnd c = false := by
    induction fuel with
    | zero => exact fun _ _ hcs => hcs
    | succ fuel ih =>
        intro n cs hcs
        have hnext : ∀ c ∈ (n % base).digitChar :: cs, isLineEnd c = false :=
          List.forall_mem_cons.mpr ⟨isLineEnd_digitChar _, hcs⟩
        unfold Nat.toDigitsCore
        simp only
        split_ifs
        · exact hnext
        · exact ih _ _ hnext
  exact hcore _ _ _ nofun

theorem isOneLine_natText (n : Nat) : IsOneLine (toString n) := by
  intro c hc
  rw [Nat.toString_eq_ofList_toDigits, String.toList_ofList] at hc
  exact isLineEnd_of_mem_toDigits c hc

theorem isOneLine_intText (i : Int) : IsOneLine (toString i) := by
  cases i with
  | ofNat n => exact isOneLine_natText n
  | negSucc n => exact isOneLine_append.mpr ⟨by decide, isOneLine_natText (n + 1)⟩

theorem isLineEnd_of_isPrintable {c : Char} (hc : isPrintable c = true) : isLineEnd c = false := by
  have hhidden : (lineEnds.all fun c => !isPrintable c) = true := by decide +kernel
  rw [isLineEnd, List.contains_eq_mem, decide_eq_false_iff_not]
  intro hmem
  have hnot := List.all_eq_true.mp hhidden c hmem
  rw [hc] at hnot
  cases hnot

theorem isLineEnd_of_mem_hexDigits {width n : Nat} :
    ∀ c ∈ hexDigits width n, isLineEnd c = false := by
  refine List.forall_mem_append.mpr ⟨?_, isLineEnd_of_mem_toDigits⟩
  intro c hc
  rw [List.eq_of_mem_replicate hc]
  decide

theorem isLineEnd_of_mem_numberedEscape (c : Char) :
    ∀ d ∈ numberedEscape c, isLineEnd d = false := by
  have hescape (kind : Char) (hkind : isLineEnd kind = false) (width : Nat) :
      ∀ d ∈ '\\' :: kind :: hexDigits width c.toNat, isLineEnd d = false :=
    List.forall_mem_cons.mpr ⟨by decide,
      List.forall_mem_cons.mpr ⟨hkind, isLineEnd_of_mem_hexDigits⟩⟩
  unfold numberedEscape
  split_ifs
  · exact hescape 'x' (by decide) 2
  · exact hescape 'u' (by decide) 4
  · exact hescape 'U' (by decide) 8

/-- Quoted text shows no character that ends a line. -/
theorem isLineEnd_of_mem_quoteChar
    {mark : Char} (hmark : isLineEnd mark = false) (c : Char) :
    ∀ d ∈ quoteChar mark c, isLineEnd d = false := by
  unfold quoteChar
  split_ifs with hplain hfeed hreturn htab hprintable
  · rcases hplain with rfl | rfl
    · simpa using ⟨by decide, hmark⟩
    · exact isLineEnd_of_all rfl
  · exact isLineEnd_of_all rfl
  · exact isLineEnd_of_all rfl
  · exact isLineEnd_of_all rfl
  · simpa using isLineEnd_of_isPrintable hprintable
  · exact isLineEnd_of_mem_numberedEscape c

theorem isOneLine_quote (s : String) : IsOneLine (quote s) := by
  have hmark : isLineEnd (quoteMark s.toList) = false := by
    unfold quoteMark
    split_ifs <;> decide
  refine isOneLine_ofList.mpr (List.forall_mem_cons.mpr ⟨hmark, ?_⟩)
  refine List.forall_mem_append.mpr ⟨?_, List.forall_mem_singleton.mpr hmark⟩
  intro d hd
  obtain ⟨c, -, hc⟩ := List.mem_flatMap.mp hd
  exact isLineEnd_of_mem_quoteChar hmark c d hc

theorem isOneLine_quoteBytes (bytes : List UInt8) : IsOneLine (quoteBytes bytes) := by
  have hquoted (mark : Char) (hmark : isLineEnd mark = false) :
      ∀ d ∈ 'b' :: mark :: bytes.flatMap (quoteByte mark) ++ [mark], isLineEnd d = false := by
    refine List.forall_mem_cons.mpr ⟨by decide, List.forall_mem_cons.mpr ⟨hmark, ?_⟩⟩
    refine List.forall_mem_append.mpr ⟨?_, List.forall_mem_singleton.mpr hmark⟩
    intro d hd
    obtain ⟨b, -, hb⟩ := List.mem_flatMap.mp hd
    unfold quoteByte at hb
    split_ifs at hb
    · exact isLineEnd_of_mem_quoteChar hmark _ d hb
    · rcases List.mem_cons.mp hb with rfl | hb
      · decide
      · rcases List.mem_cons.mp hb with rfl | hb
        · decide
        · exact isLineEnd_of_mem_hexDigits d hb
  unfold quoteBytes
  refine isOneLine_ofList.mpr (hquoted _ ?_)
  split_ifs <;> decide

end Text

open Text

/-! ## Values -/

namespace Decimal.Double

theorem isLineEnd_of_mem_layOut
    {digits : List Char} (hdigits : ∀ c ∈ digits, isLineEnd c = false) (exponent : Int) :
    ∀ c ∈ layOut digits exponent, isLineEnd c = false := by
  have hzeros (n : Nat) : ∀ c ∈ List.replicate n '0', isLineEnd c = false := by
    intro c hc
    rw [List.eq_of_mem_replicate hc]
    decide
  have htake (n : Nat) : ∀ c ∈ digits.take n, isLineEnd c = false :=
    fun c hc => hdigits c (List.mem_of_mem_take hc)
  have hdrop (n : Nat) : ∀ c ∈ digits.drop n, isLineEnd c = false :=
    fun c hc => hdigits c (List.mem_of_mem_drop hc)
  have hfraction (n : Nat) : ∀ c ∈ (if (digits.drop n).isEmpty then ['0'] else digits.drop n),
      isLineEnd c = false := by
    split_ifs
    · exact isLineEnd_of_all rfl
    · exact hdrop n
  have hpower : ∀ c ∈ (toString exponent.natAbs).toList, isLineEnd c = false :=
    isOneLine_natText _
  have hsign : isLineEnd (if exponent < 0 then '-' else '+') = false := by
    split_ifs <;> decide
  unfold layOut
  by_cases hpositional : -4 ≤ exponent ∧ exponent < 16
  · rw [if_pos hpositional]
    split_ifs
    · simp only [List.cons_append, List.forall_mem_cons, List.forall_mem_append]
      exact ⟨by decide, by decide, hzeros _, hdigits⟩
    · simp only [List.append_assoc, List.forall_mem_cons, List.forall_mem_append]
      exact ⟨htake _, hzeros _, by decide, hfraction _⟩
  · rw [if_neg hpositional]
    simp only [List.forall_mem_cons, List.forall_mem_append]
    refine ⟨?_, by decide, hsign, hzeros _, hpower⟩
    split
    · exact List.forall_mem_nil _
    · exact hdigits
    · rw [List.forall_mem_cons] at hdigits ⊢
      exact ⟨hdigits.1, List.forall_mem_cons.mpr ⟨by decide, hdigits.2⟩⟩

theorem isOneLine_render (d : Double) : IsOneLine d.render := by
  cases d with
  | nan => decide
  | infinite negative => cases negative <;> decide
  | finite negative m e =>
      have hsigned (body : List Char) (hbody : ∀ c ∈ body, isLineEnd c = false) :
          ∀ c ∈ (if negative then '-' :: body else body), isLineEnd c = false := by
        split_ifs
        · exact List.forall_mem_cons.mpr ⟨by decide, hbody⟩
        · exact hbody
      refine isOneLine_ofList.mpr (hsigned _ ?_)
      split_ifs
      · exact isLineEnd_of_all rfl
      · refine isLineEnd_of_mem_layOut (fun c hc => ?_) _
        have hdropped := (List.dropWhile_sublist _).mem (List.mem_reverse.mp hc)
        exact isOneLine_natText _ c (List.mem_reverse.mp hdropped)

end Decimal.Double

theorem Calendar.isOneLine_padded (width n : Nat) : IsOneLine (padded width n) := by
  refine isOneLine_ofList.mpr (List.forall_mem_append.mpr ⟨?_, isOneLine_natText n⟩)
  intro c hc
  rw [List.eq_of_mem_replicate hc]
  decide

theorem Calendar.isOneLine_quoteSpan (minutes : Int) : IsOneLine (quoteSpan minutes) := by
  have hpart (name : String) (hname : IsOneLine name) (i : Int) :
      ∀ t ∈ (if i = 0 then [] else [name ++ toString i]), IsOneLine t := by
    split_ifs
    · exact nofun
    · exact List.forall_mem_singleton.mpr (isOneLine_append.mpr ⟨hname, isOneLine_intText i⟩)
  have hparts := List.forall_mem_append.mpr
    ⟨hpart "days=" (by decide) (spanParts minutes).1,
      hpart "seconds=" (by decide) (spanParts minutes).2⟩
  have hlist (parts : List String) (hparts : ∀ t ∈ parts, IsOneLine t) :
      IsOneLine (if parts.isEmpty then "0" else ", ".intercalate parts) := by
    split_ifs
    · decide
    · exact isOneLine_intercalate (by decide) hparts
  exact isOneLine_around (by decide) (hlist _ hparts) (by decide)

theorem Date.isOneLine_render (d : Date) : IsOneLine d.render := by
  simp only [Date.render, isOneLine_append, Calendar.isOneLine_padded, true_and, and_true]
  decide

theorem Date.isOneLine_quote (d : Date) : IsOneLine d.quote := by
  change IsOneLine ("datetime.date(" ++ toString d.year ++ ", " ++ toString d.month ++ ", " ++
    toString d.day ++ ")")
  simp only [isOneLine_append, isOneLine_natText, and_true]
  decide

theorem Moment.isOneLine_render (m : Moment) : IsOneLine m.render := by
  have hfraction : IsOneLine
      (if m.microsecond = 0 then "" else "." ++ Calendar.padded 6 m.microsecond) := by
    split_ifs
    · decide
    · exact isOneLine_append.mpr ⟨by decide, Calendar.isOneLine_padded _ _⟩
  simp only [Moment.render, Moment.renderWith, isOneLine_append, Date.isOneLine_render,
    Calendar.isOneLine_padded, hfraction, true_and, and_true]
  refine ⟨by decide, ?_⟩
  split
  · decide
  · simp only [isOneLine_append, Calendar.isOneLine_padded, and_true]
    split_ifs <;> decide

theorem Moment.isOneLine_quote (m : Moment) : IsOneLine m.quote := by
  have htail : IsOneLine
      (if m.microsecond ≠ 0 then ", " ++ toString m.second ++ ", " ++ toString m.microsecond
        else if m.second ≠ 0 then ", " ++ toString m.second else "") := by
    split_ifs
    · simp only [isOneLine_append, isOneLine_natText, and_true]
      decide
    · simp only [isOneLine_append, isOneLine_natText, and_true]
      decide
    · decide
  change IsOneLine ("datetime.datetime(" ++ (toString m.date.year ++ ", " ++
    toString m.date.month ++ ", " ++ toString m.date.day) ++ ", " ++ toString m.hour ++ ", " ++
    toString m.minute ++ _ ++ _ ++ ")")
  simp only [isOneLine_append, isOneLine_natText, and_true]
  refine ⟨⟨⟨by decide, htail⟩, ?_⟩, by decide⟩
  split
  · decide
  · decide
  · change IsOneLine (", tzinfo=datetime.timezone(" ++ Calendar.quoteSpan _ ++ ")")
    simp only [isOneLine_append, Calendar.isOneLine_quoteSpan, and_true]
    decide

namespace Scalar

theorem isOneLine_render {s : Scalar} (htext : ∀ t, s = .text t → IsOneLine t) :
    IsOneLine s.render := by
  cases s with
  | null => exact of_decide_eq_true rfl
  | flag b => cases b <;> decide
  | integer i => exact isOneLine_intText i
  | real d => exact d.isOneLine_render
  | text t => exact htext t rfl
  | bytes b => exact isOneLine_quoteBytes b
  | date d => exact d.isOneLine_render
  | moment m => exact m.isOneLine_render

theorem isOneLine_quote (s : Scalar) : IsOneLine s.quote := by
  cases s with
  | text t => exact Text.isOneLine_quote t
  | date d => exact d.isOneLine_quote
  | moment m => exact m.isOneLine_quote
  | _ => exact isOneLine_render nofun

end Scalar

theorem isOneLine_tupleText {items : List String} (hitems : ∀ t ∈ items, IsOneLine t) :
    IsOneLine (tupleText items) := by
  unfold tupleText
  split
  next item =>
    exact isOneLine_around (by decide) (hitems item List.mem_cons_self) (by decide)
  next =>
    simp only [isOneLine_append, isOneLine_intercalate (s := ", ") (by decide) hitems, and_true]
    decide

mutual

theorem Key.isOneLine_quote : (k : Key) → IsOneLine k.quote
  | .scalar s => s.isOneLine_quote
  | .tuple items => isOneLine_tupleText (Key.isOneLine_of_mem_quoteItems items)

theorem Key.isOneLine_of_mem_quoteItems :
    (ks : List Key) → ∀ t ∈ Key.quoteItems ks, IsOneLine t
  | [] => nofun
  | k :: ks =>
    List.forall_mem_cons.mpr ⟨k.isOneLine_quote, Key.isOneLine_of_mem_quoteItems ks⟩

end

namespace Value

theorem isOneLine_of_mem_quoteItems
    {items : List Value} (hitems : ∀ v ∈ items, IsOneLine v.quote) :
    ∀ t ∈ quoteItems items, IsOneLine t := by
  induction items with
  | nil => exact List.forall_mem_nil _
  | cons v items ih =>
      obtain ⟨hv, hrest⟩ := List.forall_mem_cons.mp hitems
      exact List.forall_mem_cons.mpr ⟨hv, ih hrest⟩

theorem isOneLine_of_mem_quoteEntries
    {entries : List (Key × Value)} (hentries : ∀ e ∈ entries, IsOneLine e.2.quote) :
    ∀ t ∈ quoteEntries entries, IsOneLine t := by
  induction entries with
  | nil => exact List.forall_mem_nil _
  | cons e entries ih =>
      obtain ⟨he, hrest⟩ := List.forall_mem_cons.mp hentries
      have hentry : IsOneLine (e.1.quote ++ ": " ++ e.2.quote) :=
        isOneLine_around e.1.isOneLine_quote (by decide) he
      exact List.forall_mem_cons.mpr ⟨hentry, ih hrest⟩

theorem isOneLine_quote (v : Value) : IsOneLine v.quote := by
  have hlist {texts : List String} (htexts : ∀ t ∈ texts, IsOneLine t) :
      IsOneLine (", ".intercalate texts) := isOneLine_intercalate (by decide) htexts
  induction v using inductionOn with
  | scalar s => exact s.isOneLine_quote
  | list items ih =>
      unfold quote
      exact isOneLine_around (by decide) (hlist (isOneLine_of_mem_quoteItems ih)) (by decide)
  | tuple items ih => exact isOneLine_tupleText (isOneLine_of_mem_quoteItems ih)
  | set keys =>
      unfold quote
      split_ifs
      · decide
      · exact isOneLine_around (by decide) (hlist (Key.isOneLine_of_mem_quoteItems keys))
          (by decide)
  | map entries ih =>
      unfold quote
      exact isOneLine_around (by decide) (hlist (isOneLine_of_mem_quoteEntries ih)) (by decide)
  | back levels =>
      unfold quote
      decide

/-- The text of a value is one line, unless the value is a text that is none. -/
theorem isOneLine_render {v : Value} (htext : ∀ t, v = .text t → IsOneLine t) :
    IsOneLine v.render := by
  cases v with
  | scalar s => exact Scalar.isOneLine_render fun t ht => htext t (congrArg Value.scalar ht)
  | _ => exact isOneLine_quote _

end Value

end Wireframe
