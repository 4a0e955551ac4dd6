import Mathlib
import Wireframe.Proofs.Stages

/-!
# Reading paths back

The path of a location can be cut in front of every dot and every opening bracket.  If no name of
the location holds one of these and none is empty, the pieces are the steps of the location, and
the location is read back from them.  Only the first step has no mark of its own, if it is a name.
A name of digits stays behind its dot, so it is never taken for a place.
-/

namespace Wireframe

/-- A name that leaves the steps of a path apart; a place always does. -/
def Step.IsPlain : Step → Prop
  | .name s => s ≠ "" ∧ '.' ∉ s.toList ∧ '[' ∉ s.toList
  | _ => True

namespace Location

/-! ## Paths in pieces -/

def isMark (c : Char) : Bool := c == '.' || c == '['

/-- A mark and the text from there to the next one. -/
abbrev Piece := Char × List Char

/-- The text in front of the first mark, and the pieces behind it. -/
def cut : List Char → List Char × List Piece
  | [] => ([], [])
  | c :: s =>
    if isMark c then ([], (c, (cut s).1) :: (cut s).2) else (c :: (cut s).1, (cut s).2)

def paste (front : List Char) (pieces : List Piece) : List Char :=
  front ++ pieces.flatMap fun p => p.1 :: p.2

@[simp] theorem paste_cons (c : Char) (front : List Char) (pieces : List Piece) :
    paste (c :: front) pieces = c :: paste front pieces := rfl

@[simp] theorem paste_nil_cons (p : Piece) (pieces : List Piece) :
    paste [] (p :: pieces) = p.1 :: paste p.2 pieces := rfl

/-- Marks stand in front of the pieces and nowhere else. -/
structure AreMarked (front : List Char) (pieces : List Piece) : Prop where
  front : ∀ c ∈ front, isMark c = false
  mark : ∀ p ∈ pieces, isMark p.1 = true
  text : ∀ p ∈ pieces, ∀ c ∈ p.2, isMark c = false

theorem paste_cut (s : List Char) : paste (cut s).1 (cut s).2 = s := by
  induction s with
  | nil => rfl
  | cons c s ih =>
      unfold cut
      split_ifs
      · rw [paste_nil_cons, ih]
      · rw [paste_cons, ih]

theorem areMarked_cut (s : List Char) : AreMarked (cut s).1 (cut s).2 := by
  induction s with
  | nil => exact ⟨nofun, nofun, nofun⟩
  | cons c s ih =>
      obtain ⟨hfront, hmark, htext⟩ := ih
      unfold cut
      split_ifs with hc
      · exact ⟨nofun, List.forall_mem_cons.mpr ⟨hc, hmark⟩,
          List.forall_mem_cons.mpr ⟨hfront, htext⟩⟩
      · exact ⟨List.forall_mem_cons.mpr ⟨by simpa using hc, hfront⟩, hmark, htext⟩

theorem cut_append {front : List Char} (hfront : ∀ c ∈ front, isMark c = false) (s : List Char) :
    cut (front ++ s) = (front ++ (cut s).1, (cut s).2) := by
  induction front with
  | nil => rfl
  | cons c front ih =>
      rw [List.forall_mem_cons] at hfront
      rw [List.cons_append, cut, ih hfront.2, hfront.1]
      rfl

/-- There is one way only to cut a text in front of its marks. -/
theorem cut_paste {front : List Char} {pieces : List Piece} (hmarked : AreMarked front pieces) :
    cut (paste front pieces) = (front, pieces) := by
  induction pieces generalizing front with
  | nil => rw [paste, cut_append hmarked.front]; simp [cut]
  | cons p pieces ih =>
      obtain ⟨hfront, hmark, htext⟩ := hmarked
      rw [List.forall_mem_cons] at hmark htext
      have hrest : cut (paste p.2 pieces) = (p.2, pieces) := ih ⟨htext.1, hmark.2, htext.2⟩
      have hpiece : cut (paste [] (p :: pieces)) = ([], p :: pieces) := by
        rw [paste_nil_cons, cut, hrest, if_pos hmark.1]
      rw [show paste front (p :: pieces) = front ++ paste [] (p :: pieces) from rfl,
        cut_append hfront, hpiece, List.append_nil]

end Location

/-! ## Steps -/

namespace Step

open Location

/-- The piece of a path that a step is written as, unless it is a name in front. -/
def piece : Step → Piece
  | name s => ('.', s.toList)
  | place i => ('[', (toString i ++ "]").toList)
  | flag b => ('[', ((if b then "True" else "False") ++ "]").toList)

def ofBracketed? (text : String) : Option Step :=
  if text = "True" then some (.flag true)
  else if text = "False" then some (.flag false)
  else (text.toInt?.filter fun i => toString i = text).map .place

def ofPiece? : Piece → Option Step
  | (mark, text) =>
    if mark = '.' then if text = [] then none else some (.name (String.ofList text))
    else if mark = '[' ∧ text.getLast? = some ']' then
      ofBracketed? (String.ofList text.dropLast)
    else none

/-- Besides a minus a number has digits only. -/
theorem not_mem_toString {c : Char} (hminus : c ≠ '-') (hdigit : c.isDigit = false) (i : Int) :
    c ∉ (toString i).toList := by
  have hnat (n : Nat) : c ∉ n.repr.toList := by
    intro hmem
    rw [Nat.toList_repr] at hmem
    have hc := Nat.isDigit_of_mem_toDigits (by decide) (by decide) hmem
    rw [hdigit] at hc
    cases hc
  rw [Int.toString_eq_repr, Int.repr_eq_if]
  split_ifs
  · exact hnat _
  · rw [String.toList_append, List.mem_append, not_or]
    exact ⟨fun hmem => hminus (List.mem_singleton.mp hmem), hnat _⟩

/-- What stands between brackets is read as the step that it is the text of. -/
theorem ofBracketed?_eq_some_iff {text : String} {step : Step} :
    ofBracketed? text = some step ↔
      (∃ i, step = place i ∧ text = toString i) ∨
        ∃ b, step = flag b ∧ text = if b then "True" else "False" := by
  unfold ofBracketed?
  constructor
  · intro hread
    split_ifs at hread with htrue hfalse
    · cases hread
      exact .inr ⟨true, rfl, htrue⟩
    · cases hread
      exact .inr ⟨false, rfl, hfalse⟩
    · obtain ⟨i, hi, rfl⟩ := Option.map_eq_some_iff.mp hread
      rw [Option.filter_eq_some_iff, decide_eq_true_eq] at hi
      exact .inl ⟨i, rfl, hi.2.symm⟩
  · rintro (⟨i, rfl, rfl⟩ | ⟨b, rfl, rfl⟩)
    · have hword {word : String} (he : 'e' ∈ word.toList) : toString i ≠ word :=
        fun heq => not_mem_toString (by decide) (by decide) i (heq ▸ he)
      rw [if_neg (hword (by decide)), if_neg (hword (by decide)), Int.toString_eq_repr,
        Int.toInt?_repr]
      simp
    · cases b <;> rfl

theorem ofPiece?_bracket (text : String) :
    ofPiece? ('[', (text ++ "]").toList) = ofBracketed? text := by
  have hlast : (text ++ "]").toList = text.toList ++ [']'] := String.toList_append
  rw [hlast]
  simp [ofPiece?]

/-- A piece is read as the step that is written as this piece. -/
theorem ofPiece?_eq_some_iff {p : Piece} {step : Step} :
    ofPiece? p = some step ↔ step ≠ .name "" ∧ step.piece = p := by
  constructor
  · intro hread
    obtain ⟨mark, text⟩ := p
    unfold ofPiece? at hread
    dsimp only at hread
    split_ifs at hread with hdot hempty hbracket
    · cases hread
      subst hdot
      refine ⟨fun hname => hempty ?_, by rw [piece, String.toList_ofList]⟩
      rw [← String.toList_ofList (l := text), Step.name.inj hname, String.toList_empty]
    · obtain ⟨rfl, hlast⟩ := hbracket
      obtain ⟨body, rfl⟩ := List.getLast?_eq_some_iff.mp hlast
      rw [List.dropLast_concat, ofBracketed?_eq_some_iff] at hread
      have htext {s : String} (hs : String.ofList body = s) :
          (s ++ "]").toList = body ++ [']'] := by
        rw [← hs, String.toList_append, String.toList_ofList]
        rfl
      rcases hread with ⟨i, rfl, hbody⟩ | ⟨b, rfl, hbody⟩
      · exact ⟨nofun, congrArg _ (htext hbody)⟩
      · exact ⟨nofun, congrArg _ (htext hbody)⟩
  · rintro ⟨hstep, rfl⟩
    cases step with
    | name s =>
        have hs : s ≠ "" := fun hs => hstep (congrArg _ hs)
        simp [piece, ofPiece?, hs]
    | place i =>
        rw [piece, ofPiece?_bracket, ofBracketed?_eq_some_iff]
        exact .inl ⟨i, rfl, rfl⟩
    | flag b =>
        rw [piece, ofPiece?_bracket, ofBracketed?_eq_some_iff]
        exact .inr ⟨b, rfl, rfl⟩

theorem forall_isMark_eq_false_iff {s : List Char} :
    (∀ c ∈ s, isMark c = false) ↔ '.' ∉ s ∧ '[' ∉ s := by
  simp only [isMark, Bool.or_eq_false_iff, beq_eq_false_iff_ne, forall_and]
  exact and_congr List.forall_mem_ne' List.forall_mem_ne'

/-- In the piece that a plain step is written as, nothing behind the mark is a mark. -/
theorem isPlain_iff {step : Step} :
    step.IsPlain ↔ step ≠ .name "" ∧ ∀ c ∈ step.piece.2, isMark c = false := by
  rw [forall_isMark_eq_false_iff]
  cases step with
  | name s => rw [piece, ne_eq, Step.name.injEq]; rfl
  | place i =>
      have hnot {c : Char} (hminus : c ≠ '-') (hdigit : c.isDigit = false) (hclosing : c ≠ ']') :
          c ∉ (toString i ++ "]").toList := by
        rw [String.toList_append, List.mem_append, not_or]
        exact ⟨not_mem_toString hminus hdigit i, fun hc => hclosing (List.mem_singleton.mp hc)⟩
      exact iff_of_true trivial ⟨nofun, hnot (by decide) (by decide) (by decide),
        hnot (by decide) (by decide) (by decide)⟩
  | flag b =>
      refine iff_of_true trivial ⟨nofun, ?_⟩
      cases b <;> decide

end Step

namespace Location

open Step

/-! ## Locations -/

/-- Leaves out the dot in front of a first name. -/
def dropDot : List Piece → List Char × List Piece
  | [] => ([], [])
  | p :: pieces => if p.1 = '.' then (p.2, pieces) else ([], p :: pieces)

/-- Puts the dot in front of a first name.  No path starts with a dot. -/
def putDot? (front : List Char) (pieces : List Piece) : Option (List Piece) :=
  if front ≠ [] then some (('.', front) :: pieces)
  else if pieces.head?.any (·.1 == '.') then none
  else some pieces

/-- The location that the path is written for. -/
def read? (path : String) : Option Location :=
  (putDot? (cut path.toList).1 (cut path.toList).2).bind fun pieces => pieces.mapM ofPiece?

theorem putDot?_eq_some_iff {front : List Char} {pieces all : List Piece} :
    putDot? front pieces = some all ↔ ('.', []) ∉ all.head? ∧ dropDot all = (front, pieces) := by
  unfold putDot?
  constructor
  · intro hput
    split_ifs at hput with hfront hdot
    · cases hput
      exact ⟨by simpa [eq_comm] using hfront, rfl⟩
    · cases hput
      rw [not_not.mp hfront]
      cases pieces with
      | nil => exact ⟨nofun, rfl⟩
      | cons p pieces =>
          have hp : p.1 ≠ '.' := by simpa using hdot
          exact ⟨by rintro ⟨⟩; exact hp rfl, if_neg hp⟩
  · rintro ⟨hempty, hdrop⟩
    cases all with
    | nil =>
        cases hdrop
        rfl
    | cons p all =>
        rw [dropDot] at hdrop
        split_ifs at hdrop with hp
        · obtain ⟨mark, text⟩ := p
          cases hp
          cases hdrop
          exact if_pos fun htext => hempty (congrArg (fun t => some ('.', t)) htext)
        · cases hdrop
          simp [hp]

theorem mapM_ofPiece?_eq_some_iff {pieces : List Piece} {l : Location} :
    pieces.mapM ofPiece? = some l ↔ (∀ step ∈ l, step ≠ .name "") ∧ l.map piece = pieces := by
  induction pieces generalizing l with
  | nil => cases l <;> simp
  | cons p pieces ih =>
      have hcons : (p :: pieces).mapM ofPiece? = some l ↔
          ∃ step, ofPiece? p = some step ∧
            ∃ rest, pieces.mapM ofPiece? = some rest ∧ step :: rest = l := by
        simp [Option.bind_eq_some_iff]
      simp only [hcons, ofPiece?_eq_some_iff, ih]
      constructor
      · rintro ⟨step, ⟨hstep, rfl⟩, rest, ⟨hrest, rfl⟩, rfl⟩
        exact ⟨List.forall_mem_cons.mpr ⟨hstep, hrest⟩, rfl⟩
      · rintro ⟨hnames, hpieces⟩
        cases l with
        | nil => cases hpieces
        | cons step rest =>
            obtain ⟨hstep, hrest⟩ := List.forall_mem_cons.mp hnames
            cases hpieces
            exact ⟨step, ⟨hstep, rfl⟩, rest, ⟨hrest, rfl⟩, rfl⟩

theorem toList_extend {path : String} {step : Step}
    (hdot : path ≠ "" ∨ ∀ name, step ≠ .name name) :
    (extend path step).toList = path.toList ++ step.piece.1 :: step.piece.2 := by
  cases step with
  | name s =>
      have hempty : path.isEmpty = false := by simpa using hdot
      simp [extend, piece, hempty]
  | place i => simp [extend, piece]
  | flag b => cases b <;> simp [extend, piece]

theorem toList_foldl_extend {path : String} (hpath : path ≠ "") (l : Location) :
    (l.foldl extend path).toList = paste path.toList (l.map piece) := by
  induction l generalizing path with
  | nil => simp [paste]
  | cons step l ih =>
      rw [List.foldl_cons, ih (extend_ne_empty hpath step), toList_extend (.inl hpath),
        List.map_cons]
      simp [paste]

/-- A path is pasted from the pieces of its steps, without the dot in front of a first name. -/
theorem toList_render {l : Location} (hnames : ∀ step ∈ l, step ≠ .name "") :
    l.render.toList = paste (dropDot (l.map piece)).1 (dropDot (l.map piece)).2 := by
  -- A first step that is no name is written whole, as it would be behind a path.
  have hother {step : Step} (hstep : ∀ name, step ≠ .name name) (l : Location) :
      (render (step :: l)).toList = paste [] ((step :: l).map piece) := by
    have hfirst : (extend "" step).toList = step.piece.1 :: step.piece.2 :=
      toList_extend (.inr hstep)
    have hne : extend "" step ≠ "" := by
      intro hempty
      rw [hempty] at hfirst
      cases hfirst
    rw [render, List.foldl_cons, toList_foldl_extend hne, hfirst]
    rfl
  cases l with
  | nil => rfl
  | cons step l =>
      cases step with
      | name s =>
          exact toList_foldl_extend (fun hs => hnames _ List.mem_cons_self (congrArg _ hs)) l
      | place i => exact hother (fun _ => Step.noConfusion) l
      | flag b => exact hother (fun _ => Step.noConfusion) l

theorem areMarked_dropDot_iff {pieces : List Piece} (hmark : ∀ p ∈ pieces, isMark p.1 = true) :
    AreMarked (dropDot pieces).1 (dropDot pieces).2 ↔
      ∀ p ∈ pieces, ∀ c ∈ p.2, isMark c = false := by
  cases pieces with
  | nil => exact iff_of_true ⟨nofun, nofun, nofun⟩ nofun
  | cons p pieces =>
      rw [dropDot]
      split_ifs
      · rw [List.forall_mem_cons]
        exact ⟨fun h => ⟨h.front, h.text⟩, fun h => ⟨h.1, (List.forall_mem_cons.mp hmark).2, h.2⟩⟩
      · exact ⟨fun h => h.text, fun h => ⟨nofun, hmark, h⟩⟩

theorem forall_isPlain_iff {l : Location} :
    (∀ step ∈ l, step.IsPlain) ↔ (∀ step ∈ l, step ≠ .name "") ∧
      AreMarked (dropDot (l.map piece)).1 (dropDot (l.map piece)).2 := by
  have hmark : ∀ p ∈ l.map piece, isMark p.1 = true := by
    rw [List.forall_mem_map]
    intro step _
    cases step <;> rfl
  rw [areMarked_dropDot_iff hmark, List.forall_mem_map]
  simp only [isPlain_iff, forall_and]

/-- What is read back is the location with these pieces. -/
theorem read?_eq_some_iff_cut {path : String} {l : Location} :
    read? path = some l ↔
      (∀ step ∈ l, step ≠ .name "") ∧ dropDot (l.map piece) = cut path.toList := by
  have hpieces : read? path = some l ↔ ('.', []) ∉ (l.map piece).head? ∧
      (∀ step ∈ l, step ≠ .name "") ∧ dropDot (l.map piece) = cut path.toList := by
    simp only [read?, Option.bind_eq_some_iff, putDot?_eq_some_iff, mapM_ofPiece?_eq_some_iff]
    constructor
    · rintro ⟨_, ⟨hempty, hdrop⟩, hnames, rfl⟩
      exact ⟨hempty, hnames, hdrop⟩
    · rintro ⟨hempty, hnames, hdrop⟩
      exact ⟨_, ⟨hempty, hdrop⟩, hnames, rfl⟩
  rw [hpieces, and_iff_right_iff_imp]
  rintro ⟨hnames, -⟩ hempty
  obtain ⟨step, hstep, hpiece⟩ := List.mem_map.mp (List.mem_of_mem_head? hempty)
  have hread : ofPiece? ('.', []) = some step :=
    ofPiece?_eq_some_iff.mpr ⟨hnames step hstep, hpiece⟩
  cases hread

/-- A path tells its location, if only plain steps lead there: the location is read back from
the path, and what is not the path of such a location is not read. -/
theorem path_tells_location :
    (∀ l m : Location, (∀ step ∈ l, step.IsPlain) → (∀ step ∈ m, step.IsPlain) →
      l.render = m.render → l = m) ∧
    ∀ (path : String) (l : Location),
      read? path = some l ↔ (∀ step ∈ l, step.IsPlain) ∧ l.render = path := by
  have hread (path : String) (l : Location) :
      read? path = some l ↔ (∀ step ∈ l, step.IsPlain) ∧ l.render = path := by
    rw [read?_eq_some_iff_cut, forall_isPlain_iff, and_assoc]
    refine and_congr_right fun hnames => ?_
    rw [← String.toList_inj, toList_render hnames]
    constructor
    · intro hdrop
      rw [hdrop]
      exact ⟨areMarked_cut _, paste_cut _⟩
    · rintro ⟨hmarked, hpath⟩
      rw [← hpath, cut_paste hmarked]
  -- Both locations are read back from the one path.
  refine ⟨fun l m hl hm hsame => ?_, hread⟩
  have hback : read? m.render = some l := (hread _ l).mpr ⟨hl, hsame⟩
  exact Option.some.inj (hback.symm.trans ((hread _ m).mpr ⟨hm, rfl⟩))

/-- A name that holds a mark may be written like other steps. -/
example : render [.name "a.b"] = render [.name "a", .name "b"] := by decide +kernel

/-- Names that look like places and truth values, next to these. -/
def lookalikes : Location :=
  [.name "0", .place 0, .name "-1", .place (-1), .flag true, .name "True]"]

theorem path_tells_location_lookalikes :
    (∀ step ∈ lookalikes, step.IsPlain) ∧ lookalikes.render = "0[0].-1[-1][True].True]" ∧
      read? "0[0].-1[-1][True].True]" = some lookalikes ∧
      render [.name "0", .name "0"] ≠ render [.name "0", .place 0] := by
  have hplain : ∀ step ∈ lookalikes, step.IsPlain := by
    simp [lookalikes, IsPlain]
  have hpath : lookalikes.render = "0[0].-1[-1][True].True]" := by decide +kernel
  refine ⟨hplain, hpath, (path_tells_location.2 _ _).mpr ⟨hplain, hpath⟩, fun hsame => ?_⟩
  have heq := path_tells_location.1 [.name "0", .name "0"] [.name "0", .place 0]
    (by simp [IsPlain]) (by simp [IsPlain]) hsame
  cases heq

end Location

end Wireframe
