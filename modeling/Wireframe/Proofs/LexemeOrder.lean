import Mathlib.Data.Prod.Lex
import Mathlib.Tactic
import Wireframe.Proofs.LexicalMisfits

/-!
# Order of lexemes

The lexemes of a text come in the order in which they stand in it: none starts in front of the
place where the one before it stops.  The marks of a key that only its colon gives away are put
in front of lexemes that wait, at the place that was remembered for the key.

Every round of a lexer but the last reads a character at least, or releases a lexeme, and no
more than five lexemes and blocks come from the characters of one round.  So the rounds that a
lexer has are enough for any text, and its lexemes end with the text or with a failure.
-/

namespace Wireframe

/-- The order of places in a text: by lines, and by columns in a line. -/
instance : Preorder Position := Preorder.lift fun p => toLex (p.line, p.column)

theorem Position.le_iff {p q : Position} :
    p ≤ q ↔ p.line < q.line ∨ p.line = q.line ∧ p.column ≤ q.column :=
  Prod.Lex.toLex_le_toLex

namespace Yaml

open Failure (complain)

namespace Cursor

variable {c start : Cursor}

theorem position_le_next (c : Cursor) : c.position ≤ c.next.position := by
  unfold Cursor.next
  split
  next => exact le_rfl
  next x rest _ =>
    change c.position ≤ placeAfter c.position x rest
    unfold placeAfter
    split_ifs
    · exact Position.le_iff.mpr (.inr ⟨rfl, Nat.le_succ _⟩)
    · exact Position.le_iff.mpr (.inl (Nat.lt_succ_self _))
    · exact le_rfl
    · exact Position.le_iff.mpr (.inr ⟨rfl, Nat.le_succ _⟩)

theorem IsBehind.position_le (hc : c.IsBehind start) : start.position ≤ c.position := by
  induction hc with
  | here => exact le_rfl
  | next _ ih => exact ih.trans (position_le_next _)

theorem IsBehind.length_le (hc : c.IsBehind start) : c.rest.length ≤ start.rest.length :=
  hc.suffix.length_le

theorem length_next_lt (hhead : c.head ≠ endMark) : c.next.rest.length < c.rest.length := by
  rw [rest_eq_cons rfl hhead]
  exact Nat.lt_succ_self _

end Cursor

/-! ## Lexemes of a text -/

namespace Lexeme

variable {c : Cursor} {p q r : Position} {items more : List Lexeme}

/-- The lexeme starts at the cursor, and it stops no later than reading goes on, which is
behind the first character. -/
structure IsCut (c : Cursor) (cut : Lexeme × Cursor) : Prop where
  start : cut.1.start = c.position
  stop : ∃ last : Cursor, last.IsBehind c ∧ cut.1.stop = last.position ∧ cut.2.IsBehind last
  further : cut.2.IsBehind c.next

theorem isCut_of_stop
    {kind : LexemeKind} {rest : Cursor} (hrest : rest.IsBehind c.next) :
    IsCut c (⟨kind, c.position, rest.position⟩, rest) where
  start := rfl
  stop := ⟨rest, hrest.trans (.next (.here c)), rfl, .here rest⟩
  further := hrest

theorem cuts_name (activity : Activity) (kind : String → LexemeKind) :
    Reads c.next.rest (name activity kind c) (IsCut c) := by
  unfold name
  dsimp only
  split_ifs
  · exact reads_complain _ _ _
  · exact isCut_of_stop (.takeWhile (.here _) _)

theorem cuts_tag : Reads c.next.rest (tag c) (IsCut c) := by
  refine (reads_tagParts (.here _)).bind fun parts hparts => ?_
  dsimp only
  split_ifs
  · exact isCut_of_stop hparts
  · exact reads_complain _ _ _

theorem cuts_quoted : Reads c.next.rest (quoted c) (IsCut c) :=
  (reads_quotedText _ _ (.here _)).bind fun _ hrest => isCut_of_stop hrest

theorem cuts_block (indent : Int) : Reads c.next.rest (block indent c) (IsCut c) := by
  refine (reads_blockHeader (.here _)).bind fun header hheader => ?_
  refine (reads_lineEnd .blockScalar hheader).bind fun rest hrest => ?_
  have htext := isBehind_blockText (c.head == '>') (max (indent + 1) 1).toNat header.1 hrest
  generalize blockText (c.head == '>') _ header.1 rest = r at htext
  exact isCut_of_stop htext

/-- A directive stops in front of what is skipped up to the end of its line. -/
theorem cuts_directive : Reads c.next.rest (directive c) (IsCut c) := by
  have hend (d : Directive) {last rest : Cursor} (hlast : last.IsBehind c.next)
      (hrest : rest.IsBehind last) :
      Reads c.next.rest (do
          let rest ← lineEnd .directive rest
          .ok ((⟨.directive d, c.position, last.position⟩ : Lexeme), rest)) (IsCut c) := by
    have hend := reads_lineEnd .directive hrest
    cases hline : lineEnd .directive rest with
    | error f =>
        have hline' := reads_lineEnd .directive (hrest.trans hlast)
        rw [hline] at hline'
        exact hline'
    | ok final =>
        rw [hline] at hend
        exact ⟨rfl, ⟨last, hlast.trans (.next (.here c)), rfl, hend⟩, hend.trans hlast⟩
  refine (reads_directiveName (.here _)).bind fun ⟨name, rest⟩ hname => ?_
  dsimp only
  split_ifs
  · exact (reads_version hname).map_bind fun r hr => hend _ hr (.here _)
  · exact (reads_tagDirective hname).map_bind fun r hr => hend _ hr (.here _)
  · exact hend _ hname (.dropWhile (.here _) _)

/-- The text of a plain scalar stops in front of what is skipped behind it. -/
theorem exists_stop_plainText
    (inFlow : Bool) (column : Int) (fuel : Nat) (c : Cursor) :
    ∃ last : Cursor, last.IsBehind c ∧ (plainText inFlow column fuel c).1.stop = last.position ∧
      (plainText inFlow column fuel c).2.IsBehind last := by
  induction fuel generalizing c with
  | zero => exact ⟨c, .here c, rfl, .here c⟩
  | succ fuel ih =>
      have hrun : (c.advance (plainLength inFlow c.rest)).IsBehind c := .advance (.here c) _
      have hgap := isBehind_plainGap
        (Cursor.IsBehind.here (c.advance (plainLength inFlow c.rest)))
      unfold plainText
      dsimp only
      split_ifs
      · exact ⟨_, hrun, rfl, hgap⟩
      · obtain ⟨last, hlast, hstop, hrest⟩ := ih _
        exact ⟨last, hlast.trans (hgap.trans hrun), hstop, hrest⟩

/-- Where a plain scalar may start, at least one character belongs to it. -/
theorem isCut_plain
    (inFlow : Bool) (column : Int) (hlength : plainLength inFlow c.rest ≠ 0) :
    IsCut c ((plain inFlow column c).1, (plain inFlow column c).2.2) where
  start := rfl
  stop := exists_stop_plainText inFlow column (c.rest.length + 1) c
  further := by
    change (plainText inFlow column (c.rest.length + 1) c).2.IsBehind c.next
    obtain ⟨n, hn⟩ := Nat.exists_eq_succ_of_ne_zero hlength
    have hrun : (c.advance (plainLength inFlow c.rest)).IsBehind c.next := by
      rw [hn]
      exact .advance (.here _) n
    have hgap := isBehind_plainGap hrun
    unfold plainText
    dsimp only
    split_ifs
    · exact hgap
    · exact isBehind_plainText _ _ _ hgap

/-- The lexemes stand one behind the other from a place to another. -/
def Run : Position → List Lexeme → Position → Prop
  | p, [], q => p ≤ q
  | p, l :: rest, q => p ≤ l.start ∧ l.start ≤ l.stop ∧ Run l.stop rest q

theorem Run.le (hrun : Run p items q) : p ≤ q := by
  induction items generalizing p with
  | nil => exact hrun
  | cons l rest ih => exact hrun.1.trans (hrun.2.1.trans (ih hrun.2.2))

theorem run_append : Run p (items ++ more) q ↔ ∃ r, Run p items r ∧ Run r more q := by
  induction items generalizing p with
  | nil => exact ⟨fun hrun => ⟨p, le_rfl, hrun⟩, fun ⟨r, hle, hrun⟩ => by
      cases more with
      | nil => exact hle.trans hrun
      | cons l rest => exact ⟨hle.trans hrun.1, hrun.2⟩⟩
  | cons l rest ih => simp only [List.cons_append, Run, ih, and_assoc, exists_and_left]

/-- The same lexemes, from a place in front of them on. -/
theorem Run.join {other : Position}
    (hrun : Run p items q) (hother : Run r items other) (hle : r ≤ q) :
    Run r items q := by
  cases items with
  | nil => exact hle
  | cons l rest => exact ⟨hother.1, hrun.2⟩

theorem run_marks (kinds : List LexemeKind) (p : Position) :
    Run p (kinds.map fun kind => ⟨kind, p, p⟩) p := by
  induction kinds with
  | nil => exact le_refl p
  | cons kind rest ih => exact ⟨le_rfl, le_rfl, ih⟩

theorem IsCut.run
    {cut : Lexeme × Cursor} (hcut : IsCut c cut) : Run c.position [cut.1] cut.2.position := by
  obtain ⟨last, hlast, hstop, hrest⟩ := hcut.stop
  refine ⟨hcut.start.ge, ?_, ?_⟩
  · rw [hcut.start, hstop]
    exact hlast.position_le
  · rw [hstop]
    exact hrest.position_le

end Lexeme

/-! ## Lexemes that wait -/

open Lexeme (Run IsCut)

/-- The possible key is remembered with the place of the waiting lexeme that it starts with, or
of the next one. -/
structure PossibleKey.Fits (k : PossibleKey) (p : Position) (queue : List Lexeme)
    (place : Position) (released : Nat) : Prop where
  kept : released ≤ k.number
  waits : k.number ≤ released + queue.length
  before : Run p (queue.take (k.number - released)) k.position
  behind : Run k.position (queue.drop (k.number - released)) place

/-- The lexemes that wait stand behind the released ones, and so do the possible keys, the
innermost and latest first. -/
structure IsQueue (p : Position) (queue : List Lexeme) (place : Position) (released : Nat)
    (level : Int) (keys : List PossibleKey) : Prop where
  run : Run p queue place
  fits : ∀ k ∈ keys, k.Fits p queue place released
  around : ∀ k ∈ keys, k.level ≤ level
  nested : keys.Pairwise fun a b =>
    b.level < a.level ∧ b.number ≤ a.number ∧ b.position ≤ a.position

namespace IsQueue

variable {p place next : Position} {queue more : List Lexeme} {released : Nat} {level : Int}
  {keys : List PossibleKey}

/-- Lexemes are put behind those that wait. -/
theorem append (hqueue : IsQueue p queue place released level keys) (hmore : Run place more next) :
    IsQueue p (queue ++ more) next released level keys where
  run := Lexeme.run_append.mpr ⟨place, hqueue.run, hmore⟩
  fits k hk := by
    have hfits := hqueue.fits k hk
    have hin : k.number - released ≤ queue.length := by
      have := hfits.waits
      omega
    refine ⟨hfits.kept, ?_, ?_, ?_⟩
    · rw [List.length_append]
      exact hfits.waits.trans (by omega)
    · rw [List.take_append_of_le_length hin]
      exact hfits.before
    · rw [List.drop_append_of_le_length hin]
      exact Lexeme.run_append.mpr ⟨place, hfits.behind, hmore⟩
  around := hqueue.around
  nested := hqueue.nested

theorem move (hqueue : IsQueue p queue place released level keys) (hle : place ≤ next) :
    IsQueue p queue next released level keys := by
  have hnone : Run place [] next := hle
  have hmove := hqueue.append hnone
  rwa [List.append_nil] at hmove

theorem sublist
    (hqueue : IsQueue p queue place released level keys) {kept : List PossibleKey}
    (hkept : kept.Sublist keys) :
    IsQueue p queue place released level kept where
  run := hqueue.run
  fits k hk := hqueue.fits k (hkept.subset hk)
  around k hk := hqueue.around k (hkept.subset hk)
  nested := hqueue.nested.sublist hkept

/-- The next lexeme is remembered as a possible key. -/
theorem mark
    (hqueue : IsQueue p queue place released level keys) {k : PossibleKey}
    (hlevel : k.level = level) (hnumber : k.number = released + queue.length)
    (hposition : k.position = place) (hinner : ∀ other ∈ keys, other.level < level) :
    IsQueue p queue place released level (k :: keys) where
  run := hqueue.run
  fits := by
    refine List.forall_mem_cons.mpr ⟨⟨by omega, by omega, ?_, ?_⟩, hqueue.fits⟩
    · rw [hnumber, hposition, Nat.add_sub_cancel_left, List.take_length]
      exact hqueue.run
    · rw [hnumber, hposition, Nat.add_sub_cancel_left, List.drop_length]
      exact le_refl place
  around := List.forall_mem_cons.mpr ⟨hlevel.le, hqueue.around⟩
  nested := by
    refine List.pairwise_cons.mpr ⟨fun other hother => ?_, hqueue.nested⟩
    have hfits := hqueue.fits other hother
    exact ⟨hlevel ▸ hinner other hother, hnumber ▸ hfits.waits, hposition ▸ hfits.behind.le⟩

/-- The marks of the latest key are put in front of the lexeme that it starts with. -/
theorem insert
    {k : PossibleKey} (hqueue : IsQueue p queue place released level (k :: keys))
    {marks : List Lexeme} (hmarks : Run k.position marks k.position) :
    IsQueue p (queue.take (k.number - released) ++ marks ++ queue.drop (k.number - released))
      place released level keys := by
  obtain ⟨hk, hfits⟩ := List.forall_mem_cons.mp hqueue.fits
  obtain ⟨hlatest, hnested⟩ := List.pairwise_cons.mp hqueue.nested
  set i := k.number - released with hi
  have hin : i ≤ queue.length := by
    have := hk.waits
    omega
  have hwhole := hk.before
  refine ⟨?_, fun other hother => ?_, fun other hother => hqueue.around other
    (List.mem_cons_of_mem _ hother), hnested⟩
  · rw [List.append_assoc]
    exact Lexeme.run_append.mpr
      ⟨_, hk.before, Lexeme.run_append.mpr ⟨_, hmarks, hk.behind⟩⟩
  · -- An earlier key stands in front of the marks, and so do the lexemes between the two.
    obtain ⟨hlevel, hnumber, hposition⟩ := hlatest other hother
    have hother := hfits other hother
    set j := other.number - released with hj
    have hji : j ≤ i := by omega
    have htake : queue.take i = queue.take j ++ (queue.take i).drop j := by
      rw [← List.take_append_drop j (queue.take i), List.take_take, min_eq_left hji,
        List.drop_append_of_le_length (by simp; omega)]
      simp
    have hdrop : queue.drop j = (queue.take i).drop j ++ queue.drop i := by
      conv_lhs => rw [← List.take_append_drop i queue]
      rw [List.drop_append_of_le_length (by simp; omega)]
    rw [htake] at hwhole
    obtain ⟨r, -, hbetween⟩ := Lexeme.run_append.mp hwhole
    have hbehind := hother.behind
    rw [hdrop] at hbehind
    obtain ⟨s, hsame, -⟩ := Lexeme.run_append.mp hbehind
    refine ⟨hother.kept, ?_, ?_, ?_⟩
    · have := hother.waits
      simp only [List.length_append, List.length_take, List.length_drop]
      omega
    · rw [List.append_assoc, List.take_append_of_le_length (by simp; omega), List.take_take,
        min_eq_left hji]
      exact hother.before
    · rw [List.append_assoc, List.drop_append_of_le_length (by simp; omega)]
      refine Lexeme.run_append.mpr ⟨k.position, hbetween.join hsame hposition, ?_⟩
      exact Lexeme.run_append.mpr ⟨_, hmarks, hk.behind⟩

/-- The first lexeme is released when no possible key starts with it. -/
theorem release
    {first : Lexeme} (hqueue : IsQueue p (first :: queue) place released level keys)
    (hkeys : ∀ k ∈ keys, k.number ≠ released) :
    IsQueue first.stop queue place (released + 1) level keys where
  run := hqueue.run.2.2
  fits k hk := by
    have hfits := hqueue.fits k hk
    have hlt : released < k.number := lt_of_le_of_ne hfits.kept (hkeys k hk).symm
    have hnumber : k.number - released = k.number - (released + 1) + 1 := by omega
    have hbefore := hfits.before
    have hbehind := hfits.behind
    rw [hnumber, List.take_succ_cons] at hbefore
    rw [hnumber, List.drop_succ_cons] at hbehind
    refine ⟨hlt, ?_, hbefore.2.2, hbehind⟩
    have := hfits.waits
    rw [List.length_cons] at this
    omega
  around := hqueue.around
  nested := hqueue.nested

end IsQueue

/-! ## Lexers -/

/-- What an outcome is like, if it is no failure. -/
def Ensures {α : Type} (outcome : Except Failure α) (post : α → Prop) : Prop :=
  ∀ a, outcome = .ok a → post a

section Ensures

variable {α β : Type} {outcome : Except Failure α} {post : α → Prop}

theorem ensures_ok {a : α} (ha : post a) : Ensures (.ok a) post := by
  rintro b ⟨⟩
  exact ha

theorem ensures_error (f : Failure) : Ensures (.error f) post := nofun

theorem ensures_complain
    (activity : Option Activity) (complaint : Complaint) (position : Position) :
    Ensures (complain activity complaint position) post :=
  nofun

theorem Ensures.bind
    {next : α → Except Failure β} {last : β → Prop} (houtcome : Ensures outcome post)
    (hnext : ∀ a, post a → Ensures (next a) last) :
    Ensures (outcome >>= next) last := by
  cases outcome with
  | error f => exact nofun
  | ok a => exact hnext a (houtcome a rfl)

theorem ensures_ite
    {c : Prop} [Decidable c] {other : Except Failure α} (hthen : c → Ensures outcome post)
    (helse : ¬ c → Ensures other post) :
    Ensures (if c then outcome else other) post := by
  split_ifs with hc
  · exact hthen hc
  · exact helse hc

theorem Reads.ensures {text : List Char} (hreads : Reads text outcome post) :
    Ensures outcome post := by
  rintro a rfl
  exact hreads

end Ensures

namespace Lexer

variable {l l' l'' : Lexer} {m n : Nat}

/-- The lexemes that wait and the possible keys are in order behind a place. -/
def IsOrdered (p : Position) (l : Lexer) : Prop :=
  IsQueue p l.queue l.place l.released l.level l.keys

/-- The lexemes that wait and the blocks that are open. -/
def load (l : Lexer) : Nat := l.queue.length + l.outer.length

/-- Without going back in its text, a lexer gets on in order and loads so much at most. -/
structure Advances (l l' : Lexer) (n : Nat) : Prop where
  ordered : ∀ p, l.IsOrdered p → l'.IsOrdered p
  length : l'.cursor.rest.length ≤ l.cursor.rest.length
  load : l'.load ≤ l.load + n
  done : l'.done = l.done

/-- A lexer gets on and reads nothing. -/
structure Stays (l l' : Lexer) (n : Nat) : Prop extends Advances l l' n where
  cursor : l'.cursor = l.cursor

/-- A lexer gets on and reads a character at least. -/
structure Strides (l l' : Lexer) (n : Nat) : Prop extends Advances l l' n where
  shorter : l'.cursor.rest.length < l.cursor.rest.length

theorem advances_refl (l : Lexer) : Advances l l 0 := ⟨fun _ h => h, le_rfl, le_rfl, rfl⟩

theorem stays_refl (l : Lexer) : Stays l l 0 := ⟨advances_refl l, rfl⟩

theorem Advances.trans (hfirst : Advances l l' m) (hnext : Advances l' l'' n) :
    Advances l l'' (m + n) where
  ordered p h := hnext.ordered p (hfirst.ordered p h)
  length := hnext.length.trans hfirst.length
  load := by
    have := hfirst.load
    have := hnext.load
    omega
  done := hnext.done.trans hfirst.done

theorem Advances.mono (hl : Advances l l' m) (hle : m ≤ n) : Advances l l' n :=
  ⟨hl.ordered, hl.length, hl.load.trans (by omega), hl.done⟩

theorem Stays.mono (hl : Stays l l' m) (hle : m ≤ n) : Stays l l' n :=
  ⟨hl.toAdvances.mono hle, hl.cursor⟩

theorem Stays.trans (hfirst : Stays l l' m) (hnext : Stays l' l'' n) : Stays l l'' (m + n) :=
  ⟨hfirst.toAdvances.trans hnext.toAdvances, hnext.cursor.trans hfirst.cursor⟩

theorem Stays.allow (hl : Stays l l' n) (keyAllowed : Bool) : Stays l { l' with keyAllowed } n :=
  ⟨⟨hl.ordered, hl.length, hl.load, hl.done⟩, hl.cursor⟩

theorem Stays.head (hl : Stays l l' n) (hhead : l.cursor.head ≠ endMark) :
    l'.cursor.head ≠ endMark := by
  rwa [hl.cursor]

theorem Advances.strides (hfirst : Advances l l' m) (hnext : Strides l' l'' n) :
    Strides l l'' (m + n) where
  toAdvances := hfirst.trans hnext.toAdvances
  shorter := hnext.shorter.trans_le hfirst.length

theorem Strides.mono (hl : Strides l l' m) (hle : m ≤ n) : Strides l l' n :=
  ⟨hl.toAdvances.mono hle, hl.shorter⟩

/-! ### Steps that read nothing -/

theorem stays_dropKeys (p : PossibleKey → Bool) :
    Ensures (l.dropKeys p) fun l' =>
      Stays l l' 0 ∧ l' = { l with keys := l.keys.filter fun k => !p k } := by
  unfold dropKeys
  refine ensures_ite (fun _ => ensures_complain _ _ _) fun _ => ensures_ok ⟨⟨?_, rfl⟩, rfl⟩
  exact ⟨fun p hordered => hordered.sublist List.filter_sublist, le_rfl, le_rfl, rfl⟩

theorem stays_dropKey : Ensures l.dropKey fun l' => Stays l l' 0 :=
  fun l' hl' => (stays_dropKeys _ l' hl').1

theorem stays_dropStale : Ensures l.dropStale fun l' => Stays l l' 0 :=
  fun l' hl' => (stays_dropKeys _ l' hl').1

/-- Without the key of its level, a lexer has only keys further outside. -/
theorem level_lt_of_dropKey
    {p : Position} (hordered : l.IsOrdered p) (hdrop : l.dropKey = .ok l') :
    l'.level = l.level ∧ ∀ k ∈ l'.keys, k.level < l.level := by
  obtain ⟨-, rfl⟩ := stays_dropKeys _ l' hdrop
  refine ⟨rfl, fun k hk => ?_⟩
  obtain ⟨hmem, hother⟩ := List.mem_filter.mp hk
  exact lt_of_le_of_ne (hordered.around k hmem) (by simpa using hother)

theorem stays_markKey : Ensures l.markKey fun l' => Stays l l' 0 ∧ l'.level = l.level := by
  unfold markKey
  refine ensures_ite (fun _ => ?_) fun _ => ensures_ok ⟨stays_refl l, rfl⟩
  intro l' hl'
  cases hdrop : l.dropKey with
  | error f =>
      rw [hdrop] at hl'
      cases hl'
  | ok dropped =>
      rw [hdrop] at hl'
      cases hl'
      obtain ⟨hstay, rfl⟩ := stays_dropKeys _ dropped hdrop
      refine ⟨⟨⟨fun p hordered => ?_, hstay.length, hstay.load, hstay.done⟩, hstay.cursor⟩, rfl⟩
      exact (hstay.ordered p hordered).mark rfl rfl rfl (level_lt_of_dropKey hordered hdrop).2

/-- A block that is closed was open, or it is around all blocks. -/
theorem stays_unwind (l : Lexer) (column : Int) : Stays l (l.unwind column) 1 := by
  unfold unwind
  dsimp only
  split_ifs
  · exact (stays_refl l).mono (Nat.zero_le _)
  · refine ⟨⟨fun p hordered => hordered.append ?_, le_rfl, ?_, rfl⟩, rfl⟩
    · have hmarks := Lexeme.run_marks
        (((l.indent :: l.outer).takeWhile (column < ·)).map fun _ => .blockEnd) l.place
      rwa [List.map_map] at hmarks
    · have hle : ((l.indent :: l.outer).takeWhile (column < ·)).length ≤
          (l.indent :: l.outer).length := (List.takeWhile_prefix _).length_le
      simp only [load, List.length_append, List.length_map, List.length_drop, List.length_cons]
        at hle ⊢
      omega

theorem stays_startBlock (l : Lexer) (kind : LexemeKind) : Stays l (l.startBlock kind) 2 := by
  unfold startBlock openBlock
  split
  next opened hopened =>
    split_ifs at hopened
    cases hopened
    refine ⟨⟨fun p hordered => hordered.append (Lexeme.run_marks [kind] l.place), le_rfl, ?_,
      rfl⟩, rfl⟩
    simp only [load, pushMark, push, List.length_append, List.length_cons, List.length_nil]
    omega
  next => exact (stays_refl l).mono (Nat.zero_le _)

/-- The key of the level that was remembered is the latest of all. -/
theorem sublist_of_find?
    {p : Position} (hordered : l.IsOrdered p) {k : PossibleKey}
    (hfind : l.keys.find? (fun k => k.level == l.level) = some k) :
    (k :: l.keys.filter fun k => k.level != l.level).Sublist l.keys := by
  obtain ⟨hlevel, before, behind, hkeys, -⟩ := List.find?_eq_some_iff_append.mp hfind
  have hsame : k.level = l.level := by simpa using hlevel
  have hnone : before = [] := by
    refine List.eq_nil_iff_forall_not_mem.mpr fun other hother => ?_
    have hnested := hordered.nested
    rw [hkeys, List.pairwise_append] at hnested
    have hlt := (hnested.2.2 other hother k List.mem_cons_self).1
    have hle := hordered.around other (by simp [hkeys, hother])
    omega
  rw [hkeys, hnone, List.nil_append, List.filter_cons_of_neg (by simp [hsame])]
  exact List.filter_sublist.cons_cons k

theorem stays_insertKey
    {k : PossibleKey} (hfind : l.keys.find? (fun k => k.level == l.level) = some k) :
    Stays l ({ l with keys := l.keys.filter fun k => k.level != l.level }.insertKey k) 3 := by
  -- One mark or two are put in, and at most one block is opened.
  have hinsert (indent : Int) (outer : List Int) (kinds : List LexemeKind)
      (hload : kinds.length + outer.length ≤ l.outer.length + 3) :
      Stays l { l with
        keys := l.keys.filter fun k => k.level != l.level
        queue := l.queue.take (k.number - l.released) ++
          kinds.map (fun kind => ⟨kind, k.position, k.position⟩) ++
          l.queue.drop (k.number - l.released)
        indent, outer } 3 := by
    refine ⟨⟨fun p hordered => ?_, le_rfl, ?_, rfl⟩, rfl⟩
    · exact (hordered.sublist (sublist_of_find? hordered hfind)).insert (Lexeme.run_marks _ _)
    · simp only [load, List.length_append, List.length_take, List.length_drop, List.length_map]
      omega
  unfold insertKey openBlock
  split_ifs
  · exact hinsert l.indent l.outer [.key] (by simp; omega)
  · exact hinsert _ (l.indent :: l.outer) [.blockMappingStart, .key] (by simp; omega)
  · exact hinsert l.indent l.outer [.key] (by simp; omega)

theorem stays_leaveBlocks : Ensures l.leaveBlocks fun l' => Stays l l' 1 := by
  refine Ensures.bind stays_dropKey fun dropped hdropped => ensures_ok ?_
  exact ((stays_unwind l (-1)).trans hdropped).allow false

theorem advances_skipBlanks (fuel : Nat) (l : Lexer) : Advances l (skipBlanks fuel l) 0 := by
  have hmove (l : Lexer) (keyAllowed : Bool) {cursor : Cursor}
      (hcursor : cursor.IsBehind l.cursor) :
      Advances l { l with cursor, keyAllowed } 0 :=
    ⟨fun p hordered => hordered.move hcursor.position_le, hcursor.length_le, le_rfl, rfl⟩
  induction fuel generalizing l with
  | zero => exact advances_refl l
  | succ fuel ih =>
      have hblanks : l.cursor.dropSpaces.dropComment.IsBehind l.cursor :=
        ((Cursor.IsBehind.here _).dropSpaces).dropComment
      unfold skipBlanks
      dsimp only
      split_ifs
      · exact (hmove l _ hblanks.takeBreak).trans (ih _)
      · exact hmove l _ hblanks

theorem advances_toLexeme (l : Lexer) : Advances l l.toLexeme 0 := by
  have hcursor : (if l.cursor.index = 0 ∧ l.cursor.head = '\ufeff' then l.cursor.next
      else l.cursor).IsBehind l.cursor := by
    split_ifs
    · exact .next (.here _)
    · exact .here _
  unfold toLexeme
  dsimp only
  generalize (if l.cursor.index = 0 ∧ l.cursor.head = '\ufeff' then l.cursor.next
      else l.cursor) = cursor at hcursor
  have hmove : Advances l { l with cursor } 0 :=
    ⟨fun p hordered => hordered.move hcursor.position_le, hcursor.length_le, le_rfl, rfl⟩
  exact hmove.trans (advances_skipBlanks _ _)

/-! ### Steps that read -/

theorem isIndicator_of_isFlowMark
    {c : Char} (hc : Lexeme.isFlowMark c = true) : isIndicator c = true := by
  simp only [Lexeme.isFlowMark, Bool.or_eq_true, beq_iff_eq] at hc
  rcases hc with ((((rfl | rfl) | rfl) | rfl) | rfl) | rfl <;> decide

/-- What may start a plain scalar does not end it. -/
theorem endsPlain_eq_false
    {inFlow : Bool} {c next : Char}
    (hstarts : (!isIndicator c || (!isBlankOrEnd next &&
      (c == '-' || (!inFlow && (c == '?' || c == ':'))))) = true) :
    Lexeme.endsPlain inFlow c next = false := by
  unfold Lexeme.endsPlain
  rcases Bool.or_eq_true_iff.mp hstarts with hother | hmark
  · have hindicator : isIndicator c = false := by simpa using hother
    have hblank : isBlankOrEnd c = false := (Bool.or_eq_false_iff.mp hindicator).1
    have hcolon : (c == ':') = false := by
      refine beq_eq_false_iff_ne.mpr ?_
      rintro rfl
      exact absurd hindicator (by decide)
    have hflow : Lexeme.isFlowMark c = false := by
      refine Bool.eq_false_iff.mpr fun hflow => ?_
      rw [isIndicator_of_isFlowMark hflow] at hindicator
      cases hindicator
    simp [hblank, hcolon, hflow]
  · simp only [Bool.and_eq_true, Bool.or_eq_true, Bool.not_eq_true', beq_iff_eq] at hmark
    obtain ⟨hnext, rfl | ⟨rfl, rfl | rfl⟩⟩ := hmark
    · have hdash : isBlankOrEnd '-' = false ∧ Lexeme.isFlowMark '-' = false := by decide
      simp [hdash]
    · have hquestion : isBlankOrEnd '?' = false := by decide
      simp [hquestion]
    · have hcolon : isBlankOrEnd ':' = false := by decide
      simp [hcolon, hnext]

theorem plainLength_ne_zero
    (hhead : l.cursor.head ≠ endMark) (hplain : l.startsPlain = true) :
    Lexeme.plainLength l.inFlow l.cursor.rest ≠ 0 := by
  have hends := endsPlain_eq_false hplain
  have hpeek : l.cursor.peek 1 = l.cursor.next.rest.headD endMark := by
    rw [Cursor.peek, Cursor.rest_eq_cons rfl hhead, List.headD_eq_head?_getD,
      List.head?_eq_getElem?, List.getElem?_cons_succ]
  rw [hpeek] at hends
  rw [Cursor.rest_eq_cons rfl hhead, Lexeme.plainLength, hends]
  simp

section Reading

variable (hhead : l.cursor.head ≠ endMark)

include hhead

theorem strides_push
    {cut : Lexeme × Cursor} (hcut : IsCut l.cursor cut) (keyAllowed : Bool) :
    Strides l { l.push cut.1 with cursor := cut.2, keyAllowed } 1 where
  ordered p hordered := hordered.append hcut.run
  length := (hcut.further.length_le.trans_lt (Cursor.length_next_lt hhead)).le
  shorter := hcut.further.length_le.trans_lt (Cursor.length_next_lt hhead)
  load := by
    simp only [load, push, List.length_append, List.length_singleton]
    omega
  done := rfl

theorem Stays.pushNext (hl : Stays l l' n) (kind : LexemeKind) (length : Nat) :
    Strides l (l'.pushNext kind (length + 1)) (n + 1) :=
  hl.toAdvances.strides (strides_push (hl.head hhead)
    (Lexeme.isCut_of_stop (.advance (.here _) length)) l'.keyAllowed)

theorem strides_readWith
    {read : Cursor → Except Failure (Lexeme × Cursor)}
    (hread : Ensures (read l.cursor) (IsCut l.cursor)) :
    Ensures (l.readWith read) fun l' => Strides l l' 1 :=
  hread.bind fun _ hcut => ensures_ok (strides_push hhead hcut l.keyAllowed)

theorem Stays.readWith
    (hl : Stays l l' n) {read : Cursor → Except Failure (Lexeme × Cursor)}
    (hread : Ensures (read l.cursor) (IsCut l.cursor)) :
    Ensures (l'.readWith read) fun l'' => Strides l l'' (n + 1) := by
  have hnext := strides_readWith (hl.head hhead) (hl.cursor ▸ hread)
  exact fun l'' hl'' => hl.toAdvances.strides (hnext l'' hl'')

theorem strides_keyLike
    {read : Cursor → Except Failure (Lexeme × Cursor)}
    (hread : Ensures (read l.cursor) (IsCut l.cursor)) :
    Ensures (l.keyLike read) fun l' => Strides l l' 1 :=
  Ensures.bind stays_markKey fun _ hmarked => (hmarked.1.allow false).readWith hhead hread

theorem strides_flowStart (kind : LexemeKind) :
    Ensures (l.flowStart kind) fun l' => Strides l l' 1 := by
  refine Ensures.bind stays_markKey fun marked ⟨hmarked, _⟩ => ensures_ok ?_
  have hstay : Stays l { marked with level := marked.level + 1, keyAllowed := true } 0 := by
    refine ⟨⟨fun p hordered => ?_, hmarked.length, hmarked.load, hmarked.done⟩, hmarked.cursor⟩
    have hqueue := hmarked.ordered p hordered
    exact ⟨hqueue.run, hqueue.fits, fun k hk => (hqueue.around k hk).trans (by simp),
      hqueue.nested⟩
  exact hstay.pushNext hhead kind 0

theorem strides_flowEnd (kind : LexemeKind) :
    Ensures (l.flowEnd kind) fun l' => Strides l l' 1 := by
  intro l' hl'
  unfold flowEnd at hl'
  cases hdrop : l.dropKey with
  | error f =>
      rw [hdrop] at hl'
      cases hl'
  | ok dropped =>
      rw [hdrop] at hl'
      cases hl'
      have hdropped := stays_dropKey dropped hdrop
      have hstay : Stays l { dropped with level := dropped.level - 1, keyAllowed := false } 0 := by
        refine ⟨⟨fun p hordered => ?_, hdropped.length, hdropped.load, hdropped.done⟩,
          hdropped.cursor⟩
        have hqueue := hdropped.ordered p hordered
        obtain ⟨hlevel, hinner⟩ := level_lt_of_dropKey hordered hdrop
        refine ⟨hqueue.run, hqueue.fits, fun k hk => ?_, hqueue.nested⟩
        have hlt := hinner k hk
        dsimp only
        omega
      exact hstay.pushNext hhead kind 0

theorem strides_flowEntry : Ensures l.flowEntry fun l' => Strides l l' 1 :=
  Ensures.bind stays_dropKey fun _ hdropped =>
    ensures_ok ((hdropped.allow true).pushNext hhead .flowEntry 0)

omit hhead in
theorem stays_block (l : Lexer) (kind : LexemeKind) :
    Stays l (if l.inFlow then l else l.startBlock kind) 2 := by
  split_ifs
  · exact (stays_refl l).mono (Nat.zero_le _)
  · exact stays_startBlock l kind

theorem strides_blockEntry : Ensures l.blockEntry fun l' => Strides l l' 3 := by
  refine Ensures.bind (fun _ _ => trivial) fun _ _ => ?_
  refine Ensures.bind stays_dropKey fun dropped hdropped => ensures_ok ?_
  exact (((stays_block l .blockSequenceStart).trans hdropped).allow true).pushNext hhead _ 0

theorem strides_key : Ensures l.key fun l' => Strides l l' 3 := by
  refine Ensures.bind (fun _ _ => trivial) fun _ _ => ?_
  refine Ensures.bind stays_dropKey fun dropped hdropped => ensures_ok ?_
  exact (((stays_block l .blockMappingStart).trans hdropped).allow _).pushNext hhead _ 0

theorem strides_value : Ensures l.value fun l' => Strides l l' 4 := by
  unfold value
  split
  next k hfind => exact ensures_ok (((stays_insertKey hfind).allow false).pushNext hhead _ 0)
  next =>
    refine Ensures.bind (fun _ _ => trivial) fun _ _ => ?_
    refine Ensures.bind stays_dropKey fun dropped hdropped => ensures_ok ?_
    have hstay := ((stays_block l .blockMappingStart).allow _).trans hdropped
    exact (hstay.pushNext hhead _ 0).mono (by omega)

theorem strides_blockScalar : Ensures l.blockScalar fun l' => Strides l l' 1 := by
  refine Ensures.bind stays_dropKey fun dropped hdropped => ?_
  exact ((stays_refl l).allow true |>.trans hdropped).readWith hhead (Lexeme.cuts_block _).ensures

theorem strides_plainScalar (hplain : l.startsPlain = true) :
    Ensures l.plainScalar fun l' => Strides l l' 1 := by
  refine Ensures.bind stays_markKey fun marked ⟨hmarked, hlevel⟩ => ensures_ok ?_
  have hflow : marked.inFlow = l.inFlow := by simp only [inFlow, hlevel]
  have hcut := Lexeme.isCut_plain marked.inFlow (marked.indent + 1) (c := marked.cursor) (by
    rw [hflow, hmarked.cursor]
    exact plainLength_ne_zero hhead hplain)
  exact hmarked.toAdvances.strides (strides_push (hmarked.head hhead) hcut _)

end Reading

/-! ### Rounds -/

/-- The last lexeme that waits is the end of the stream. -/
def IsAtEnd (l : Lexer) : Prop := ∃ items last, l.queue = items ++ [last] ∧ last.kind = .streamEnd

/-- A lexer comes to the end of the stream in order. -/
structure Ends (l l' : Lexer) : Prop where
  ordered : ∀ p, l.IsOrdered p → l'.IsOrdered p
  done : l'.done = true
  last : l'.IsAtEnd

theorem ends_streamEnd : Ensures l.streamEnd fun l' => Ends l l' := by
  refine Ensures.bind stays_dropKey fun dropped hdropped => ensures_ok ?_
  have hstay := (stays_unwind l (-1)).trans hdropped
  refine ⟨fun p hordered => ?_, rfl, dropped.queue, _, rfl, rfl⟩
  exact ((hstay.ordered p hordered).append (Lexeme.run_marks [.streamEnd] dropped.place)).sublist
    (List.nil_sublist _)

/-- A round comes to the end of the stream, or it reads a character at least. -/
theorem strides_readLexeme :
    Ensures l.readLexeme fun l' => Ends l l' ∨ Strides l l' 4 := by
  have hstrides {outcome : Except Failure Lexer} {n : Nat} (hn : n ≤ 4)
      (houtcome : Ensures outcome fun l' => Strides l l' n) :
      Ensures outcome fun l' => Ends l l' ∨ Strides l l' 4 :=
    fun l' hl' => .inr ((houtcome l' hl').mono hn)
  unfold readLexeme
  refine ensures_ite (fun _ l' hl' => .inl (ends_streamEnd l' hl')) fun hhead => ?_
  have hleave (kind : LexemeKind) : Ensures (do
      let l ← l.leaveBlocks
      .ok (l.pushNext kind 3)) fun l' => Strides l l' 2 :=
    stays_leaveBlocks.bind fun l' hl' => ensures_ok (hl'.pushNext hhead kind 2)
  refine ensures_ite (fun _ => ?_) fun _ => ?_
  · exact hstrides (n := 2) (by omega) (stays_leaveBlocks.bind fun l' hl' =>
      hl'.readWith hhead Lexeme.cuts_directive.ensures)
  refine ensures_ite (fun _ => hstrides (by omega) (hleave .documentStart)) fun _ => ?_
  refine ensures_ite (fun _ => hstrides (by omega) (hleave .documentEnd)) fun _ => ?_
  refine ensures_ite (fun _ => hstrides (by omega) (strides_flowStart hhead _)) fun _ => ?_
  refine ensures_ite (fun _ => hstrides (by omega) (strides_flowStart hhead _)) fun _ => ?_
  refine ensures_ite (fun _ => hstrides (by omega) (strides_flowEnd hhead _)) fun _ => ?_
  refine ensures_ite (fun _ => hstrides (by omega) (strides_flowEnd hhead _)) fun _ => ?_
  refine ensures_ite (fun _ => hstrides (by omega) (strides_flowEntry hhead)) fun _ => ?_
  refine ensures_ite (fun _ => hstrides (by omega) (strides_blockEntry hhead)) fun _ => ?_
  refine ensures_ite (fun _ => hstrides (by omega) (strides_key hhead)) fun _ => ?_
  refine ensures_ite (fun _ => hstrides le_rfl (strides_value hhead)) fun _ => ?_
  have hkeyLike {read : Cursor → Except Failure (Lexeme × Cursor)}
      (hread : Reads l.cursor.next.rest (read l.cursor) (IsCut l.cursor)) :=
    hstrides (by omega) (strides_keyLike hhead hread.ensures)
  refine ensures_ite (fun _ => hkeyLike (Lexeme.cuts_name _ _)) fun _ => ?_
  refine ensures_ite (fun _ => hkeyLike (Lexeme.cuts_name _ _)) fun _ => ?_
  refine ensures_ite (fun _ => hkeyLike Lexeme.cuts_tag) fun _ => ?_
  refine ensures_ite (fun _ => hstrides (by omega) (strides_blockScalar hhead)) fun _ => ?_
  refine ensures_ite (fun _ => hkeyLike Lexeme.cuts_quoted) fun _ => ?_
  exact ensures_ite (fun hplain => hstrides (by omega) (strides_plainScalar hhead hplain))
    fun _ => ensures_complain _ _ _

theorem strides_fetch : Ensures l.fetch fun l' => Ends l l' ∨ Strides l l' 5 := by
  refine Ensures.bind stays_dropStale fun dropped hdropped => ?_
  have hadvance := ((advances_toLexeme l).trans hdropped.toAdvances).trans
    (stays_unwind dropped dropped.column).toAdvances
  refine fun l' hl' => (strides_readLexeme l' hl').imp (fun hends => ?_) fun hstrides => ?_
  · exact ⟨fun p hordered => hends.ordered p (hadvance.ordered p hordered), hends.done, hends.last⟩
  · exact hadvance.strides hstrides

theorem strides_fetchFrom (broken : Option SourceError) :
    Ensures (l.fetchFrom broken) fun l' => Ends l l' ∨ Strides l l' 5 := by
  have hfetch := strides_fetch (l := l)
  unfold fetchFrom
  split
  next hnext => exact ensures_ite (fun _ => ensures_error _) fun _ => ensures_ok (hfetch _ hnext)
  next => split_ifs <;> exact ensures_error _
  next => exact hfetch

/-- The reading of lexemes can go on: they are in order from the place on, a lexer that is done has
the end of the stream in its queue, and otherwise the rounds that are left are enough, for every
round but the last uses up some of what is left: characters, lexemes that wait and open blocks. -/
structure GoesOn (p : Position) (rounds : Nat) (l : Lexer) : Prop where
  ordered : l.IsOrdered p
  last : l.done = true → l.IsAtEnd
  enough : l.done = false → 8 * l.cursor.rest.length + l.load + 2 ≤ rounds

section GoesOn

variable {p : Position} {rounds : Nat} (hdone : l.done = false)

include hdone

theorem GoesOn.fetch
    (hgoes : l.GoesOn p (rounds + 1)) {broken : Option SourceError}
    (hnext : l.fetchFrom broken = .ok l') :
    l'.GoesOn p rounds := by
  rcases strides_fetchFrom broken l' hnext with hends | hstrides
  · exact {
      ordered := hends.ordered p hgoes.ordered
      last _ := hends.last
      enough hgoing := by simp [hends.done] at hgoing }
  · have hgoing : l'.done = false := hstrides.done.trans hdone
    have hbound := hgoes.enough hdone
    have hshorter := hstrides.shorter
    have hload := hstrides.load
    exact {
      ordered := hstrides.ordered p hgoes.ordered
      last hends := by simp [hgoing] at hends
      enough _ := by omega }

theorem GoesOn.dropStale
    (hgoes : l.GoesOn p rounds) (hdrop : l.dropStale = .ok l') :
    l'.GoesOn p rounds ∧ l'.done = false ∧ l'.queue = l.queue := by
  obtain ⟨hstay, hkept⟩ := stays_dropKeys _ l' hdrop
  have hgoing : l'.done = false := hstay.done.trans hdone
  have hbound := hgoes.enough hdone
  have hload := hstay.load
  have hlength := hstay.length
  refine ⟨?_, hgoing, by rw [hkept]⟩
  exact {
    ordered := hstay.ordered p hgoes.ordered
    last hends := by simp [hgoing] at hends
    enough _ := by omega }

/-- The first lexeme is released when no key starts with it. -/
theorem GoesOn.release
    (hgoes : l.GoesOn p (rounds + 1)) {first : Lexeme} {rest : List Lexeme}
    (hqueue : l.queue = first :: rest) (hkey : l.mayBeKey = false) :
    p ≤ first.start ∧ first.start ≤ first.stop ∧
      GoesOn first.stop rounds { l with queue := rest, released := l.released + 1 } := by
  have hkeys : ∀ k ∈ l.keys, k.number ≠ l.released := by simpa [mayBeKey] using hkey
  have hqueued : IsQueue p (first :: rest) l.place l.released l.level l.keys :=
    hqueue ▸ hgoes.ordered
  have hbound := hgoes.enough hdone
  have hlength : l.queue.length = rest.length + 1 := by rw [hqueue, List.length_cons]
  obtain ⟨hstart, hstop, -⟩ := hqueued.run
  refine ⟨hstart, hstop, ?_⟩
  exact {
    ordered := hqueued.release hkeys
    last hends := by simp [hdone] at hends
    enough _ := by
      simp only [load] at hbound ⊢
      omega }

end GoesOn

end Lexer

/-! ## Streams of lexemes -/

namespace Lexemes

/-- The lexemes stand one behind the other from the place on, and they end with the end of the
stream or with a failure. -/
inductive IsFrom : Position → Lexemes → Prop
  | failed (p : Position) (f : Failure) : IsFrom p ⟨[], some f⟩
  | last {p : Position} {l : Lexeme} {rest : List Lexeme} {failure : Option Failure}
      (hstart : p ≤ l.start) (hstop : l.start ≤ l.stop) (hkind : l.kind = .streamEnd) :
      IsFrom p ⟨l :: rest, failure⟩
  | next {p : Position} {l : Lexeme} {rest : List Lexeme} {failure : Option Failure}
      (hstart : p ≤ l.start) (hstop : l.start ≤ l.stop) (hrest : IsFrom l.stop ⟨rest, failure⟩) :
      IsFrom p ⟨l :: rest, failure⟩

theorem isFrom_of_run
    {p q : Position} {items : List Lexeme} {last : Lexeme} (hrun : Lexeme.Run p (items ++ [last]) q)
    (hlast : last.kind = .streamEnd) (failure : Option Failure) :
    IsFrom p ⟨items ++ [last], failure⟩ := by
  induction items generalizing p with
  | nil => exact .last hrun.1 hrun.2.1 hlast
  | cons l rest ih => exact .next hrun.1 hrun.2.1 (ih hrun.2.2)

theorem isFrom_of_isAtEnd
    {p : Position} {l : Lexer} (hordered : l.IsOrdered p) (hend : l.IsAtEnd) :
    IsFrom p ⟨l.queue, none⟩ := by
  obtain ⟨items, last, hqueue, hlast⟩ := hend
  have hrun := hordered.run
  rw [hqueue] at hrun ⊢
  exact isFrom_of_run hrun hlast none

theorem isFrom_ofLexer
    (broken : Option SourceError) {rounds : Nat} {p : Position} {l : Lexer}
    (hgoes : l.GoesOn p rounds) :
    IsFrom p (ofLexer broken rounds l) := by
  induction rounds generalizing p l with
  | zero =>
      cases hdone : l.done with
      | true => exact isFrom_of_isAtEnd hgoes.ordered (hgoes.last hdone)
      | false => exact absurd (hgoes.enough hdone) (by omega)
  | succ rounds ih =>
      unfold ofLexer
      split_ifs with hdone
      · exact isFrom_of_isAtEnd hgoes.ordered (hgoes.last hdone)
      · rw [Bool.not_eq_true] at hdone
        dsimp only
        split
        next =>
          split
          next hnext => exact ih (hgoes.fetch hdone hnext)
          next f _ => exact .failed p f
        next first rest hqueue =>
          split
          next f _ => exact .failed p f
          next kept hdrop =>
            obtain ⟨hkept, hgoing, hwaits⟩ := hgoes.dropStale hdone hdrop
            split_ifs with hkey
            · split
              next hnext => exact ih (hkept.fetch hgoing hnext)
              next f _ => exact .failed p f
            · obtain ⟨hstart, hstop, hreleased⟩ :=
                hkept.release hgoing (hwaits.trans hqueue) (by simpa using hkey)
              exact .next hstart hstop (ih hreleased)

/-- The lexemes of a source come in the order of its text, up to its end or to a failure. -/
theorem isFrom_ofSource (source : Source) : IsFrom ⟨0, 0⟩ (ofSource source) := by
  refine isFrom_ofLexer source.broken ⟨⟨le_refl _, nofun, nofun, .nil⟩, nofun, fun _ => ?_⟩
  simp only [Lexer.ofText, Cursor.ofText, Lexer.load, List.length_nil]
  omega

end Lexemes

end Yaml

end Wireframe
