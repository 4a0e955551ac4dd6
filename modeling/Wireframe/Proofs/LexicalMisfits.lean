import Mathlib.Data.List.TakeWhile
import Mathlib.Tactic
import Wireframe.Yaml.Lexeme.Stream

/-!
# Misfits of lexemes

Reading goes forward in a text, so whatever is read stands behind the place where reading
started.  A lexeme is no misfit but for one of two reasons, and both stand in the text: an
escape whose code is that of no character, and a number of a version that is too long.
-/

namespace Wireframe.Yaml

open Wireframe.Decimal
open Failure (complain)

/-- Why a text may be cut into no lexemes without a report. -/
inductive IsMisread (text : List Char) : Misfit → Prop
  | code {digits m} (hescape : '\\' :: 'U' :: digits <:+: text) (hlength : digits.length = 8)
      (hhex : ∀ c ∈ digits, (Lexeme.hexValue? c).isSome)
      (hlarge : 0x10ffff < Lexeme.ofHexDigits digits)
      (hm : m = .largeCodePoint ∨ m = .hugeCodePoint) : IsMisread text m
  | version {digits} (hnumber : digits <:+: text) (hdigits : ∀ c ∈ digits, isDigit c)
      (hlength : maxDigits < digits.length) : IsMisread text (.longInteger digits.length)

/-- Reading leads to such a result, or it fails, and a misfit has a cause in the text. -/
def Reads {α : Type} (text : List Char) (outcome : Except Failure α) (post : α → Prop) : Prop :=
  match outcome with
  | .ok a => post a
  | .error f => ∀ m, f = .misfit m → IsMisread text m

section Steps

variable {α β : Type} {text : List Char} {outcome : Except Failure α} {post : α → Prop}

theorem Reads.imp
    {post' : α → Prop} (hreads : Reads text outcome post) (hpost : ∀ a, post a → post' a) :
    Reads text outcome post' := by
  cases outcome with
  | ok a => exact hpost a hreads
  | error f => exact hreads

theorem Reads.bind
    {next : α → Except Failure β} {post' : β → Prop} (hreads : Reads text outcome post)
    (hnext : ∀ a, post a → Reads text (next a) post') :
    Reads text (outcome >>= next) post' := by
  cases outcome with
  | ok a => exact hnext a hreads
  | error f => exact hreads

theorem Reads.map
    {f : α → β} {post' : β → Prop} (hreads : Reads text outcome post)
    (hf : ∀ a, post a → post' (f a)) :
    Reads text (outcome.map f) post' := by
  cases outcome with
  | ok a => exact hf a hreads
  | error f => exact hreads

theorem Reads.map_bind
    {γ : Type} {f : α → β} {next : β → Except Failure γ} {post' : γ → Prop}
    (hreads : Reads text outcome post) (hnext : ∀ a, post a → Reads text (next (f a)) post') :
    Reads text (outcome.map f >>= next) post' := by
  cases outcome with
  | ok a => exact hnext a hreads
  | error f => exact hreads

theorem reads_complain
    (activity : Option Activity) (complaint : Complaint) (position : Position) :
    Reads text (complain activity complaint position) post :=
  nofun

end Steps

/-! ## Places -/

namespace Cursor

variable {start c : Cursor}

/-- Reading on from the second place leads to the first. -/
inductive IsBehind : Cursor → Cursor → Prop
  | here (c : Cursor) : IsBehind c c
  | next {c start : Cursor} (hc : c.IsBehind start) : IsBehind c.next start

theorem IsBehind.trans {first : Cursor} (hc : c.IsBehind start) (hstart : start.IsBehind first) :
    c.IsBehind first := by
  induction hc with
  | here => exact hstart
  | next _ ih => exact (ih hstart).next

theorem next_rest_suffix (c : Cursor) : c.next.rest <:+ c.rest := by
  unfold Cursor.next
  split
  next => exact List.suffix_rfl
  next x rest hrest =>
    rw [hrest]
    exact List.suffix_cons x rest

/-- What stands behind the place stands behind the start. -/
theorem IsBehind.suffix (hc : c.IsBehind start) : c.rest <:+ start.rest := by
  induction hc with
  | here => exact List.suffix_rfl
  | next _ ih => exact (next_rest_suffix _).trans ih

theorem IsBehind.advance (hc : c.IsBehind start) (n : Nat) : (c.advance n).IsBehind start := by
  induction n generalizing c with
  | zero => exact hc
  | succ n ih => exact ih hc.next

theorem IsBehind.takeWhile (hc : c.IsBehind start) (p : Char → Bool) :
    (c.takeWhile p).2.IsBehind start :=
  hc.advance _

theorem IsBehind.dropWhile (hc : c.IsBehind start) (p : Char → Bool) :
    (c.dropWhile p).IsBehind start :=
  hc.advance _

theorem IsBehind.dropSpaces (hc : c.IsBehind start) : c.dropSpaces.IsBehind start := hc.dropWhile _

theorem IsBehind.dropIndent (hc : c.IsBehind start) (column : Nat) :
    (c.dropIndent column).IsBehind start :=
  hc.advance _

theorem IsBehind.dropComment (hc : c.IsBehind start) : c.dropComment.IsBehind start := by
  unfold Cursor.dropComment
  split_ifs
  · exact hc.dropWhile _
  · exact hc

theorem IsBehind.takeBreak (hc : c.IsBehind start) : c.takeBreak.2.IsBehind start := by
  unfold Cursor.takeBreak
  split_ifs
  · exact hc.advance 2
  · exact hc.next
  · exact hc.next
  · exact hc

/-- A character that is not the end of the text stands in front of the next place. -/
theorem rest_eq_cons {x : Char} (hhead : c.head = x) (hx : x ≠ endMark) :
    c.rest = x :: c.next.rest := by
  unfold head at hhead
  unfold next
  cases hrest : c.rest with
  | nil =>
      rw [hrest] at hhead
      exact absurd hhead.symm hx
  | cons y rest =>
      rw [hrest] at hhead
      exact congrArg (· :: rest) hhead

end Cursor

namespace Lexeme

variable {start c : Cursor}

/-- The place behind what was read is behind the start. -/
abbrev Further {α : Type} (start : Cursor) (r : α × Cursor) : Prop := r.2.IsBehind start

/-! ## Tags and names -/

theorem reads_uriBytes
    (place : TagPlace) (fuel : Nat) (hc : c.IsBehind start) :
    Reads start.rest (uriBytes place fuel c) (Further start) := by
  induction fuel generalizing c with
  | zero => exact hc
  | succ fuel ih =>
      unfold uriBytes
      split_ifs
      · exact hc
      · dsimp only
        split
        next => exact reads_complain _ _ _
        next => exact (ih (hc.next.advance 2)).bind fun r hr => hr

theorem reads_uriEscapes
    (place : TagPlace) (hc : c.IsBehind start) :
    Reads start.rest (uriEscapes place c) (Further start) := by
  refine (reads_uriBytes place _ hc).bind fun r hr => ?_
  dsimp only
  split
  next => exact hr
  next => exact reads_complain _ _ _

theorem reads_uriText
    (place : TagPlace) (fuel : Nat) (hc : c.IsBehind start) :
    Reads start.rest (uriText place fuel c) (Further start) := by
  induction fuel generalizing c with
  | zero => exact hc
  | succ fuel ih =>
      unfold uriText
      split_ifs
      · exact (reads_uriEscapes place hc).bind fun r hr => (ih hr).bind fun r hr => hr
      · exact (ih (hc.takeWhile _)).bind fun r hr => hr
      · exact hc

theorem reads_uri
    (place : TagPlace) (hc : c.IsBehind start) :
    Reads start.rest (uri place c) (Further start) := by
  unfold uri
  split_ifs
  · exact (reads_uriText place _ hc).bind fun r hr => hr
  · exact reads_complain _ _ _

theorem reads_handle
    (place : TagPlace) (hc : c.next.IsBehind start) :
    Reads start.rest (handle place c) (Further start) := by
  unfold handle
  split_ifs
  · exact reads_complain _ _ _
  · exact hc
  · dsimp only
    split_ifs
    · exact (hc.takeWhile _).next
    · exact reads_complain _ _ _

theorem reads_tagParts
    (hc : c.next.IsBehind start) :
    Reads start.rest (tagParts c) (Further start) := by
  unfold tagParts
  split_ifs
  · refine (reads_uri .node (hc.advance 1)).bind fun r hr => ?_
    dsimp only
    split_ifs
    · exact reads_complain _ _ _
    · exact hr.next
  · exact hc
  · exact (reads_handle .node hc).bind fun r hr => (reads_uri .node hr).bind fun r hr => hr
  · exact (reads_uri .node hc).bind fun r hr => hr

theorem reads_versionNumber
    (hc : c.IsBehind start) :
    Reads start.rest (versionNumber c) (Further start) := by
  unfold versionNumber
  dsimp only
  split_ifs with hnone hlong
  · exact reads_complain _ _ _
  · rintro m ⟨⟩
    have hfront : c.rest.takeWhile isDigit <+: c.rest := List.takeWhile_prefix _
    exact .version (hfront.isInfix.trans hc.suffix.isInfix)
      (fun x hx => List.mem_takeWhile_imp hx) hlong
  · exact hc.takeWhile _

theorem reads_version
    (hc : c.IsBehind start) :
    Reads start.rest (version c) (Further start) := by
  refine (reads_versionNumber hc.dropSpaces).bind fun ⟨major, rest⟩ hmajor => ?_
  dsimp only
  split_ifs
  · exact reads_complain _ _ _
  · have hnext : rest.next.IsBehind start := .next hmajor
    refine (reads_versionNumber hnext).bind fun ⟨minor, last⟩ hminor => ?_
    dsimp only
    split_ifs
    · exact hminor
    · exact reads_complain _ _ _

theorem reads_tagDirective
    (hc : c.IsBehind start) :
    Reads start.rest (tagDirective c) (Further start) := by
  refine (reads_handle .directive hc.dropSpaces.next).bind fun ⟨handle, rest⟩ hhandle => ?_
  dsimp only
  split_ifs
  · exact reads_complain _ _ _
  · have hspaces : rest.dropSpaces.IsBehind start := .dropSpaces hhandle
    refine (reads_uri .directive hspaces).bind fun ⟨stem, last⟩ hstem => ?_
    dsimp only
    split_ifs
    · exact hstem
    · exact reads_complain _ _ _

theorem reads_lineEnd
    (activity : Activity) (hc : c.IsBehind start) :
    Reads start.rest (lineEnd activity c) (Cursor.IsBehind · start) := by
  unfold lineEnd
  dsimp only
  split_ifs
  · exact hc.dropSpaces.dropComment.takeBreak
  · exact reads_complain _ _ _

theorem reads_directiveName
    (hc : c.IsBehind start) :
    Reads start.rest (directiveName c) (Further start) := by
  unfold directiveName
  dsimp only
  split_ifs
  · exact reads_complain _ _ _
  · exact hc.takeWhile _

theorem hexValue?_lt
    {x : Char} {n : Nat} (hx : hexValue? x = some n) :
    n < 16 := by
  unfold hexValue? at hx
  exact of_decide_eq_true (Option.filter_eq_some_iff.mp hx).2

theorem ofHexDigits_lt (digits : List Char) : ofHexDigits digits < 16 ^ digits.length := by
  induction digits using List.reverseRecOn with
  | nil => simp [ofHexDigits]
  | append_singleton digits x ih =>
      have hx : (hexValue? x).getD 0 < 16 := by
        cases hvalue : hexValue? x with
        | none => simp
        | some n => exact hexValue?_lt hvalue
      have happend : ofHexDigits (digits ++ [x]) =
          ofHexDigits digits * 16 + (hexValue? x).getD 0 := by simp [ofHexDigits]
      rw [happend, List.length_append, List.length_singleton, pow_succ]
      omega

theorem length_take_of_hex
    {n : Nat} (hhex : firstNotHex? n c = none) :
    (c.rest.take n).length = n ∧ ∀ x ∈ c.rest.take n, (hexValue? x).isSome := by
  have hall : ∀ i < n, (hexValue? (c.peek i)).isSome := by
    simpa [firstNotHex?, Option.isNone_iff_eq_none, Option.isSome_iff_ne_none] using hhex
  have hlength : n ≤ c.rest.length := by
    by_contra hshort
    have hend := hall c.rest.length (by omega)
    have hpeek : c.peek c.rest.length = endMark := by simp [Cursor.peek]
    rw [hpeek] at hend
    exact absurd hend (by decide)
  refine ⟨by simp [hlength], fun x hx => ?_⟩
  obtain ⟨i, hi, rfl⟩ := List.mem_take_iff_getElem.mp hx
  have hpeek := hall i (by omega)
  have hin : i < c.rest.length := by omega
  simpa [Cursor.peek, hin] using hpeek

theorem reads_ofCode
    {code : Nat} {post : Char → Prop} (hpost : ∀ x, post x)
    (hcause : ∀ m, m = .largeCodePoint ∨ m = .hugeCodePoint → 0x10ffff < code →
      IsMisread start.rest m) :
    Reads start.rest (ofCode code) post := by
  unfold ofCode
  split_ifs with hhuge hlarge
  · rintro m ⟨⟩
    exact hcause _ (.inr rfl) (by omega)
  · rintro m ⟨⟩
    exact hcause _ (.inl rfl) hlarge
  · exact hpost _
  · exact hpost _

theorem reads_quotedBreaks
    (fuel : Nat) (hc : c.IsBehind start) :
    Reads start.rest (quotedBreaks fuel c) (Further start) := by
  induction fuel generalizing c with
  | zero => exact hc
  | succ fuel ih =>
      unfold quotedBreaks
      split_ifs
      · exact reads_complain _ _ _
      · dsimp only
        split_ifs
        · exact (ih (hc.dropWhile _).takeBreak).bind fun r hr => hr
        · exact hc.dropWhile _

theorem reads_quotedGap
    (hc : c.IsBehind start) :
    Reads start.rest (quotedGap c) (Further start) := by
  unfold quotedGap
  dsimp only
  split_ifs
  · exact reads_complain _ _ _
  · exact (reads_quotedBreaks _ (hc.takeWhile _).takeBreak).bind fun r hr => hr
  · exact (reads_quotedBreaks _ (hc.takeWhile _).takeBreak).bind fun r hr => hr
  · exact hc.takeWhile _

/-- Only an escape with eight digits can tell a code that is too large. -/
theorem reads_escape
    (hc : c.IsBehind start) (hmark : c.head = '\\') :
    Reads start.rest (escape c.next) (Further start) := by
  have hin : c.next.IsBehind start := hc.next
  have hsuffix := hc.suffix
  rw [Cursor.rest_eq_cons hmark (by decide)] at hsuffix
  generalize c.next = c at hin hsuffix ⊢
  unfold escape
  split
  next => exact hin.next
  next n _ hn =>
    dsimp only
    split
    next => exact reads_complain _ _ _
    next hhex =>
      obtain ⟨hlength, hdigits⟩ := length_take_of_hex hhex
      refine (reads_ofCode (fun _ => trivial) fun m hm hlarge => ?_).bind
        fun x _ => hin.next.advance n
      have hbound := ofHexDigits_lt (c.next.rest.take n)
      rw [hlength] at hbound
      have hkind : c.head = 'U' ∧ n = 8 := by
        unfold escapeLength? at hn
        split at hn <;> cases hn
        · omega
        · omega
        · exact ⟨‹_›, rfl⟩
      obtain ⟨hhead, rfl⟩ := hkind
      refine .code ?_ hlength hdigits hlarge hm
      rw [Cursor.rest_eq_cons hhead (by decide)] at hsuffix
      have hfront : '\\' :: 'U' :: c.next.rest.take 8 <+: '\\' :: 'U' :: c.next.rest := by
        simp [List.take_prefix]
      exact hfront.isInfix.trans hsuffix.isInfix
  next =>
    split_ifs
    · exact reads_quotedBreaks _ hin.takeBreak
    · exact reads_complain _ _ _

theorem reads_quotedPart
    (mark : Char) (hc : c.IsBehind start) :
    Reads start.rest (quotedPart mark c) (Further start) := by
  unfold quotedPart
  split_ifs with hmark hdouble hescape hblank
  · exact hc.advance 2
  · exact hc.next
  · exact (reads_escape hc hescape.2).map fun _ h => h
  · exact (reads_quotedGap hc).map fun _ h => h
  · exact hc.takeWhile _

theorem reads_quotedText
    (mark : Char) (fuel : Nat) (hc : c.IsBehind start) :
    Reads start.rest (quotedText mark fuel c) (Further start) := by
  induction fuel generalizing c with
  | zero => exact hc
  | succ fuel ih =>
      unfold quotedText
      refine (reads_quotedPart mark hc).bind fun r hr => ?_
      split
      next => exact hr
      next => exact (ih hr).bind fun r hr => hr

theorem isBehind_plainBreaks
    (fuel : Nat) (hc : c.IsBehind start) :
    (plainBreaks fuel c).2.IsBehind start := by
  induction fuel generalizing c with
  | zero => exact hc
  | succ fuel ih =>
      unfold plainBreaks
      dsimp only
      split_ifs
      · exact hc.dropSpaces.takeBreak
      · exact ih hc.dropSpaces.takeBreak
      · exact hc.dropSpaces

theorem isBehind_plainGap
    (hc : c.IsBehind start) :
    (plainGap c).2.IsBehind start := by
  have hspaces : (c.takeWhile (· == ' ')).2.IsBehind start := hc.takeWhile _
  have hbreaks := isBehind_plainBreaks
    ((c.takeWhile (· == ' ')).2.takeBreak.2.rest.length + 1) hspaces.takeBreak
  unfold plainGap
  dsimp only
  by_cases hbreak : isBreak (c.takeWhile (· == ' ')).2.head = true
  · rw [if_pos hbreak]
    by_cases hedge : (c.takeWhile (· == ' ')).2.takeBreak.2.isDocumentEdge = true
    · rw [if_pos hedge]
      exact hspaces.takeBreak
    · rw [if_neg hedge]
      split
      next heq =>
        rw [heq] at hbreaks
        exact hbreaks
      next heq =>
        rw [heq] at hbreaks
        exact hbreaks
  · rw [if_neg hbreak]
    exact hspaces

theorem isBehind_plainText
    (inFlow : Bool) (column : Int) (fuel : Nat) (hc : c.IsBehind start) :
    (plainText inFlow column fuel c).2.IsBehind start := by
  induction fuel generalizing c with
  | zero => exact hc
  | succ fuel ih =>
      have hgap := isBehind_plainGap (hc.advance (plainLength inFlow c.rest))
      unfold plainText
      dsimp only
      split_ifs
      · exact hgap
      · exact ih hgap

/-! ## Block scalars -/

theorem isBehind_takeChomping?
    (hc : c.IsBehind start) {r : Chomping × Cursor} (hr : takeChomping? c = some r) :
    r.2.IsBehind start := by
  unfold takeChomping? at hr
  split_ifs at hr <;> cases hr <;> exact hc.next

theorem reads_takeIncrement
    (hc : c.IsBehind start) :
    Reads start.rest (takeIncrement c) (Further start) := by
  unfold takeIncrement
  split_ifs
  · exact reads_complain _ _ _
  · exact hc.next
  · exact hc

theorem reads_blockHeader
    (hc : c.IsBehind start) :
    Reads start.rest (blockHeader c) (Further start) := by
  have hend (header : BlockHeader) {rest : Cursor} (hrest : rest.IsBehind start) :
      Reads start.rest (if isSpaceOrEnd rest.head then .ok (header, rest)
        else complain (some .blockScalar) (.notIndicator rest.head) rest.position)
        (Further start) := by
    split_ifs
    · exact hrest
    · exact reads_complain _ _ _
  unfold blockHeader
  split
  next chomping rest hchomping =>
    exact (reads_takeIncrement (isBehind_takeChomping? hc hchomping)).map_bind fun r hr => hend _ hr
  next =>
    refine (reads_takeIncrement hc).bind fun ⟨increment, rest⟩ hrest => ?_
    dsimp only
    split
    next hchomping => exact hend _ (isBehind_takeChomping? hrest hchomping)
    next => exact hend _ hrest

theorem isBehind_blockStart
    (fuel : Nat) (hc : c.IsBehind start) :
    (blockStart fuel c).2.2.IsBehind start := by
  induction fuel generalizing c with
  | zero => exact hc
  | succ fuel ih =>
      unfold blockStart
      dsimp only
      split_ifs
      · exact ih hc.dropSpaces.takeBreak
      · exact hc.dropSpaces

theorem isBehind_blockBreaks
    (column fuel : Nat) (hc : c.IsBehind start) :
    (blockBreaks column fuel c).2.IsBehind start := by
  induction fuel generalizing c with
  | zero => exact hc
  | succ fuel ih =>
      unfold blockBreaks
      dsimp only
      split_ifs
      · exact ih (hc.dropIndent column).takeBreak
      · exact hc.dropIndent column

theorem isBehind_blockLines
    (folded : Bool) (chomping : Chomping) (column fuel : Nat) (hc : c.IsBehind start) :
    (blockLines folded chomping column fuel c).2.IsBehind start := by
  induction fuel generalizing c with
  | zero => exact hc
  | succ fuel ih =>
      have hbreaks (n : Nat) := isBehind_blockBreaks column n
        (hc.takeWhile fun x => !isBreakOrEnd x).takeBreak
      unfold blockLines
      dsimp only
      split_ifs
      · exact ih (hbreaks _)
      · exact hbreaks _

theorem isBehind_blockText
    (folded : Bool) (least : Nat) (header : BlockHeader) (hc : c.IsBehind start) :
    (blockText folded least header c).2.IsBehind start := by
  have hstart : (blockColumn least header.increment c).2.2.IsBehind start := by
    unfold blockColumn
    split
    · exact isBehind_blockStart _ hc
    · exact isBehind_blockBreaks _ _ hc
  unfold blockText
  generalize blockColumn least header.increment c = start at hstart ⊢
  obtain ⟨column, breaks, rest⟩ := start
  have hlines := isBehind_blockLines folded header.chomping column (c.rest.length + 1) hstart
  dsimp only at hstart hlines ⊢
  generalize blockLines folded header.chomping column _ rest = lines at hlines ⊢
  split_ifs
  · exact hlines
  · exact hstart
  · exact hstart

end Lexeme

/-! ## Streams -/

namespace Lexer

variable {start : Cursor} {l : Lexer}

/-- Reading on from the start leads to the place of the lexer. -/
def IsBehind (start : Cursor) (l : Lexer) : Prop := l.cursor.IsBehind start

theorem IsBehind.pushNext
    (hl : l.IsBehind start) (kind : LexemeKind) (length : Nat) :
    (l.pushNext kind length).IsBehind start :=
  hl.advance length

theorem IsBehind.unwind (hl : l.IsBehind start) (column : Int) :
    (l.unwind column).IsBehind start := by
  unfold Lexer.unwind
  split_ifs
  · exact hl
  · exact hl

theorem IsBehind.startBlock (hl : l.IsBehind start) (kind : LexemeKind) :
    (l.startBlock kind).IsBehind start := by
  unfold Lexer.startBlock Lexer.openBlock
  split
  next opened hopened =>
    split_ifs at hopened
    cases hopened
    exact hl
  next => exact hl

theorem IsBehind.insertKey (hl : l.IsBehind start) (k : PossibleKey) :
    (l.insertKey k).IsBehind start := by
  unfold Lexer.insertKey Lexer.openBlock
  split_ifs <;> exact hl

theorem IsBehind.skipBlanks
    (hl : l.IsBehind start) (fuel : Nat) :
    (skipBlanks fuel l).IsBehind start := by
  induction fuel generalizing l with
  | zero => exact hl
  | succ fuel ih =>
      unfold Lexer.skipBlanks
      dsimp only
      split_ifs
      · exact ih (Cursor.IsBehind.dropComment (Cursor.IsBehind.dropSpaces hl)).takeBreak
      · exact Cursor.IsBehind.dropComment (Cursor.IsBehind.dropSpaces hl)

theorem IsBehind.toLexeme (hl : l.IsBehind start) : l.toLexeme.IsBehind start := by
  unfold Lexer.toLexeme
  apply IsBehind.skipBlanks
  change Cursor.IsBehind (ite _ _ _) start
  split_ifs
  · exact Cursor.IsBehind.next hl
  · exact hl

end Lexer

namespace Lexemes

variable {start : Cursor} {text : List Char}

/-- The failure that ends lexemes is a misfit only for a reason that stands in the text. -/
def IsTold (text : List Char) (lexemes : Lexemes) : Prop :=
  ∀ m, lexemes.failure = some (.misfit m) → IsMisread text m

end Lexemes

end Wireframe.Yaml
