import Mathlib.Tactic
import Wireframe.Proofs.NumberPatterns
import Wireframe.Yaml.Timestamp

/-!
# The pattern of timestamps

The scanner of timestamps takes a number of digits at a time and looks at the next character to go
on.  What it takes for a timestamp is what the pattern of timestamps matches, since a number of
digits is followed by something else or has as many digits as it may have.
-/

namespace Wireframe.Yaml

open Wireframe.Decimal

namespace Pattern

def twoDigits : Pattern := digit * digit

def oneOrTwoDigits : Pattern := digit * maybe digit

def fourDigits : Pattern := digit * (digit * (digit * digit))

def gaps : List Char := [' ', '\t']

def day : Pattern := fourDigits * (.char '-' * (twoDigits * (.char '-' * twoDigits)))

def separator : Pattern := oneOf ['T', 't'] + atLeastOne (oneOf gaps)

def fraction : Pattern := maybe (.char '.' * many digit)

def offset : Pattern := oneOrTwoDigits * maybe (.char ':' * twoDigits)

def zone : Pattern := maybe (many (oneOf gaps) * (word ['Z'] + oneOf ['-', '+'] * offset))

def clock : Pattern :=
  separator * (oneOrTwoDigits * (.char ':' * (twoDigits * (.char ':' * (twoDigits *
    (fraction * zone))))))

def moment : Pattern :=
  fourDigits * (.char '-' * (oneOrTwoDigits * (.char '-' * (oneOrTwoDigits * clock))))

def timestamp : Pattern := day + moment

/-! ## Numbers of digits -/

/-- The pattern matches any digits that are so many. -/
def Spans (P : Pattern) (least most : Nat) : Prop :=
  ∀ s, Matches P s ↔ least ≤ s.length ∧ s.length ≤ most ∧ ∀ c ∈ s, isDigit c = true

variable {P Q : Pattern} {least most : Nat} {s : List Char}

theorem spans_digit : Spans digit 1 1 := by
  intro s
  simp only [digit, matches_oneOf, mem_digits]
  cases s with
  | nil => simp
  | cons c rest => cases rest <;> simp

theorem Spans.mul
    {a b c d : Nat} (hP : Spans P a b) (hQ : Spans Q c d) (hab : a ≤ b) (hcd : c ≤ d) :
    Spans (P * Q) (a + c) (b + d) := by
  intro s
  rw [matches_mul]
  constructor
  · rintro ⟨t, u, ht, hu, rfl⟩
    obtain ⟨hat, hbt, ht⟩ := (hP t).mp ht
    obtain ⟨hcu, hdu, hu⟩ := (hQ u).mp hu
    rw [List.length_append]
    refine ⟨by omega, by omega, fun x hx => ?_⟩
    exact (List.mem_append.mp hx).elim (ht x) (hu x)
  · rintro ⟨hleast, hmost, hs⟩
    -- The first part takes as much as it may and as the second part can spare.
    have htake : (s.take (min b (s.length - c))).length = min b (s.length - c) := by
      rw [List.length_take]
      omega
    refine ⟨s.take (min b (s.length - c)), s.drop (min b (s.length - c)), ?_, ?_,
      List.take_append_drop _ _⟩
    · exact (hP _).mpr ⟨by omega, by omega, fun x hx => hs x (List.mem_of_mem_take hx)⟩
    · refine (hQ _).mpr ⟨?_, ?_, fun x hx => hs x (List.mem_of_mem_drop hx)⟩
      · rw [List.length_drop]
        omega
      · rw [List.length_drop]
        omega

theorem Spans.maybe (hP : Spans P 1 most) : Spans (maybe P) 0 most := by
  intro s
  rw [matches_maybe, hP]
  cases s with
  | nil => simp
  | cons c s => simp

theorem spans_twoDigits : Spans twoDigits 2 2 :=
  spans_digit.mul spans_digit le_rfl le_rfl

theorem spans_oneOrTwoDigits : Spans oneOrTwoDigits 1 2 :=
  spans_digit.mul spans_digit.maybe le_rfl zero_le_one

theorem spans_fourDigits : Spans fourDigits 4 4 :=
  spans_digit.mul (spans_digit.mul spans_twoDigits le_rfl le_rfl) le_rfl le_rfl

/-- The scanner takes the digits that are matched in front of something else. -/
theorem matches_mul_iff_takeNumber (hP : Spans P least most)
    (hQ : least = most ∨ Avoids Q (between '0' '9')) :
    Matches (P * Q) s ↔ ∃ p, Timestamp.takeNumber least most s = some p ∧ Matches Q p.2 := by
  rw [matches_mul]
  constructor
  · rintro ⟨t, u, ht, hu, rfl⟩
    obtain ⟨hleast, hmost, hdigits⟩ := (hP t).mp ht
    have htaken : ((t ++ u).take most).takeWhile isDigit = t := by
      rw [List.take_append, List.take_of_length_le hmost, List.takeWhile_append_of_pos hdigits]
      refine List.append_right_eq_self.mpr ?_
      rcases hQ with rfl | hapart
      · rw [show least - t.length = 0 by omega]
        rfl
      · cases u with
        | nil => simp
        | cons c u =>
            have hc : ¬ isDigit c = true := fun h => hapart.not_matches (mem_digits.mpr h) hu
            cases most - t.length with
            | zero => rfl
            | succ k => rw [List.take_succ_cons, List.takeWhile_cons_of_neg hc]
    refine ⟨(ofDigits t, u), ?_, hu⟩
    unfold Timestamp.takeNumber
    rw [htaken, if_neg (by omega), List.drop_left]
  · rintro ⟨⟨n, rest⟩, hscan, hrest⟩
    unfold Timestamp.takeNumber at hscan
    dsimp only at hscan
    split_ifs at hscan with hleast
    obtain ⟨-, rfl⟩ := Prod.mk.inj (Option.some.inj hscan)
    generalize htaken : (s.take most).takeWhile isDigit = taken at hleast hrest
    have hprefix : taken <+: s := by
      rw [← htaken]
      exact (List.takeWhile_prefix _).trans (List.take_prefix _ _)
    have hmost : taken.length ≤ most := by
      rw [← htaken]
      exact (List.takeWhile_prefix _).length_le.trans (List.length_take_le _ _)
    refine ⟨taken, _, (hP taken).mpr ⟨by omega, hmost, fun c hc => ?_⟩, hrest, ?_⟩
    · rw [← htaken] at hc
      exact List.mem_takeWhile_imp hc
    · rw [← List.prefix_iff_eq_append]
      exact hprefix

/-- At the end of a text nothing is left. -/
theorem matches_iff_takeNumber (hP : Spans P least most) :
    Matches P s ↔ ∃ p, Timestamp.takeNumber least most s = some p ∧ p.2 = [] := by
  have hone : Matches (P * 1) s ↔ Matches P s :=
    iff_of_eq (congrArg (s ∈ ·) (mul_one P.matches'))
  rw [← hone, matches_mul_iff_takeNumber hP (.inr (by decide))]
  simp only [matches_one]

/-! ## Times of day -/

theorem matches_char_mul_iff_skip {c : Char} :
    Matches (.char c * Q) s ↔ ∃ rest, Timestamp.skip c s = some rest ∧ Matches Q rest := by
  cases s with
  | nil => simp [Timestamp.skip]
  | cons x s =>
      rw [matches_char_mul_cons, Timestamp.skip]
      split_ifs with hx <;> simp [hx]

theorem mem_gaps {c : Char} : c ∈ gaps ↔ Timestamp.isGap c = true := by
  simp [gaps, Timestamp.isGap]

theorem matches_separator_mul (hQ : Avoids Q gaps) :
    Matches (separator * Q) s ↔
      ∃ rest, Timestamp.skipSeparator s = some rest ∧ Matches Q rest := by
  rw [separator, matches_add_mul, atLeastOne, matches_mul_assoc]
  cases s with
  | nil => simp [Timestamp.skipSeparator]
  | cons c s =>
      rw [matches_oneOf_mul_cons, matches_oneOf_mul_cons,
        matches_many_mul (fun _ => mem_gaps) hQ, mem_gaps, Timestamp.skipSeparator]
      simp only [List.mem_cons, List.not_mem_nil, or_false]
      by_cases hmark : c = 'T' ∨ c = 't'
      · have hgap : Timestamp.isGap c = false := by rcases hmark with rfl | rfl <;> rfl
        simp [hmark, hgap]
      · simp [hmark]

theorem matches_fraction_mul (hQ : Avoids Q ('.' :: between '0' '9')) :
    Matches (fraction * Q) s ↔ Matches Q (Timestamp.takeFraction s).2 := by
  rw [fraction, matches_maybe_mul, matches_mul_assoc]
  unfold Timestamp.takeFraction
  split
  next rest =>
    have hdigits : Avoids Q (between '0' '9') := fun c hc h => hQ c hc (List.mem_cons_of_mem _ h)
    rw [or_iff_right (hQ.not_matches List.mem_cons_self), matches_char_mul_cons, digit,
      matches_many_mul (fun _ => mem_digits) hdigits]
    exact and_iff_right rfl
  next hother =>
    refine or_iff_left fun h => ?_
    cases s with
    | nil => exact matches_char_mul_nil h
    | cons c s => exact hother s (by rw [(matches_char_mul_cons.mp h).1])

theorem matches_offset (negative : Bool) :
    Matches offset s ↔ (Timestamp.offset? negative s).isSome = true := by
  rw [offset, matches_mul_iff_takeNumber spans_oneOrTwoDigits (.inr (by decide)),
    Timestamp.offset?]
  cases Timestamp.takeNumber 1 2 s with
  | none => simp
  | some p =>
      obtain ⟨hours, rest⟩ := p
      simp only [Option.some.injEq, exists_eq_left', Option.bind_eq_bind, Option.bind_some,
        matches_maybe]
      split
      next => simp
      next u =>
        rw [or_iff_right (List.cons_ne_nil _ _), matches_char_mul_cons, and_iff_right rfl,
          matches_iff_takeNumber spans_twoDigits]
        cases Timestamp.takeNumber 2 2 u with
        | none => simp
        | some p => simp
      next hnil hcolon =>
        refine iff_of_false ?_ Bool.false_ne_true
        rintro (rfl | h)
        · exact hnil rfl
        · cases rest with
          | nil => exact hnil rfl
          | cons c u => exact hcolon u (by rw [(matches_char_mul_cons.mp h).1])

theorem zone?_of_ne_nil (hs : s ≠ []) :
    Timestamp.zone? s =
      match s.dropWhile Timestamp.isGap with
      | ['Z'] => some .universal
      | '-' :: rest => Timestamp.offset? true rest
      | '+' :: rest => Timestamp.offset? false rest
      | _ => none := by
  obtain ⟨c, s, rfl⟩ := List.exists_cons_of_ne_nil hs
  unfold Timestamp.zone?
  generalize (c :: s).dropWhile Timestamp.isGap = rest
  split <;> simp_all

theorem matches_zone : Matches zone s ↔ (Timestamp.zone? s).isSome = true := by
  rw [zone, matches_maybe]
  by_cases hs : s = []
  · simp [hs, Timestamp.zone?]
  · rw [or_iff_right hs, matches_many_mul (fun _ => mem_gaps) (by decide), matches_add,
      matches_word, zone?_of_ne_nil hs]
    generalize s.dropWhile Timestamp.isGap = rest
    split
    next => simp
    next rest =>
      rw [matches_oneOf_mul_cons, matches_offset true]
      simp
    next rest =>
      rw [matches_oneOf_mul_cons, matches_offset false]
      simp
    next hmark hminus hplus =>
      refine iff_of_false ?_ Bool.false_ne_true
      rintro (h | h)
      · exact hmark h
      · cases rest with
        | nil => exact matches_oneOf_mul_nil h
        | cons c rest =>
            rw [matches_oneOf_mul_cons] at h
            simp only [List.mem_cons, List.not_mem_nil, or_false] at h
            rcases h.1 with rfl | rfl
            · exact hminus rest rfl
            · exact hplus rest rfl

theorem matches_oneOrTwoDigits_mul_char {c : Char} (hc : c ∉ between '0' '9') :
    Matches (oneOrTwoDigits * (.char c * Q)) s ↔
      ∃ p, Timestamp.takeNumber 1 2 s = some p ∧ Matches (.char c * Q) p.2 :=
  matches_mul_iff_takeNumber spans_oneOrTwoDigits
    (.inr fun _ hx => List.mem_singleton.mp hx ▸ hc)

theorem matches_twoDigits_mul :
    Matches (twoDigits * Q) s ↔ ∃ p, Timestamp.takeNumber 2 2 s = some p ∧ Matches Q p.2 :=
  matches_mul_iff_takeNumber spans_twoDigits (.inl rfl)

theorem matches_clock : Matches clock s ↔ (Timestamp.clock? s).isSome = true := by
  rw [clock, matches_separator_mul (by decide)]
  simp only [matches_oneOrTwoDigits_mul_char (show ':' ∉ between '0' '9' by decide),
    matches_char_mul_iff_skip, matches_twoDigits_mul,
    matches_fraction_mul (Q := zone) (by decide), matches_zone]
  unfold Timestamp.clock?
  simp only [Option.bind_eq_bind, Option.isSome_iff_exists, Option.bind_eq_some_iff]
  constructor
  · rintro ⟨_, hseparator, _, hhour, _, hcolon, _, hminute, _, hcolon', _, hsecond, _, hzone⟩
    exact ⟨_, _, hseparator, _, hhour, _, hcolon, _, hminute, _, hcolon', _, hsecond, _, hzone, rfl⟩
  · rintro ⟨_, _, hseparator, _, hhour, _, hcolon, _, hminute, _, hcolon', _, hsecond, _, hzone, -⟩
    exact ⟨_, hseparator, _, hhour, _, hcolon, _, hminute, _, hcolon', _, hsecond, _, hzone⟩

/-! ## Timestamps -/

/-- Two digits are taken where two may be taken and the text is shorter by two. -/
theorem takeNumber_two_iff {p : Nat × List Char} :
    Timestamp.takeNumber 2 2 s = some p ↔
      Timestamp.takeNumber 1 2 s = some p ∧ s.length = p.2.length + 2 := by
  unfold Timestamp.takeNumber
  have hprefix : (s.take 2).takeWhile isDigit <+: s :=
    (List.takeWhile_prefix _).trans (List.take_prefix _ _)
  have hmost : ((s.take 2).takeWhile isDigit).length ≤ 2 :=
    (List.takeWhile_prefix _).length_le.trans (List.length_take_le _ _)
  have hle := hprefix.length_le
  generalize (s.take 2).takeWhile isDigit = digits at hmost hle
  dsimp only
  constructor
  · intro hscan
    split_ifs at hscan with htwo
    rw [if_neg (by omega), hscan]
    obtain rfl := Option.some.inj hscan
    rw [List.length_drop]
    exact ⟨rfl, by omega⟩
  · rintro ⟨hscan, hlength⟩
    split_ifs at hscan with hone
    obtain rfl := Option.some.inj hscan
    rw [List.length_drop] at hlength
    rw [if_neg (by omega)]

theorem isPlain_iff :
    Timestamp.isPlain s = true ↔
      ∃ t, Timestamp.parse? s = some t ∧ (t.full = true ∨ t.clock.isSome = true) := by
  unfold Timestamp.isPlain
  cases Timestamp.parse? s <;> simp

theorem matches_timestamp : Matches timestamp s ↔ Timestamp.isPlain s = true := by
  have hclock : Timestamp.clock? [] = none := rfl
  rw [timestamp, matches_add, day, moment, isPlain_iff]
  simp only [matches_mul_iff_takeNumber spans_fourDigits (.inl rfl), matches_char_mul_iff_skip,
    matches_oneOrTwoDigits_mul_char (show '-' ∉ between '0' '9' by decide), matches_twoDigits_mul,
    matches_iff_takeNumber spans_twoDigits, takeNumber_two_iff,
    matches_mul_iff_takeNumber spans_oneOrTwoDigits (Q := clock) (.inr (by decide)), matches_clock]
  unfold Timestamp.parse?
  simp only [Option.bind_eq_bind, Option.bind_eq_some_iff]
  constructor
  · rintro (⟨y, hyear, _, hskip, m, ⟨hmonth, hfull⟩, _, hskip', d, ⟨hday, hfull'⟩, hend⟩ |
      ⟨y, hyear, _, hskip, m, hmonth, _, hskip', d, hday, htime⟩)
    · refine ⟨_, ⟨y, hyear, _, hskip, m, hmonth, _, hskip', d, hday, if_pos ?_⟩, .inl ?_⟩
      · rw [hend]
        rfl
      · exact decide_eq_true ⟨hfull, hfull'⟩
    · obtain ⟨c, hc⟩ := Option.isSome_iff_exists.mp htime
      have hrest : ¬ d.2.isEmpty = true := by
        rw [List.isEmpty_iff]
        intro hend
        rw [hend, hclock] at hc
        cases hc
      exact ⟨_, ⟨y, hyear, _, hskip, m, hmonth, _, hskip', d, hday,
        (if_neg hrest).trans (Option.bind_eq_some_iff.mpr ⟨c, hc, rfl⟩)⟩, .inr rfl⟩
  · rintro ⟨t, ⟨y, hyear, _, hskip, m, hmonth, _, hskip', d, hday, ht⟩, hform⟩
    split_ifs at ht with hend
    · obtain rfl := Option.some.inj ht
      rcases hform with hfull | hnone
      · obtain ⟨hfull, hfull'⟩ := of_decide_eq_true hfull
        exact .inl ⟨y, hyear, _, hskip, m, ⟨hmonth, hfull⟩, _, hskip', d, ⟨hday, hfull'⟩,
          List.isEmpty_iff.mp hend⟩
      · cases hnone
    · obtain ⟨c, hc, -⟩ := Option.bind_eq_some_iff.mp ht
      exact .inr ⟨y, hyear, _, hskip, m, hmonth, _, hskip', d, hday,
        Option.isSome_iff_exists.mpr ⟨c, hc⟩⟩

end Pattern

end Wireframe.Yaml
