import Mathlib.Tactic
import Wireframe.Proofs.Patterns
import Wireframe.Yaml.Tag

/-!
# Patterns of numbers

The texts of integers and of real numbers are those that the patterns of the two tags match.  A
sign in front is apart from the rest, parts of sixty are cut at colons, and a point ends the whole
part of a number.
-/

namespace Wireframe.Yaml

open Wireframe.Decimal Wireframe.Text

namespace Pattern

def digit : Pattern := oneOf (between '0' '9')

def sign : Pattern := maybe (oneOf ['-', '+'])

/-- Digits, and the underscores between groups of them. -/
def grouped : List Char := between '0' '9' ++ ['_']

def number : Pattern := digit * many (oneOf grouped)

/-- One digit, or two that are below sixty. -/
def sixtieth : Pattern := maybe (oneOf (between '0' '5')) * digit

def sixtieths : Pattern := atLeastOne (.char ':' * sixtieth)

def hexadecimal : List Char := between '0' '9' ++ between 'a' 'f' ++ between 'A' 'F' ++ ['_']

def integer : Pattern :=
  sign * (word ['0', 'b'] * atLeastOne (oneOf (between '0' '1' ++ ['_']))) +
    sign * (word ['0'] * atLeastOne (oneOf (between '0' '7' ++ ['_']))) +
    sign * (word ['0'] + oneOf (between '1' '9') * many (oneOf grouped)) +
    sign * (word ['0', 'x'] * atLeastOne (oneOf hexadecimal)) +
    sign * (oneOf (between '1' '9') * many (oneOf grouped) * sixtieths)

def exponent : Pattern := maybe (oneOf ['e', 'E'] * (oneOf ['-', '+'] * atLeastOne digit))

def real : Pattern :=
  sign * (number * (.char '.' * (many (oneOf grouped) * exponent))) +
    .char '.' * (number * exponent) +
    sign * (number * sixtieths * (.char '.' * many (oneOf grouped))) +
    sign * (.char '.' * oneWord ["inf", "Inf", "INF"]) +
    .char '.' * oneWord ["nan", "NaN", "NAN"]

variable {P : Pattern} {s : List Char} {c : Char} {cs : List Char}

/-! ## Classes of characters -/

theorem mem_digits : c ∈ between '0' '9' ↔ isDigit c = true := by
  rw [mem_between _ _ (by decide), isDigit, Bool.and_eq_true, decide_eq_true_eq, decide_eq_true_eq]

theorem mem_grouped : c ∈ grouped ↔ Tag.isGrouped c = true := by
  rw [grouped, List.mem_append, mem_digits, List.mem_singleton, Tag.isGrouped, Bool.or_eq_true,
    beq_iff_eq]

theorem mem_hexadecimal :
    c ∈ hexadecimal ↔ ((digitValue? c).any (· < 16) || c == '_') = true := by
  have hvalue : (digitValue? c).any (· < 16) = true ↔
      (('0' ≤ c ∧ c ≤ '9') ∨ ('a' ≤ c ∧ c ≤ 'f')) ∨ ('A' ≤ c ∧ c ≤ 'F') := by
    have hle (a b : Char) : a ≤ b ↔ a.toNat ≤ b.toNat := UInt32.le_iff_toNat_le
    have hcode : ('0'.toNat = 48 ∧ '9'.toNat = 57) ∧ ('a'.toNat = 97 ∧ 'f'.toNat = 102) ∧
        ('A'.toNat = 65 ∧ 'F'.toNat = 70) ∧ 'z'.toNat = 122 ∧ 'Z'.toNat = 90 := by decide
    unfold digitValue?
    simp only [hle]
    split_ifs <;> simp only [Option.any_some, Option.any_none, decide_eq_true_eq,
      Bool.false_eq_true, false_iff] <;> omega
  rw [Bool.or_eq_true, beq_iff_eq, hvalue]
  simp only [hexadecimal, List.mem_append, mem_between '0' '9' (by decide),
    mem_between 'a' 'f' (by decide), mem_between 'A' 'F' (by decide), List.mem_singleton]

theorem mem_octal :
    c ∈ between '0' '7' ++ ['_'] ↔ (('0' ≤ c && c ≤ '7') || c == '_') = true := by
  rw [List.mem_append, mem_between _ _ (by decide), List.mem_singleton, Bool.or_eq_true,
    Bool.and_eq_true, decide_eq_true_eq, decide_eq_true_eq, beq_iff_eq]

theorem mem_binary :
    c ∈ between '0' '1' ++ ['_'] ↔ (c == '0' || c == '1' || c == '_') = true := by
  have hbits : between '0' '1' = ['0', '1'] := by decide
  simp [hbits, or_assoc]

theorem mem_leading (hc : c ≠ '0') : c ∈ between '1' '9' ↔ isDigit c = true := by
  have hle (a b : Char) : a ≤ b ↔ a.toNat ≤ b.toNat := UInt32.le_iff_toNat_le
  have hcode : '0'.toNat = 48 ∧ '1'.toNat = 49 := by decide
  have hne : c.toNat ≠ '0'.toNat := fun h => hc (Char.toNat_inj.mp h)
  rw [mem_between _ _ (by decide), ← mem_digits, mem_between _ _ (by decide)]
  simp only [hle]
  omega

theorem matches_isRun {p : Char → Bool} (hp : ∀ c, c ∈ cs ↔ p c = true) :
    Matches (atLeastOne (oneOf cs)) s ↔ Tag.isRun p s = true := by
  rw [matches_atLeastOne_oneOf, Tag.isRun, Bool.and_eq_true, List.all_eq_true, Bool.not_eq_true',
    List.isEmpty_eq_false_iff]
  simp only [hp]

/-! ## Parts of numbers -/

theorem splitSign_of_mem (hc : c ∈ ['-', '+']) : (splitSign (c :: s)).2 = s := by
  simp only [List.mem_cons, List.not_mem_nil, or_false] at hc
  rcases hc with rfl | rfl <;> rfl

theorem splitSign_of_not_mem (hc : c ∉ ['-', '+']) : (splitSign (c :: s)).2 = c :: s := by
  unfold splitSign
  split
  next heq => simp_all
  next heq => simp_all
  next => rfl

theorem matches_sign_mul (hP : Avoids P ['-', '+']) :
    Matches (sign * P) s ↔ Matches P (splitSign s).2 := by
  rw [sign, matches_maybe_mul]
  cases s with
  | nil => exact or_iff_left matches_oneOf_mul_nil
  | cons c s =>
      rw [matches_oneOf_mul_cons]
      by_cases hc : c ∈ ['-', '+']
      · rw [or_iff_right (hP.not_matches hc), and_iff_right hc, splitSign_of_mem hc]
      · rw [or_iff_left fun h => hc h.1, splitSign_of_not_mem hc]

/-- Where no sign is admitted, none is cut off. -/
theorem matches_iff_unsigned (hP : Avoids P ['-', '+']) :
    Matches P s ↔ ((splitSign s).2.length == s.length) = true ∧ Matches P (splitSign s).2 := by
  cases s with
  | nil => exact (and_iff_right rfl).symm
  | cons c s =>
      by_cases hc : c ∈ ['-', '+']
      · rw [splitSign_of_mem hc]
        exact iff_of_false (hP.not_matches hc) (by simp)
      · rw [splitSign_of_not_mem hc]
        simp

theorem matches_number : Matches number s ↔ Tag.isNumber s = true := by
  cases s with
  | nil => exact iff_of_false matches_oneOf_mul_nil Bool.false_ne_true
  | cons c s =>
      rw [number, digit, matches_oneOf_mul_cons, matches_many_oneOf, mem_digits, Tag.isNumber,
        Bool.and_eq_true, List.all_eq_true]
      simp only [mem_grouped]

theorem matches_sixtieth : Matches sixtieth s ↔ Tag.isSixtieth s = true := by
  have hdigit : Matches digit s ↔ ∃ c, isDigit c = true ∧ s = [c] := by
    simp only [digit, matches_oneOf, mem_digits]
  rw [sixtieth, matches_maybe_mul, hdigit]
  match s with
  | [] => simp [Tag.isSixtieth]
  | [c] => simp [Tag.isSixtieth, digit, matches_oneOf]
  | [c, d] =>
      rw [matches_oneOf_mul_cons, mem_between _ _ (by decide), digit, matches_oneOf]
      simp [Tag.isSixtieth, mem_digits]
  | c :: d :: e :: rest =>
      rw [matches_oneOf_mul_cons, digit, matches_oneOf]
      simp [Tag.isSixtieth]

theorem matches_sexagesimal : Matches (number * sixtieths) s ↔ Tag.isSexagesimal s = true := by
  rw [sixtieths, matches_mul_atLeastOne (by decide) (by decide), Tag.isSexagesimal,
    splitAt_eq_splitOnP, ← List.splitOn_eq_splitOnP]
  simp only [matches_number, matches_sixtieth]
  split
  next first part parts hsplit =>
    rw [Bool.and_eq_true, List.all_eq_true]
    constructor
    · rintro ⟨_, _, _, heq, hfirst, hparts⟩
      cases hsplit.symm.trans heq
      exact ⟨hfirst, hparts⟩
    · rintro ⟨hfirst, hparts⟩
      exact ⟨first, part, parts, hsplit, hfirst, hparts⟩
  next hother =>
    refine iff_of_false ?_ Bool.false_ne_true
    rintro ⟨first, part, parts, heq, -⟩
    exact hother first part parts heq

/-! ## Integers -/

/-- What an integer is without its sign. -/
def unsignedInteger : Pattern :=
  word ['0', 'b'] * atLeastOne (oneOf (between '0' '1' ++ ['_'])) +
    word ['0'] * atLeastOne (oneOf (between '0' '7' ++ ['_'])) +
    (word ['0'] + oneOf (between '1' '9') * many (oneOf grouped)) +
    word ['0', 'x'] * atLeastOne (oneOf hexadecimal) +
    oneOf (between '1' '9') * many (oneOf grouped) * sixtieths

theorem matches_integer_iff : Matches integer s ↔ Matches unsignedInteger (splitSign s).2 := by
  unfold integer unsignedInteger
  simp only [matches_add (s := s), matches_add (s := (splitSign s).2)]
  repeat rw [matches_sign_mul (by decide)]
  rw [matches_add]

/-- Behind a leading digit there are only digits, underscores and parts of sixty. -/
theorem matches_unsignedInteger_of_ne (hc : c ≠ '0') :
    Matches unsignedInteger (c :: s) ↔
      (Tag.isNumber (c :: s) || Tag.isSexagesimal (c :: s)) = true := by
  rw [Bool.or_eq_true, ← matches_number, ← matches_sexagesimal]
  simp only [unsignedInteger, number, digit, matches_add, matches_word_cons_mul_cons, hc,
    false_and, false_or, or_false, matches_word, matches_mul_assoc, matches_oneOf_mul_cons,
    mem_leading hc, mem_digits, List.cons.injEq]

/-- A leading zero is alone, or the next character tells the base. -/
theorem matches_unsignedInteger_zero :
    Matches unsignedInteger ('0' :: s) ↔
      Matches (word ['b'] * atLeastOne (oneOf (between '0' '1' ++ ['_']))) s ∨
        Matches (atLeastOne (oneOf (between '0' '7' ++ ['_']))) s ∨ s = [] ∨
        Matches (word ['x'] * atLeastOne (oneOf hexadecimal)) s := by
  have hzero : '0' ∉ between '1' '9' := by decide
  simp only [unsignedInteger, matches_add, matches_word_cons_mul_cons, matches_word_nil_mul,
    matches_word, matches_mul_assoc, matches_oneOf_mul_cons, hzero, false_and, or_false, true_and,
    List.cons.injEq, or_assoc]

theorem matches_integer : Matches integer s ↔ Tag.isIntText s = true := by
  rw [matches_integer_iff, Tag.isIntText]
  generalize (splitSign s).2 = body
  split
  next => exact iff_of_true (matches_unsignedInteger_zero.mpr (.inr (.inr (.inl rfl)))) rfl
  next rest =>
    have hoctal : ¬ Matches (atLeastOne (oneOf (between '0' '7' ++ ['_']))) ('b' :: rest) :=
      fun h => absurd (mem_heads h) (by decide)
    rw [matches_unsignedInteger_zero]
    simp [hoctal, matches_isRun (fun _ => mem_binary)]
  next rest =>
    have hoctal : ¬ Matches (atLeastOne (oneOf (between '0' '7' ++ ['_']))) ('x' :: rest) :=
      fun h => absurd (mem_heads h) (by decide)
    rw [matches_unsignedInteger_zero]
    simp [hoctal, matches_isRun (fun _ => mem_hexadecimal)]
  next rest hne hbinary hhexadecimal =>
    obtain ⟨c, rest, rfl⟩ := List.exists_cons_of_ne_nil hne
    have hb : c ≠ 'b' := fun h => hbinary rest (by rw [h])
    have hx : c ≠ 'x' := fun h => hhexadecimal rest (by rw [h])
    rw [matches_unsignedInteger_zero, matches_isRun (fun _ => mem_octal)]
    simp [hb, hx]
  next hother =>
    cases body with
    | nil => exact iff_of_false (fun h => absurd (matches_nil_iff.mp h) (by decide)) (by decide)
    | cons c rest => exact matches_unsignedInteger_of_ne fun h => hother rest (by rw [h])

/-! ## Real numbers -/

theorem matches_exponent : Matches exponent s ↔ Tag.isExponent s = true := by
  rw [exponent, matches_maybe]
  unfold Tag.isExponent
  split
  next => simp
  next c sign digits =>
    rw [matches_oneOf_mul_cons, matches_oneOf_mul_cons, digit, matches_isRun (fun _ => mem_digits)]
    simp [and_assoc]
  next hnil hother =>
    refine iff_of_false ?_ Bool.false_ne_true
    rintro (rfl | h)
    · exact hnil rfl
    · match s with
      | [] => exact hnil rfl
      | [c] => exact matches_oneOf_mul_nil (matches_oneOf_mul_cons.mp h).2
      | c :: d :: rest => exact hother c d rest rfl

theorem matches_fraction :
    Matches (many (oneOf grouped) * exponent) s ↔
      Tag.isExponent (s.dropWhile Tag.isGrouped) = true := by
  rw [matches_many_mul (fun _ => mem_grouped) (by decide), matches_exponent]

theorem matches_infinity {tail : List Char} :
    Matches (oneWord ["inf", "Inf", "INF"]) tail ↔
      [['i', 'n', 'f'], ['I', 'n', 'f'], ['I', 'N', 'F']].contains tail = true := by
  simp [oneWord, matches_add, matches_word, matches_zero]

theorem matches_undefined {tail : List Char} :
    Matches (oneWord ["nan", "NaN", "NAN"]) tail ↔
      [['n', 'a', 'n'], ['N', 'a', 'N'], ['N', 'A', 'N']].contains tail = true := by
  simp [oneWord, matches_add, matches_word, matches_zero]

theorem matches_number_exponent {tail : List Char} :
    Matches (number * exponent) tail ↔
      (tail.head?.any isDigit && Tag.isExponent (tail.dropWhile Tag.isGrouped)) = true := by
  rw [number, matches_mul_assoc]
  cases tail with
  | nil => exact iff_of_false matches_oneOf_mul_nil Bool.false_ne_true
  | cons c tail =>
      rw [digit, matches_oneOf_mul_cons, mem_digits, matches_fraction, List.head?_cons,
        Option.any_some, Bool.and_eq_true]
      refine and_congr_right fun hc => ?_
      rw [List.dropWhile_cons_of_pos (by simp [Tag.isGrouped, hc])]

theorem matches_point_mul {Q : Pattern} :
    Matches (.char '.' * Q) s ↔ ∃ tail, s.dropWhile (· != '.') = '.' :: tail ∧
      s.takeWhile (· != '.') = [] ∧ Matches Q tail := by
  rw [← matches_word_nil_mul, matches_mul_char_mul (by simp [word, letters])]
  simp only [matches_word]

theorem matches_real : Matches real s ↔ Tag.isFloatText s = true := by
  unfold real Tag.isFloatText
  simp only [matches_add]
  rw [matches_sign_mul (by decide), matches_sign_mul (by decide), matches_sign_mul (by decide),
    matches_iff_unsigned (P := .char '.' * (number * exponent)) (by decide),
    matches_iff_unsigned (P := .char '.' * oneWord ["nan", "NaN", "NAN"]) (by decide)]
  generalize ((splitSign s).2.length == s.length) = unsigned
  generalize (splitSign s).2 = body
  rw [matches_mul_char_mul (by decide), matches_mul_char_mul (by decide)]
  simp only [matches_point_mul, matches_number, matches_fraction, matches_sexagesimal,
    matches_infinity, matches_undefined, matches_number_exponent, matches_many_oneOf, mem_grouped]
  split
  next tail htail =>
    have hall : (∀ c ∈ tail, Tag.isGrouped c = true) ↔
        (tail.dropWhile Tag.isGrouped).isEmpty = true := by
      rw [List.isEmpty_iff, List.dropWhile_eq_nil_iff]
    simp only [htail, List.cons.injEq, true_and, exists_eq_left', hall]
    cases body.takeWhile (· != '.') with
    | nil =>
        have hnumber : Tag.isNumber [] = false := rfl
        have hsexagesimal : Tag.isSexagesimal [] = false := rfl
        simp only [hnumber, hsexagesimal, List.isEmpty_nil, if_true, Bool.or_eq_true,
          Bool.and_eq_true, Bool.false_eq_true, false_and, false_or, true_and, or_false]
        tauto
    | cons c whole =>
        simp only [reduceCtorEq, List.isEmpty_cons, Bool.false_eq_true, if_false, Bool.or_eq_true,
          Bool.and_eq_true, false_and, and_false, or_false]
  next hother =>
    have hpoint (tail : List Char) : ¬ body.dropWhile (· != '.') = '.' :: tail := hother tail
    simp [hpoint]

end Pattern

end Wireframe.Yaml
