import Mathlib.Computability.RegularExpressions
import Mathlib.Data.List.TakeWhile
import Mathlib.Tactic

/-!
# Patterns

A pattern is a regular expression over characters, put together of classes of characters and
words.  What a pattern matches is found by a scan from left to right wherever the parts of the
pattern are told apart by the letters that they use and by the characters that they start with.
-/

namespace Wireframe.Yaml

abbrev Pattern := RegularExpression Char

namespace Pattern

/-- The characters of a range of character codes, both ends included. -/
def between (first last : Char) : List Char :=
  (List.range' first.toNat (last.toNat + 1 - first.toNat)).map Char.ofNat

def oneOf : List Char → Pattern
  | [] => 0
  | c :: cs => .char c + oneOf cs

def word : List Char → Pattern
  | [] => 1
  | c :: cs => .char c * word cs

def oneWord : List String → Pattern
  | [] => 0
  | w :: ws => word w.toList + oneWord ws

def maybe (P : Pattern) : Pattern := 1 + P

def many (P : Pattern) : Pattern := .star P

def atLeastOne (P : Pattern) : Pattern := P * many P

/-- The text is matched as a whole. -/
def Matches (P : Pattern) (s : List Char) : Prop := s ∈ P.matches'

/-- The characters that words of a pattern are made of. -/
def letters : Pattern → List Char
  | .zero | .epsilon => []
  | .char c => [c]
  | .plus P Q | .comp P Q => letters P ++ letters Q
  | .star P => letters P

/-- The characters that words of a pattern may start with. -/
def heads : Pattern → List Char
  | .zero | .epsilon => []
  | .char c => [c]
  | .plus P Q => heads P ++ heads Q
  | .comp P Q => if P.matchEpsilon then heads P ++ heads Q else heads P
  | .star P => heads P

variable {P Q R : Pattern} {s t : List Char} {c : Char} {cs : List Char}

theorem matches_iff_rmatch : Matches P s ↔ P.rmatch s = true :=
  (RegularExpression.rmatch_iff_matches' P s).symm

/-! ## Parts -/

theorem matches_zero : ¬ Matches 0 s := Language.notMem_zero s

theorem matches_one : Matches 1 s ↔ s = [] := Language.mem_one s

theorem matches_char : Matches (.char c) s ↔ s = [c] := Iff.rfl

theorem matches_add : Matches (P + Q) s ↔ Matches P s ∨ Matches Q s :=
  Language.mem_add _ _ s

theorem matches_mul : Matches (P * Q) s ↔ ∃ t u, Matches P t ∧ Matches Q u ∧ t ++ u = s := by
  refine Language.mem_mul.trans ⟨?_, ?_⟩
  · rintro ⟨t, ht, u, hu, heq⟩
    exact ⟨t, u, ht, hu, heq⟩
  · rintro ⟨t, u, ht, hu, heq⟩
    exact ⟨t, ht, u, hu, heq⟩

theorem matches_many :
    Matches (many P) s ↔
      ∃ pieces : List (List Char), s = pieces.flatten ∧ ∀ t ∈ pieces, Matches P t :=
  Language.mem_kstar

theorem matches_nil_iff : Matches P [] ↔ P.matchEpsilon = true := matches_iff_rmatch

theorem matches_maybe : Matches (maybe P) s ↔ s = [] ∨ Matches P s :=
  matches_add.trans (or_congr_left matches_one)

theorem matches_mul_assoc : Matches (P * Q * R) s ↔ Matches (P * (Q * R)) s :=
  iff_of_eq (congrArg (s ∈ ·) (mul_assoc P.matches' Q.matches' R.matches'))

theorem matches_add_mul : Matches ((P + Q) * R) s ↔ Matches (P * R) s ∨ Matches (Q * R) s := by
  rw [← matches_add]
  exact iff_of_eq (congrArg (s ∈ ·) (add_mul P.matches' Q.matches' R.matches'))

theorem matches_maybe_mul : Matches (maybe P * Q) s ↔ Matches Q s ∨ Matches (P * Q) s := by
  refine matches_add_mul.trans (or_congr_left ?_)
  exact iff_of_eq (congrArg (s ∈ ·) (one_mul Q.matches'))

/-! ## Classes and words -/

theorem toNat_ofNat {n : Nat} (hn : n < 0xd800) : (Char.ofNat n).toNat = n := by
  have hvalid : n.isValidChar := .inl hn
  rw [Char.ofNat, dif_pos hvalid]
  rfl

theorem mem_between (first last : Char) (hlast : last.toNat < 0xd800) :
    c ∈ between first last ↔ first ≤ c ∧ c ≤ last := by
  have hle (a b : Char) : a ≤ b ↔ a.toNat ≤ b.toNat := UInt32.le_iff_toNat_le
  simp only [between, List.mem_map, List.mem_range'_1, hle]
  constructor
  · rintro ⟨n, hn, rfl⟩
    rw [toNat_ofNat (by omega)]
    omega
  · intro hc
    exact ⟨c.toNat, by omega, Char.ofNat_toNat c⟩

theorem matches_oneOf : Matches (oneOf cs) s ↔ ∃ c ∈ cs, s = [c] := by
  induction cs with
  | nil => exact iff_of_false matches_zero (by simp)
  | cons c cs ih => rw [oneOf, matches_add, matches_char, ih, List.exists_mem_cons_iff]

theorem matches_word : Matches (word cs) s ↔ s = cs := by
  induction cs generalizing s with
  | nil => exact matches_one
  | cons c cs ih =>
      simp only [word, matches_mul, matches_char, ih]
      constructor
      · rintro ⟨t, u, rfl, rfl, rfl⟩
        rfl
      · rintro rfl
        exact ⟨[c], cs, rfl, rfl, rfl⟩

theorem matches_oneWord {words : List String} :
    Matches (oneWord words) s ↔ String.ofList s ∈ words := by
  induction words with
  | nil => exact iff_of_false matches_zero (by simp)
  | cons w ws ih =>
      rw [oneWord, matches_add, matches_word, ih, List.mem_cons, ← String.toList_inj,
        String.toList_ofList]

@[simp] theorem matches_char_mul_cons {a : Char} :
    Matches (.char a * Q) (c :: s) ↔ c = a ∧ Matches Q s := by
  simp only [matches_mul, matches_char]
  constructor
  · rintro ⟨t, u, rfl, hu, heq⟩
    obtain ⟨rfl, rfl⟩ := List.cons.inj heq
    exact ⟨rfl, hu⟩
  · rintro ⟨rfl, hs⟩
    exact ⟨[c], s, rfl, hs, rfl⟩

@[simp] theorem matches_char_mul_nil {a : Char} : ¬ Matches (.char a * Q) [] :=
  fun h => Bool.false_ne_true (matches_nil_iff.mp h)

@[simp] theorem matches_oneOf_mul_cons :
    Matches (oneOf cs * Q) (c :: s) ↔ c ∈ cs ∧ Matches Q s := by
  simp only [matches_mul, matches_oneOf]
  constructor
  · rintro ⟨t, u, ⟨a, ha, rfl⟩, hu, heq⟩
    obtain ⟨rfl, rfl⟩ := List.cons.inj heq
    exact ⟨ha, hu⟩
  · rintro ⟨hc, hs⟩
    exact ⟨[c], s, ⟨c, hc, rfl⟩, hs, rfl⟩

@[simp] theorem matches_oneOf_mul_nil : ¬ Matches (oneOf cs * Q) [] := by
  simp only [matches_mul, matches_oneOf]
  rintro ⟨t, u, ⟨a, ha, rfl⟩, hu, heq⟩
  cases heq

@[simp] theorem matches_word_nil_mul : Matches (word [] * Q) s ↔ Matches Q s :=
  iff_of_eq (congrArg (s ∈ ·) (one_mul Q.matches'))

@[simp] theorem matches_word_cons_mul_cons {a : Char} :
    Matches (word (a :: cs) * Q) (c :: s) ↔ c = a ∧ Matches (word cs * Q) s := by
  rw [word, matches_mul_assoc, matches_char_mul_cons]

theorem matches_many_oneOf : Matches (many (oneOf cs)) s ↔ ∀ c ∈ s, c ∈ cs := by
  simp only [matches_many, matches_oneOf]
  constructor
  · rintro ⟨pieces, rfl, hpieces⟩ c hc
    obtain ⟨t, ht, hct⟩ := List.mem_flatten.mp hc
    obtain ⟨a, ha, rfl⟩ := hpieces t ht
    exact List.mem_singleton.mp hct ▸ ha
  · intro hs
    refine ⟨s.map ([·]), by rw [← List.flatMap_def, List.flatMap_singleton'], ?_⟩
    rw [List.forall_mem_map]
    exact fun c hc => ⟨c, hs c hc, rfl⟩

theorem matches_atLeastOne_oneOf :
    Matches (atLeastOne (oneOf cs)) s ↔ s ≠ [] ∧ ∀ c ∈ s, c ∈ cs := by
  cases s with
  | nil => exact iff_of_false matches_oneOf_mul_nil (by simp)
  | cons c s =>
      rw [atLeastOne, matches_oneOf_mul_cons, matches_many_oneOf, List.forall_mem_cons]
      simp

/-! ## Letters and first characters -/

theorem mem_letters (hs : Matches P s) (hc : c ∈ s) : c ∈ letters P := by
  induction P generalizing s with
  | zero => exact absurd hs matches_zero
  | epsilon =>
      rw [matches_one.mp hs] at hc
      cases hc
  | char a =>
      rw [matches_char.mp hs] at hc
      exact hc
  | plus P Q ihP ihQ =>
      rcases matches_add.mp hs with hs | hs
      · exact List.mem_append_left _ (ihP hs hc)
      · exact List.mem_append_right _ (ihQ hs hc)
  | comp P Q ihP ihQ =>
      obtain ⟨t, u, ht, hu, rfl⟩ := matches_mul.mp hs
      rcases List.mem_append.mp hc with hc | hc
      · exact List.mem_append_left _ (ihP ht hc)
      · exact List.mem_append_right _ (ihQ hu hc)
  | star P ih =>
      obtain ⟨pieces, rfl, hpieces⟩ := matches_many.mp hs
      obtain ⟨t, ht, hct⟩ := List.mem_flatten.mp hc
      exact ih (hpieces t ht) hct

theorem mem_heads (hs : Matches P (c :: s)) : c ∈ heads P := by
  induction P generalizing s with
  | zero => exact absurd hs matches_zero
  | epsilon => cases matches_one.mp hs
  | char a =>
      rw [(List.cons.inj (matches_char.mp hs)).1]
      exact List.mem_singleton_self a
  | plus P Q ihP ihQ =>
      rcases matches_add.mp hs with hs | hs
      · exact List.mem_append_left _ (ihP hs)
      · exact List.mem_append_right _ (ihQ hs)
  | comp P Q ihP ihQ =>
      obtain ⟨t, u, ht, hu, heq⟩ := matches_mul.mp hs
      unfold heads
      cases t with
      | nil =>
          rw [if_pos (matches_nil_iff.mp ht)]
          rw [List.nil_append] at heq
          exact List.mem_append_right _ (ihQ (heq ▸ hu))
      | cons a t =>
          have hc := ihP ((List.cons.inj heq).1 ▸ ht)
          split_ifs
          · exact List.mem_append_left _ hc
          · exact hc
  | star P ih =>
      obtain ⟨pieces, heq, hpieces⟩ := matches_many.mp hs
      induction pieces with
      | nil => cases heq
      | cons t pieces ihp =>
          rw [List.forall_mem_cons] at hpieces
          cases t with
          | nil => exact ihp heq hpieces.2
          | cons a t => exact ih ((List.cons.inj heq).1 ▸ hpieces.1)

/-- What is matched starts with none of the characters. -/
def Avoids (P : Pattern) (cs : List Char) : Prop := ∀ c ∈ heads P, c ∉ cs

-- Only the characters of the list are looked at, not all that there are.
instance (P : Pattern) (cs : List Char) : Decidable (Avoids P cs) :=
  List.decidableBAll (fun c => c ∉ cs) (heads P)

theorem Avoids.not_matches (hP : Avoids P cs) (hc : c ∈ cs) : ¬ Matches P (c :: s) :=
  fun hs => hP c (mem_heads hs) hc

/-! ## Scans -/

/-- A run of a class ends where what follows starts. -/
theorem matches_many_mul {p : Char → Bool} (hp : ∀ c, c ∈ cs ↔ p c = true)
    (hQ : Avoids Q cs) :
    Matches (many (oneOf cs) * Q) s ↔ Matches Q (s.dropWhile p) := by
  rw [matches_mul]
  constructor
  · rintro ⟨t, u, ht, hu, rfl⟩
    rw [matches_many_oneOf] at ht
    rw [List.dropWhile_append_of_pos fun c hc => (hp c).mp (ht c hc)]
    cases u with
    | nil => exact hu
    | cons c u =>
        have hc : ¬ p c = true := fun h => hQ.not_matches ((hp c).mpr h) hu
        rwa [List.dropWhile_cons_of_neg hc]
  · intro hs
    refine ⟨s.takeWhile p, s.dropWhile p, ?_, hs, List.takeWhile_append_dropWhile⟩
    rw [matches_many_oneOf]
    exact fun c hc => (hp c).mpr (List.mem_takeWhile_imp hc)

/-- A character that the first part does not use tells where it ends. -/
theorem matches_mul_char_mul (hc : c ∉ letters P) :
    Matches (P * (.char c * Q)) s ↔ ∃ tail, s.dropWhile (· != c) = c :: tail ∧
      Matches P (s.takeWhile (· != c)) ∧ Matches Q tail := by
  rw [matches_mul]
  constructor
  · rintro ⟨t, u, ht, hu, rfl⟩
    cases u with
    | nil => exact absurd hu matches_char_mul_nil
    | cons a u =>
        obtain ⟨rfl, hrest⟩ := matches_char_mul_cons.mp hu
        have hbefore (x : Char) (hx : x ∈ t) : (x != a) = true :=
          bne_iff_ne.mpr (ne_of_mem_of_not_mem (mem_letters ht hx) hc)
        refine ⟨u, ?_, ?_, hrest⟩
        · rw [List.dropWhile_append_of_pos hbefore, List.dropWhile_cons_of_neg (by simp)]
        · rwa [List.takeWhile_append_of_pos hbefore, List.takeWhile_cons_of_neg (by simp),
            List.append_nil]
  · rintro ⟨tail, htail, hP, hQ⟩
    refine ⟨_, c :: tail, hP, matches_char_mul_cons.mpr ⟨rfl, hQ⟩, ?_⟩
    rw [← htail, List.takeWhile_append_dropWhile]

theorem matches_atLeastOne :
    Matches (atLeastOne P) s ↔
      ∃ pieces ≠ [], s = pieces.flatten ∧ ∀ t ∈ pieces, Matches P t := by
  simp only [atLeastOne, matches_mul, matches_many]
  constructor
  · rintro ⟨t, u, ht, ⟨pieces, rfl, hpieces⟩, rfl⟩
    exact ⟨t :: pieces, List.cons_ne_nil _ _, List.flatten_cons.symm,
      List.forall_mem_cons.mpr ⟨ht, hpieces⟩⟩
  · rintro ⟨pieces, hne, rfl, hpieces⟩
    obtain ⟨t, rest, rfl⟩ := List.exists_cons_of_ne_nil hne
    rw [List.forall_mem_cons] at hpieces
    exact ⟨t, rest.flatten, hpieces.1, ⟨rest, rfl, hpieces.2⟩, List.flatten_cons.symm⟩

theorem intercalate_cons_eq_flatten (c : Char) (first : List Char) (parts : List (List Char)) :
    [c].intercalate (first :: parts) = first ++ (parts.map (c :: ·)).flatten := by
  induction parts generalizing first with
  | nil => simp
  | cons part parts ih => rw [List.intercalate_cons_cons, ih]; simp

/-- Parts behind a character that no part uses are those that the text is cut into there. -/
theorem matches_mul_atLeastOne (hP : c ∉ letters P) (hQ : c ∉ letters Q) :
    Matches (P * atLeastOne (.char c * Q)) s ↔ ∃ first part parts,
      s.splitOn c = first :: part :: parts ∧ Matches P first ∧
        ∀ t ∈ part :: parts, Matches Q t := by
  simp only [matches_mul (P := P), matches_atLeastOne]
  constructor
  · rintro ⟨first, u, hfirst, ⟨pieces, hne, rfl, hpieces⟩, rfl⟩
    have hparts : ∃ parts : List (List Char), pieces = parts.map (c :: ·) ∧
        ∀ t ∈ parts, Matches Q t := by
      clear hne
      induction pieces with
      | nil => exact ⟨[], rfl, List.forall_mem_nil _⟩
      | cons piece pieces ih =>
          rw [List.forall_mem_cons] at hpieces
          obtain ⟨parts, rfl, hparts⟩ := ih hpieces.2
          cases piece with
          | nil => exact absurd hpieces.1 matches_char_mul_nil
          | cons a t =>
              obtain ⟨rfl, ht⟩ := matches_char_mul_cons.mp hpieces.1
              exact ⟨t :: parts, rfl, List.forall_mem_cons.mpr ⟨ht, hparts⟩⟩
    obtain ⟨parts, rfl, hparts⟩ := hparts
    obtain ⟨part, rest, rfl⟩ := List.exists_cons_of_ne_nil (List.map_eq_nil_iff.not.mp hne)
    refine ⟨first, part, rest, ?_, hfirst, hparts⟩
    rw [← intercalate_cons_eq_flatten]
    refine List.splitOn_intercalate c ?_ (List.cons_ne_nil _ _)
    rw [List.forall_mem_cons]
    exact ⟨fun hc => hP (mem_letters hfirst hc), fun t ht hc => hQ (mem_letters (hparts t ht) hc)⟩
  · rintro ⟨first, part, parts, hsplit, hfirst, hparts⟩
    refine ⟨first, _, hfirst, ⟨(part :: parts).map (c :: ·), by simp, rfl, ?_⟩, ?_⟩
    · rw [List.forall_mem_map]
      exact fun t ht => matches_char_mul_cons.mpr ⟨rfl, hparts t ht⟩
    · rw [← intercalate_cons_eq_flatten, ← hsplit, List.intercalate_splitOn]

end Pattern

end Wireframe.Yaml
