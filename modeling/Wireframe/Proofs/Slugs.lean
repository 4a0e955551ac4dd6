import Mathlib.Tactic
import Wireframe.Proofs.Trimming
import Wireframe.Slug

/-!
# Words of slugs

The slug of a name is made of the words of the lower-cased name: what is left of its pieces
between underscores, middle dots and blanks when only letters, digits, syllables and ideographs
are kept.  A break cuts the words before it from the words behind it, and from this equation it
follows that none of the steps in which a slug is made changes the words.  The last step leaves a
text that is spelt out by its words, so the slugs are the texts that stay as they are.
-/

namespace Wireframe

namespace Slug

open Text

/-- Where names are cut into words. -/
def isBreak (c : Char) : Bool := c == '_' || c == '\u30fb' || isBlank c

/-- The words of a name in lower case. -/
def words (s : List Char) : List (List Char) :=
  ((splitAt isBreak s).map (List.filter isWordChar)).filter (!·.isEmpty)

/-- Characters of words with single underscores between them. -/
structure IsSlug (s : List Char) : Prop where
  chars : ∀ c ∈ s, c = '_' ∨ isWordChar c = true ∧ c ≠ '\u30fb'
  head : s.head? ≠ some '_'
  last : s.getLast? ≠ some '_'
  single : ¬ ['_', '_'] <:+: s

variable {p keep : Char → Bool} {s t : List Char} {c : Char}

/-! ## Words and breaks -/

theorem words_append_break (hc : isBreak c = true) (s t : List Char) :
    words (s ++ c :: t) = words s ++ words t := by
  simp only [words, splitAt_eq_splitOnP]
  rw [List.splitOnP_append_cons s t hc, List.map_append, List.filter_append]

theorem words_cons_break (hc : isBreak c = true) (s : List Char) :
    words (c :: s) = words s :=
  words_append_break hc [] s

theorem words_breaks_append (hs : ∀ c ∈ s, isBreak c = true) (t : List Char) :
    words (s ++ t) = words t := by
  induction s with
  | nil => rfl
  | cons c s ih =>
      rw [List.cons_append, words_cons_break (hs c List.mem_cons_self)]
      exact ih fun d hd => hs d (List.mem_cons_of_mem _ hd)

theorem words_append_breaks (ht : ∀ c ∈ t, isBreak c = true) (s : List Char) :
    words (s ++ t) = words s := by
  cases t with
  | nil => rw [List.append_nil]
  | cons c t =>
      have hnone : words t = [] := by
        have hall := words_breaks_append (fun d hd => ht d (List.mem_cons_of_mem _ hd)) []
        rwa [List.append_nil] at hall
      rw [words_append_break (ht c List.mem_cons_self), hnone, List.append_nil]

/-- A text of characters of words is one word. -/
theorem words_of_forall (hne : s ≠ []) (hs : ∀ c ∈ s, isWordChar c = true ∧ isBreak c = false) :
    words s = [s] := by
  have hsplit : s.splitOnP isBreak = [s] :=
    List.splitOnP_eq_singleton fun c hc => by simp [(hs c hc).2]
  have hkept : s.filter isWordChar = s := List.filter_eq_self.mpr fun c hc => (hs c hc).1
  simp [words, splitAt_eq_splitOnP, hsplit, hkept, hne]

/-! ## Steps that keep the words -/

theorem splitOnP_filter (hkeep : ∀ c ∈ s, p c = true → keep c = true) :
    (s.filter keep).splitOnP p = (s.splitOnP p).map (List.filter keep) := by
  induction s with
  | nil => rfl
  | cons c s ih =>
      have ih := ih fun d hd => hkeep d (List.mem_cons_of_mem _ hd)
      obtain ⟨piece, rest, hpieces⟩ := List.exists_cons_of_ne_nil (List.splitOnP_ne_nil p s)
      rw [List.splitOnP_cons_eq_if_modifyHead]
      by_cases hp : p c = true
      · have hkept := hkeep c List.mem_cons_self hp
        simp [hkept, List.splitOnP_cons_eq_if_modifyHead, hp, ih]
      · by_cases hkept : keep c = true
        · simp [hkept, List.splitOnP_cons_eq_if_modifyHead, hp, ih, hpieces]
        · simp [hkept, hp, ih, hpieces]

/-- What is no break and belongs to no word can be left out. -/
theorem words_filter
    (hbreak : ∀ c ∈ s, isBreak c = true → keep c = true)
    (hword : ∀ c, isWordChar c = true → keep c = true) :
    words (s.filter keep) = words s := by
  have hfilter (piece : List Char) :
      (piece.filter keep).filter isWordChar = piece.filter isWordChar := by
    rw [List.filter_filter]
    refine List.filter_congr fun c _ => ?_
    cases hc : isWordChar c with
    | false => rfl
    | true => simp [hword c hc]
  simp only [words, splitAt_eq_splitOnP, splitOnP_filter hbreak, List.map_map]
  exact congrArg _ (List.map_congr_left fun piece _ => hfilter piece)

theorem words_map_partDot (s : List Char) : words (s.map partDot) = words s := by
  have hsplit : (s.map partDot).splitOnP isBreak = s.splitOnP isBreak := by
    induction s with
    | nil => rfl
    | cons c s ih =>
        rw [List.map_cons, List.splitOnP_cons_eq_if_modifyHead,
          List.splitOnP_cons_eq_if_modifyHead, ih]
        by_cases hc : c = '\u30fb'
        · subst hc
          rfl
        · have hsame : partDot c = c := if_neg (by simpa using hc)
          rw [hsame]
  simp only [words, splitAt_eq_splitOnP, hsplit]

/-- The text before the runs is carried along: a character that is no break may lengthen its
last word. -/
theorem words_append_joinRuns (hp : ∀ c, p c = true → isBreak c = true) (s t : List Char) :
    words (s ++ joinRuns p t) = words (s ++ t) := by
  have hunderscore : isBreak '_' = true := rfl
  induction t generalizing s with
  | nil => rfl
  | cons c t ih =>
      have hnext : words (joinRuns p t) = words t := ih []
      unfold joinRuns
      split_ifs with hnot hrun
      · have hfirst := ih (s ++ [c])
        rwa [List.append_assoc, List.append_assoc] at hfirst
      · have hc : isBreak c = true := hp c (by simpa using hnot)
        obtain ⟨d, hd, hpd⟩ := (Option.any_eq_true _ _).mp hrun
        obtain ⟨rest, rfl⟩ := List.head?_eq_some_iff.mp hd
        rw [ih, words_append_break (hp d hpd), words_append_break hc,
          words_cons_break (hp d hpd)]
      · have hc : isBreak c = true := hp c (by simpa using hnot)
        rw [words_append_break hunderscore, words_append_break hc, hnext]

theorem words_joinRuns (hp : ∀ c, p c = true → isBreak c = true) (s : List Char) :
    words (joinRuns p s) = words s :=
  words_append_joinRuns hp [] s

theorem words_trim (hp : ∀ c, p c = true → isBreak c = true) (s : List Char) :
    words (trim p s) = words s := by
  obtain ⟨before, after, heq, hbefore, hafter⟩ := exists_around_trim p s
  conv_rhs => rw [← heq]
  rw [words_append_breaks fun c hc => hp c (hafter c hc),
    words_breaks_append fun c hc => hp c (hbefore c hc)]

/-! ## Slugs -/

/-- Digits and letters come first, and syllables and ideographs far behind them. -/
theorem toNat_of_isWordChar (hc : isWordChar c = true) :
    0x30 ≤ c.toNat ∧ c.toNat ≤ 0x39 ∨ 0x61 ≤ c.toNat ∧ c.toNat ≤ 0x7a ∨
      0x3040 ≤ c.toNat ∧ c.toNat ≤ 0x9faf := by
  simp only [isWordChar, Bool.or_eq_true, Bool.and_eq_true, decide_eq_true_eq, Char.le_def,
    UInt32.le_iff_toNat_le, Char.reduceVal, UInt32.reduceToNat] at hc
  unfold Char.toNat
  omega

theorem isBlank_of_isWordChar (hc : isWordChar c = true) : isBlank c = false := by
  have hrange := toNat_of_isWordChar hc
  simp only [isBlank, Bool.or_eq_false_iff, Bool.and_eq_false_iff, decide_eq_false_iff_not,
    beq_eq_false_iff_ne]
  omega

/-- A parenthesis neither parts words nor belongs to one. -/
theorem isParenthesis_eq_false (hc : isBreak c = true ∨ isWordChar c = true) :
    isParenthesis c = false := by
  by_contra hparenthesis
  simp only [isParenthesis, Bool.not_eq_false, Bool.or_eq_true, beq_iff_eq] at hparenthesis
  rcases hparenthesis with ((rfl | rfl) | rfl) | rfl <;> exact absurd hc (by decide)

theorem mem_joinRuns (hc : c ∈ joinRuns p s) : c = '_' ∨ c ∈ s ∧ p c = false := by
  induction s with
  | nil => cases hc
  | cons d s ih =>
      have hrest (hmem : c ∈ joinRuns p s) : c = '_' ∨ c ∈ d :: s ∧ p c = false :=
        (ih hmem).imp_right fun h => ⟨List.mem_cons_of_mem _ h.1, h.2⟩
      unfold joinRuns at hc
      split_ifs at hc with hnot hrun
      · rcases List.mem_cons.mp hc with rfl | hmem
        · exact .inr ⟨List.mem_cons_self, by simpa using hnot⟩
        · exact hrest hmem
      · exact hrest hc
      · rcases List.mem_cons.mp hc with rfl | hmem
        · exact .inl rfl
        · exact hrest hmem

theorem head?_joinRuns (hs : s.head? ≠ some '_') : (joinRuns (· == '_') s).head? ≠ some '_' := by
  cases s with
  | nil => exact hs
  | cons c s =>
      have hc : c ≠ '_' := fun h => hs (by rw [h]; rfl)
      rw [joinRuns, if_pos (by simpa using hc)]
      exact hs

/-- No two underscores stand side by side once the runs of them are joined. -/
theorem not_infix_joinRuns (s : List Char) : ¬ ['_', '_'] <:+: joinRuns (· == '_') s := by
  induction s with
  | nil => decide
  | cons c s ih =>
      unfold joinRuns
      split_ifs with hnot hrun
      · rw [List.infix_cons_iff, not_or]
        refine ⟨?_, ih⟩
        rintro ⟨rest, hrest⟩
        rw [← (List.cons.inj hrest).1] at hnot
        exact absurd hnot (by decide)
      · exact ih
      · rw [List.infix_cons_iff, not_or]
        refine ⟨?_, ih⟩
        rintro ⟨rest, hrest⟩
        have hhead : (joinRuns (· == '_') s).head? = some '_' := by
          rw [← (List.cons.inj hrest).2]
          rfl
        refine head?_joinRuns (fun hs => hrun ?_) hhead
        rw [hs]
        rfl

theorem isSlug_tidy (hs : ∀ c ∈ s, c = '_' ∨ isWordChar c = true ∧ c ≠ '\u30fb') :
    IsSlug (tidy s) := by
  unfold tidy
  generalize hrun : joinRuns (· == '_') s = run
  have hinfix : trim (· == '_') run <:+: run :=
    (isPrefix_trim _ run).isInfix.trans (List.dropWhile_suffix _).isInfix
  constructor
  · intro c hc
    rcases mem_joinRuns (hrun ▸ hinfix.mem hc) with hbreak | ⟨hmem, -⟩
    · exact .inl hbreak
    · exact hs c hmem
  · intro hhead
    cases head?_trim (· == '_') run '_' hhead
  · intro hlast
    cases getLast?_trim (· == '_') run '_' hlast
  · intro htwo
    exact not_infix_joinRuns s (hrun ▸ htwo.trans hinfix)

/-- What is left when a name has gone through all steps is a slug. -/
theorem isSlug_ofChars (s : List Char) : IsSlug (ofChars s) := by
  refine isSlug_tidy fun c hc => ?_
  obtain ⟨hmem, hkept⟩ := List.mem_filter.mp hc
  have hcases : isWordChar c = true ∨ c = '_' := by simpa [isKept] using hkept
  rcases mem_joinRuns hmem with hbreak | ⟨hmem, -⟩
  · exact .inl hbreak
  · refine hcases.symm.imp_right fun hword => ⟨hword, ?_⟩
    rintro rfl
    obtain ⟨d, -, hd⟩ := List.mem_map.mp hmem
    unfold partDot at hd
    split_ifs at hd with hdot
    · exact absurd hd (by decide)
    · exact hdot (by simpa using hd)

theorem words_ofChars (s : List Char) : words (ofChars s) = words s := by
  have hunderscores : ∀ c, (c == '_') = true → isBreak c = true := by
    intro c hc
    rw [beq_iff_eq.mp hc]
    rfl
  have hblanks : ∀ c, isBlank c = true → isBreak c = true := fun c hc => by simp [isBreak, hc]
  have hkept : ∀ c ∈ joinRuns isBlank ((s.filter fun c => !isParenthesis c).map partDot),
      isBreak c = true → isKept c = true := by
    intro c hc hbreak
    rcases mem_joinRuns hc with rfl | ⟨hmem, hblank⟩
    · rfl
    · have hcases : c = '_' ∨ c = '\u30fb' := by simpa [isBreak, hblank] using hbreak
      rcases hcases with rfl | rfl <;> rfl
  unfold ofChars tidy
  rw [words_trim hunderscores, words_joinRuns hunderscores,
    words_filter hkept fun c hc => by simp [isKept, hc], words_joinRuns hblanks,
    words_map_partDot, words_filter fun c _ hc => by simp [isParenthesis_eq_false (.inl hc)]]
  exact fun c hc => by simp [isParenthesis_eq_false (.inr hc)]

/-! ## Slugs and their words -/

theorem IsSlug.isWord (hs : IsSlug s) (hc : c ∈ s) (hne : c ≠ '_') :
    isWordChar c = true ∧ isBreak c = false := by
  obtain ⟨hword, hdot⟩ := (hs.chars c hc).resolve_left hne
  exact ⟨hword, by simp [isBreak, hne, hdot, isBlank_of_isWordChar hword]⟩

/-- Behind an underscore of a slug there is a shorter slug. -/
theorem IsSlug.of_append (hslug : IsSlug (s ++ '_' :: t)) : IsSlug t ∧ s ≠ [] ∧ t ≠ [] := by
  have hne : t ≠ [] := by
    rintro rfl
    exact hslug.last (by simp)
  refine ⟨⟨fun c hc => hslug.chars c (by simp [hc]), ?_, ?_, ?_⟩, ?_, hne⟩
  · intro hhead
    obtain ⟨rest, rfl⟩ := List.head?_eq_some_iff.mp hhead
    exact hslug.single ⟨s, rest, by simp⟩
  · intro hlast
    refine hslug.last ?_
    rw [List.getLast?_append, List.getLast?_cons_of_ne_nil hne, hlast]
    rfl
  · intro htwo
    exact hslug.single (htwo.trans ⟨s ++ ['_'], [], by simp⟩)
  · rintro rfl
    exact hslug.head rfl

/-- A slug is spelt out by its words. -/
theorem IsSlug.intercalate_words (hs : IsSlug s) : ['_'].intercalate (words s) = s := by
  induction hn : s.length using Nat.strong_induction_on generalizing s with
  | _ n ih =>
      -- The first word runs up to the first underscore.
      have hcut := List.takeWhile_append_dropWhile (p := (· != '_')) (l := s)
      have hword : ∀ c ∈ s.takeWhile (· != '_'), isWordChar c = true ∧ isBreak c = false :=
        fun c hc => hs.isWord ((List.takeWhile_prefix _).mem hc)
          (by simpa using List.mem_takeWhile_imp hc)
      generalize s.takeWhile (· != '_') = first at hcut hword
      cases hrest : s.dropWhile (· != '_') with
      | nil =>
          rw [hrest, List.append_nil] at hcut
          subst hcut
          by_cases hne : first = []
          · subst hne
            rfl
          · rw [words_of_forall hne hword, List.intercalate_singleton]
      | cons c t =>
          have hc : c = '_' := by
            have hnot := List.head?_dropWhile_not (· != '_') s
            rw [hrest] at hnot
            simpa using hnot
          rw [hrest, hc] at hcut
          subst hcut
          obtain ⟨ht, hfirst, hne⟩ := hs.of_append
          have hlater := ih t.length (by rw [← hn]; simp; omega) ht rfl
          obtain ⟨w, ws, hwords⟩ := List.exists_cons_of_ne_nil (l := words t) fun hnone => by
            rw [hnone] at hlater
            exact hne hlater.symm
          rw [words_append_break rfl, words_of_forall hfirst hword, hwords, List.singleton_append,
            List.intercalate_cons_cons, ← hwords, hlater, List.append_assoc, List.singleton_append]

/-- The steps put single underscores between the words of the name. -/
theorem ofChars_eq (s : List Char) : ofChars s = ['_'].intercalate (words s) := by
  rw [← words_ofChars, (isSlug_ofChars s).intercalate_words]

theorem isSlug_iff : IsSlug s ↔ ofChars s = s := by
  constructor
  · intro hs
    rw [ofChars_eq, hs.intercalate_words]
  · intro heq
    exact heq ▸ isSlug_ofChars s

/-- A text of characters of words is a slug. -/
theorem isSlug_of_forall (hs : ∀ c ∈ s, isWordChar c = true ∧ isBreak c = false) : IsSlug s := by
  rw [isSlug_iff, ofChars_eq]
  cases s with
  | nil => rfl
  | cons c s => rw [words_of_forall (List.cons_ne_nil c s) hs, List.intercalate_singleton]

theorem isWord_of_isDigit (hc : c.isDigit = true) : isWordChar c = true ∧ isBreak c = false := by
  have hrange : '0' ≤ c ∧ c ≤ '9' := by simpa [Char.isDigit, Char.le_def] using hc
  have hword : isWordChar c = true := by simp [isWordChar, hrange]
  have hne (d : Char) (hd : ¬ d ≤ '9') : c ≠ d := fun h => hd (h ▸ hrange.2)
  refine ⟨hword, ?_⟩
  simp [isBreak, hne '_' (by decide), hne '\u30fb' (by decide), isBlank_of_isWordChar hword]

/-- Two slugs with an underscore between them are a slug. -/
theorem IsSlug.append (hs : IsSlug s) (hne : s ≠ []) (ht : IsSlug t) (hne' : t ≠ []) :
    IsSlug (s ++ '_' :: t) := by
  have hsome {u : List Char} (hu : IsSlug u) (hnonempty : u ≠ []) :
      ∃ w ws, words u = w :: ws := by
    refine List.exists_cons_of_ne_nil fun hnone => hnonempty ?_
    rw [← hu.intercalate_words, hnone]
    rfl
  obtain ⟨w, ws, hwords⟩ := hsome ht hne'
  have hjoin (w' : List Char) (ws' : List (List Char)) :
      ['_'].intercalate (w' :: ws' ++ w :: ws) =
        ['_'].intercalate (w' :: ws') ++ '_' :: ['_'].intercalate (w :: ws) := by
    induction ws' generalizing w' with
    | nil => simp [List.intercalate_cons_cons]
    | cons v vs ih =>
        have ih := ih v
        simp only [List.cons_append] at ih ⊢
        rw [List.intercalate_cons_cons, List.intercalate_cons_cons, ih]
        simp
  obtain ⟨w', ws', hwords'⟩ := hsome hs hne
  rw [isSlug_iff, ofChars_eq, words_append_break rfl, hwords', hwords, hjoin, ← hwords', ← hwords,
    hs.intercalate_words, ht.intercalate_words]

/-! ## Lower case -/

/-- No run of upper-case characters lies among the syllables and ideographs. -/
theorem caseRuns_apart : ∀ r ∈ caseRuns, r.last < 0x3040 ∨ 0x9faf < r.first := by
  decide +kernel

theorem lowerChar_of_isKept (hc : isKept c = true) :
    lowerChar c = c ∧ c ≠ '\u0130' ∧ c ≠ '\u03a3' := by
  have hrange : 0x30 ≤ c.toNat ∧ c.toNat ≤ 0x39 ∨ 0x5f ≤ c.toNat ∧ c.toNat ≤ 0x7a ∨
      0x3040 ≤ c.toNat ∧ c.toNat ≤ 0x9faf := by
    have hcases : isWordChar c = true ∨ c = '_' := by simpa [isKept] using hc
    rcases hcases with hword | rfl
    · have := toNat_of_isWordChar hword
      omega
    · decide
  refine ⟨?_, ?_, ?_⟩
  · unfold lowerChar
    dsimp only
    split_ifs with hascii hupper
    · simp only [Char.le_def, UInt32.le_iff_toNat_le, Char.reduceVal, UInt32.reduceToNat]
        at hupper
      unfold Char.toNat at hrange
      omega
    · rfl
    · have hnone : (caseRuns.find? fun r =>
          r.first ≤ c.toNat && c.toNat ≤ r.last && (c.toNat - r.first) % r.step == 0) = none := by
        rw [List.find?_eq_none]
        intro r hr
        have hapart := caseRuns_apart r hr
        simp only [Bool.and_eq_true, decide_eq_true_eq]
        omega
      rw [hnone]
  · rintro rfl
    exact absurd hrange (by decide)
  · rintro rfl
    exact absurd hrange (by decide)

theorem lowerAfter_of_forall (hs : ∀ c ∈ s, lowerChar c = c ∧ c ≠ '\u0130' ∧ c ≠ '\u03a3')
    (before : List Char) : lowerAfter before s = s := by
  induction s generalizing before with
  | nil => rfl
  | cons c s ih =>
      obtain ⟨hlower, hdotted, hsigma⟩ := hs c List.mem_cons_self
      rw [lowerAfter, ih fun d hd => hs d (List.mem_cons_of_mem _ hd)]
      simp [hdotted, hsigma, hlower]

theorem isSlug_ofName (name : String) : IsSlug (ofName name).toList := by
  rw [ofName, String.toList_ofList]
  exact isSlug_ofChars _

theorem lower_of_isSlug {name : String} (hname : IsSlug name.toList) : lower name = name := by
  rw [lower, lowerAfter_of_forall fun c hc => lowerChar_of_isKept ?_, String.ofList_toList]
  rcases hname.chars c hc with rfl | ⟨hword, -⟩
  · rfl
  · rw [isKept, hword, Bool.true_or]

/-- The slug of a name is made of the words of the lower-cased name with single underscores
between them.  It has the form of a slug, it is its own slug, and it is the name itself exactly
when the name has that form. -/
theorem ofName_eq_intercalate_words (name : String) :
    ofName name = String.ofList (['_'].intercalate (words (lower name).toList)) ∧
      IsSlug (ofName name).toList ∧
      ofName (ofName name) = ofName name ∧
      (ofName name = name ↔ IsSlug name.toList) := by
  have hfixed {name : String} (hname : IsSlug name.toList) : ofName name = name := by
    rw [ofName, lower_of_isSlug hname, isSlug_iff.mp hname, String.ofList_toList]
  refine ⟨?_, isSlug_ofName name, hfixed (isSlug_ofName name), fun heq => ?_, hfixed⟩
  · rw [ofName, ofChars_eq]
  · exact heq ▸ isSlug_ofName name

/-- Once its parentheses and dashes are left out, breaks of three kinds stand side by side. -/
example : ofName "Front (end) -\u30fb- _Page" = "front_end_page" := by decide +kernel

end Slug

end Wireframe
