import Mathlib.Tactic
import Wireframe.Proofs.Lines
import Wireframe.Yaml.Failure

/-!
# Lines of failures

A failure to read a text is told in one line, unless it is about a character of the source,
which is told in two, or a word that the complaint shows as it is has the end of a line.
-/

namespace Wireframe

open Text

namespace Yaml

/-- The words that a complaint shows as they are. -/
def Complaint.words : Complaint → List String
  | notMark wanted _ => [String.singleton wanted]
  | wrongNode wanted found => [wanted, found]
  | duplicateKey key => [key]
  | notMerged found | notMergedItem found | notSequence found | notPair found => [found]
  | _ => []

theorem isOneLine_quoteFound (c : Char) : Text.IsOneLine (quoteFound c) := isOneLine_quote _

theorem Activity.isOneLine_text (activity : Activity) : Text.IsOneLine activity.text := by
  cases activity with
  | duplicateAnchor name =>
      exact isOneLine_around (isOneLine_of_all rfl) (isOneLine_quote name) (isOneLine_of_all rfl)
  | _ => exact isOneLine_of_all rfl

theorem isOneLine_decodeError (codec : String) (hcodec : Text.IsOneLine codec) (e : DecodeError) :
    Text.IsOneLine (e.message codec) := by
  have hreason : Text.IsOneLine e.reason.message := by
    cases e.reason <;> exact isOneLine_of_all rfl
  have hdigits : Text.IsOneLine (String.ofList (Nat.toDigits 16 e.byte.toNat)) :=
    isOneLine_ofList.mpr isLineEnd_of_mem_toDigits
  have hbytes : Text.IsOneLine
      (if e.length = 1 then
        "byte 0x" ++ String.ofList (Nat.toDigits 16 e.byte.toNat) ++ " in position " ++
          toString e.position
      else
        "bytes in position " ++ toString e.position ++ "-" ++
          toString (e.position + e.length - 1)) := by
    split_ifs
    · refine isOneLine_append.mpr ⟨isOneLine_around ?_ hdigits ?_, isOneLine_natText _⟩
      · exact isOneLine_of_all rfl
      · exact isOneLine_of_all rfl
    · refine isOneLine_append.mpr ⟨isOneLine_around ?_ (isOneLine_natText _) ?_,
        isOneLine_natText _⟩
      · exact isOneLine_of_all rfl
      · exact isOneLine_of_all rfl
  have hbefore : Text.IsOneLine ("'" ++ codec ++ "' codec can't decode ") :=
    isOneLine_around (isOneLine_of_all rfl) hcodec (isOneLine_of_all rfl)
  exact isOneLine_around (isOneLine_append.mpr ⟨hbefore, hbytes⟩) (isOneLine_of_all rfl) hreason

theorem isOneLine_notAsciiText (first : Nat) (chars : List Char) :
    Text.IsOneLine (notAsciiText first chars) := by
  unfold notAsciiText
  split
  next c =>
    have hescape := isOneLine_ofList.mpr (isLineEnd_of_mem_numberedEscape c)
    refine isOneLine_append.mpr ⟨isOneLine_around ?_ hescape ?_, isOneLine_natText _⟩
    · exact isOneLine_of_all rfl
    · exact isOneLine_of_all rfl
  next =>
    refine isOneLine_append.mpr ⟨isOneLine_around ?_ (isOneLine_natText _) ?_,
      isOneLine_natText _⟩
    · exact isOneLine_of_all rfl
    · exact isOneLine_of_all rfl

theorem Complaint.isOneLine_text
    {complaint : Complaint} (hwords : ∀ s ∈ complaint.words, Text.IsOneLine s) :
    Text.IsOneLine complaint.text := by
  have hfound {before : String} (hbefore : Text.IsOneLine before) (c : Char) :
      Text.IsOneLine (before ++ quoteFound c) :=
    isOneLine_append.mpr ⟨hbefore, isOneLine_quoteFound c⟩
  have hquoted {before : String} (hbefore : Text.IsOneLine before) (s : String) :
      Text.IsOneLine (before ++ quote s) :=
    isOneLine_append.mpr ⟨hbefore, isOneLine_quote s⟩
  have hword {before : String} (hbefore : Text.IsOneLine before) {s : String}
      (hs : ∀ t ∈ [s], Text.IsOneLine t) : Text.IsOneLine (before ++ s) :=
    isOneLine_append.mpr ⟨hbefore, List.forall_mem_singleton.mp hs⟩
  cases complaint with
  | badStart c =>
      exact isOneLine_around (isOneLine_of_all rfl) (isOneLine_quoteFound c) (isOneLine_of_all rfl)
  | notMark wanted c =>
      have hwanted := List.forall_mem_singleton.mp hwords
      refine isOneLine_append.mpr ⟨isOneLine_around ?_ hwanted ?_, isOneLine_quoteFound c⟩
      · exact isOneLine_of_all rfl
      · exact isOneLine_of_all rfl
  | undecodableUri e => exact isOneLine_decodeError "utf-8" (isOneLine_of_all rfl) e
  | notEscape n c =>
      refine isOneLine_append.mpr ⟨isOneLine_around ?_ (isOneLine_natText n) ?_,
        isOneLine_quoteFound c⟩
      · exact isOneLine_of_all rfl
      · exact isOneLine_of_all rfl
  | wrongNode wanted found =>
      obtain ⟨hwanted, hrest⟩ := List.forall_mem_cons.mp hwords
      refine hword (isOneLine_around ?_ hwanted ?_) hrest
      · exact isOneLine_of_all rfl
      · exact isOneLine_of_all rfl
  | duplicateKey key =>
      have hkey := List.forall_mem_singleton.mp hwords
      exact isOneLine_around (isOneLine_of_all rfl) hkey (isOneLine_of_all rfl)
  | notMerged found => exact hword (isOneLine_of_all rfl) hwords
  | notMergedItem found => exact hword (isOneLine_of_all rfl) hwords
  | notSequence found => exact hword (isOneLine_of_all rfl) hwords
  | notPair found => exact hword (isOneLine_of_all rfl) hwords
  | notSinglePair count =>
      exact isOneLine_around (isOneLine_of_all rfl) (isOneLine_natText count) (isOneLine_of_all rfl)
  | notAscii first chars =>
      exact isOneLine_around (isOneLine_of_all rfl) (isOneLine_notAsciiText first chars)
        (isOneLine_of_all rfl)
  | badLength count =>
      refine isOneLine_append.mpr ⟨isOneLine_of_all rfl, ?_⟩
      exact isOneLine_around (isOneLine_of_all rfl) (isOneLine_natText count) (isOneLine_of_all rfl)
  | notName c => exact hfound (isOneLine_of_all rfl) c
  | notDigit c => exact hfound (isOneLine_of_all rfl) c
  | notDigitOrDot c => exact hfound (isOneLine_of_all rfl) c
  | notDigitOrSpace c => exact hfound (isOneLine_of_all rfl) c
  | notSpace c => exact hfound (isOneLine_of_all rfl) c
  | notLineEnd c => exact hfound (isOneLine_of_all rfl) c
  | notUri c => exact hfound (isOneLine_of_all rfl) c
  | notUriEscape c => exact hfound (isOneLine_of_all rfl) c
  | notIndicator c => exact hfound (isOneLine_of_all rfl) c
  | unknownEscape c => exact hfound (isOneLine_of_all rfl) c
  | notDocumentStart t => exact hquoted (isOneLine_of_all rfl) t
  | secondHandle h => exact hquoted (isOneLine_of_all rfl) h
  | unknownHandle h => exact hquoted (isOneLine_of_all rfl) h
  | noContent t => exact hquoted (isOneLine_of_all rfl) t
  | notBlockEnd t => exact hquoted (isOneLine_of_all rfl) t
  | notNextItem t => exact hquoted (isOneLine_of_all rfl) t
  | notNextEntry t => exact hquoted (isOneLine_of_all rfl) t
  | unknownAlias name => exact hquoted (isOneLine_of_all rfl) name
  | unknownTag tag => exact hquoted (isOneLine_of_all rfl) tag
  | _ => exact isOneLine_of_all rfl

/-- The failure is no refusal of the source, and no word that it shows as it is ends a line. -/
structure Failure.IsTerse (f : Failure) : Prop where
  source : ∀ e, f ≠ .source e
  words : ∀ t, f = .trouble t → ∀ s ∈ t.complaint.words, Text.IsOneLine s

end Yaml

namespace Diagnostic

theorem isOneLine_clause
    {before after : String} (hbefore : Text.IsOneLine before) (hafter : Text.IsOneLine after)
    {text : Option String} (htext : ∀ s, text = some s → Text.IsOneLine s) :
    Text.IsOneLine (clause before text after) := by
  unfold clause
  split
  · exact isOneLine_of_all rfl
  next s =>
    split_ifs
    · exact isOneLine_of_all rfl
    · exact isOneLine_around hbefore (htext s rfl) hafter

theorem isOneLine_ofProblem
    {context problem : Option String} (hcontext : ∀ s, context = some s → Text.IsOneLine s)
    (hproblem : ∀ s, problem = some s → Text.IsOneLine s)
    (contextPosition position : Option Position) :
    Text.IsOneLine (ofProblem context contextPosition problem position).message := by
  refine isOneLine_around (isOneLine_of_all rfl) ?_ ?_
  · exact isOneLine_clause (isOneLine_of_all rfl) (isOneLine_of_all rfl) hproblem
  · exact isOneLine_clause (isOneLine_of_all rfl) (isOneLine_of_all rfl) hcontext

end Diagnostic

namespace Yaml

theorem Failure.isOneLine_of_diagnose?
    {f : Failure} (hf : f.IsTerse) {d : Diagnostic} (hd : f.diagnose? = some d) :
    d.path = "" ∧ Text.IsOneLine d.message := by
  cases f with
  | source e => exact absurd rfl (hf.source e)
  | trouble t =>
      cases hd
      refine ⟨rfl, Diagnostic.isOneLine_ofProblem ?_ ?_ _ _⟩
      · rintro s hs
        obtain ⟨activity, -, rfl⟩ := Option.map_eq_some_iff.mp hs
        exact activity.isOneLine_text
      · rintro s ⟨⟩
        exact Complaint.isOneLine_text (hf.words t rfl)
  | tooDeep =>
      cases hd
      exact ⟨rfl, by decide⟩
  | misfit m => cases hd

theorem SourceError.not_isOneLine_message (e : SourceError) : ¬ Text.IsOneLine e.message := by
  intro hmessage
  have hbefore := (isOneLine_append.mp hmessage).1
  have hsource := (isOneLine_append.mp (isOneLine_append.mp hbefore).1).1
  have hbreak : Text.IsOneLine "\n  in \"" := (isOneLine_append.mp hsource).2
  exact absurd hbreak (by decide)

/-- The refusal of a character of the source is never told in one line. -/
theorem Failure.not_isOneLine_of_source
    {e : SourceError} {d : Diagnostic} (hd : (Failure.source e).diagnose? = some d) :
    ¬ Text.IsOneLine d.message := by
  cases hd
  intro hmessage
  have hclause := (isOneLine_append.mp (isOneLine_append.mp hmessage).1).2
  unfold Diagnostic.clause at hclause
  simp only at hclause
  split_ifs at hclause with hempty
  · have hnone := e.not_isOneLine_message
    rw [String.isEmpty_iff.mp hempty] at hnone
    exact hnone (isOneLine_of_all rfl)
  · have htext := (isOneLine_append.mp (isOneLine_append.mp hclause).1).2
    exact e.not_isOneLine_message htext

end Yaml

end Wireframe
