import Mathlib.Data.List.TakeWhile
import Mathlib.Tactic
import Wireframe.Text.Blank

/-!
# Trimming

Trimming a text leaves out characters of the class at both ends, and what it leaves neither starts
nor ends with one.  This is what was there before such characters were put around it.
-/

namespace Wireframe.Text

variable {p : Char → Bool} {s before after : List Char}

theorem head?_dropWhile (p : Char → Bool) (s : List Char) :
    ∀ c ∈ (s.dropWhile p).head?, p c = false := by
  intro c hc
  have hnot := List.head?_dropWhile_not p s
  rw [Option.mem_def.mp hc] at hnot
  exact hnot

theorem dropWhile_eq_self (hhead : ∀ c ∈ s.head?, p c = false) : s.dropWhile p = s := by
  cases s with
  | nil => rfl
  | cons c s => exact List.dropWhile_cons_of_neg (by simp [hhead c rfl])

theorem isPrefix_trim (p : Char → Bool) (s : List Char) : trim p s <+: s.dropWhile p := by
  rw [trim, ← List.reverse_suffix, List.reverse_reverse]
  exact List.dropWhile_suffix _

theorem head?_trim (p : Char → Bool) (s : List Char) : ∀ c ∈ (trim p s).head?, p c = false := by
  intro c hc
  obtain ⟨rest, hrest⟩ := List.head?_eq_some_iff.mp hc
  obtain ⟨more, hmore⟩ := isPrefix_trim p s
  refine head?_dropWhile p s c ?_
  rw [← hmore, hrest]
  rfl

theorem getLast?_trim (p : Char → Bool) (s : List Char) :
    ∀ c ∈ (trim p s).getLast?, p c = false := by
  rw [trim, List.getLast?_reverse]
  exact head?_dropWhile p _

/-- What trimming leaves out is around what it leaves. -/
theorem exists_around_trim (p : Char → Bool) (s : List Char) :
    ∃ before after, before ++ trim p s ++ after = s ∧
      (∀ c ∈ before, p c = true) ∧ ∀ c ∈ after, p c = true := by
  refine ⟨s.takeWhile p, ((s.dropWhile p).reverse.takeWhile p).reverse, ?_, ?_, ?_⟩
  · rw [trim, List.append_assoc, ← List.reverse_append, List.takeWhile_append_dropWhile,
      List.reverse_reverse, List.takeWhile_append_dropWhile]
  · exact fun c hc => List.mem_takeWhile_imp hc
  · exact fun c hc => List.mem_takeWhile_imp (List.mem_reverse.mp hc)

theorem trim_of_forall (hs : ∀ c ∈ s, p c = true) : trim p s = [] := by
  rw [trim, List.dropWhile_eq_nil_iff.mpr hs]
  rfl

/-- What is put around a text that starts and ends with other characters is trimmed. -/
theorem trim_around
    (hbefore : ∀ c ∈ before, p c = true) (hafter : ∀ c ∈ after, p c = true) (hne : s ≠ [])
    (hhead : ∀ c ∈ s.head?, p c = false) (hlast : ∀ c ∈ s.getLast?, p c = false) :
    trim p (before ++ s ++ after) = s := by
  have hfront : (before ++ s ++ after).dropWhile p = s ++ after := by
    rw [List.append_assoc, List.dropWhile_append_of_pos hbefore]
    refine dropWhile_eq_self ?_
    rwa [List.head?_append_of_ne_nil _ hne]
  have hback : (s ++ after).reverse.dropWhile p = s.reverse := by
    rw [List.reverse_append, List.dropWhile_append_of_pos (by simpa using hafter)]
    refine dropWhile_eq_self ?_
    rwa [List.head?_reverse]
  rw [trim, hfront, hback, List.reverse_reverse]

end Wireframe.Text
