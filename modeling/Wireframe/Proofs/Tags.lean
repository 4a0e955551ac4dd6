import Mathlib.Tactic
import Wireframe.Decimal.Shortest
import Wireframe.Element.Kind

/-!
# Tags

Every type is found again from its tag.  Tags consist of lower-case letters and
underscores, which the text of an integer or of a number never does, so a field whose
type is written as a number keeps being unrecognized when its type is text.
-/

namespace Wireframe

open Wireframe.Decimal

namespace FieldType

theorem ofTag_tag (t : FieldType) : ofTag t.tag = t := by
  cases t <;> rfl

theorem not_mem_tags_iff {tag : String} :
    tag ∉ known.map FieldType.tag ↔ ofTag tag = .unrecognized := by
  constructor
  · intro hunknown
    unfold ofTag
    cases hfind : known.find? (fun t => t.tag == tag) with
    | none => rfl
    | some t =>
        have htag : t.tag = tag := by simpa using List.find?_some hfind
        exact absurd (List.mem_map.mpr ⟨t, List.mem_of_find?_eq_some hfind, htag⟩) hunknown
  · rintro hunknown hmem
    obtain ⟨t, ht, rfl⟩ := List.mem_map.mp hmem
    rw [ofTag_tag] at hunknown
    subst hunknown
    exact absurd ht (by decide)

/-- Characters that tags are made of. -/
def isTagChar (c : Char) : Bool := ('a' ≤ c && c ≤ 'z') || c == '_'

theorem isTagChar_of_mem_tag
    (t : FieldType) {c : Char} (hc : c ∈ t.tag.toList) :
    isTagChar c = true := by
  have hall : t.tag.toList.all isTagChar = true := by
    cases t <;> rfl
  exact List.all_eq_true.mp hall c hc

/-- A text with a character that tags do not have is no tag. -/
theorem ofTag_of_mem
    {s : String} {c : Char} (hc : c ∈ s.toList) (hchar : isTagChar c = false) :
    ofTag s = .unrecognized := by
  unfold ofTag
  cases hfind : known.find? (fun t => t.tag == s) with
  | none => rfl
  | some t =>
      have htag : t.tag = s := by simpa using List.find?_some hfind
      rw [← htag] at hc
      rw [isTagChar_of_mem_tag t hc] at hchar
      contradiction

theorem isTagChar_of_isDigit
    {c : Char} (hc : c.isDigit = true) :
    isTagChar c = false := by
  have hbounds : 48 ≤ c.val ∧ c.val ≤ 57 := by
    simpa [Char.isDigit] using hc
  have hlow : ¬ ('a' ≤ c) := by
    intro hle
    have hval : (97 : UInt32) ≤ c.val := hle
    have := UInt32.le_trans hval hbounds.2
    exact absurd this (by decide)
  have hne : c ≠ '_' := by
    rintro rfl
    exact absurd hbounds.2 (by decide)
  simp [isTagChar, hlow, hne]

theorem exists_digit_mem_repr (n : Nat) :
    ∃ c ∈ (toString n).toList, c.isDigit = true := by
  have hlist : (toString n).toList = Nat.toDigits 10 n := Nat.toList_repr
  obtain ⟨c, hc⟩ := List.exists_mem_of_ne_nil _ (Nat.toDigits_ne_nil (n := n) (b := 10))
  exact ⟨c, hlist ▸ hc, Nat.isDigit_of_mem_toDigits (by decide) (by decide) hc⟩

theorem ofTag_integer (i : Int) : ofTag (toString i) = .unrecognized := by
  cases i with
  | ofNat n =>
      obtain ⟨c, hc, hdigit⟩ := exists_digit_mem_repr n
      exact ofTag_of_mem (s := toString (Int.ofNat n)) hc (isTagChar_of_isDigit hdigit)
  | negSucc n =>
      obtain ⟨c, hc, hdigit⟩ := exists_digit_mem_repr (n + 1)
      refine ofTag_of_mem (c := c) ?_ (isTagChar_of_isDigit hdigit)
      change c ∈ ("-" ++ toString (n + 1)).toList
      rw [String.toList_append]
      exact List.mem_append_right _ hc

theorem exists_mark_mem_layOut (digits : List Char) (exponent : Int) :
    ∃ c ∈ Double.layOut digits exponent, isTagChar c = false := by
  unfold Double.layOut
  split_ifs
  · exact ⟨'.', by simp, rfl⟩
  · exact ⟨'.', by simp, rfl⟩
  · exact ⟨'-', List.mem_append_right _ (by simp), rfl⟩
  · exact ⟨'+', List.mem_append_right _ (by simp), rfl⟩

theorem exists_mark_mem_render (negative : Bool) (m : Nat) (e : Int) :
    ∃ c ∈ (Double.render (.finite negative m e)).toList, isTagChar c = false := by
  simp only [Double.render, String.toList_ofList]
  by_cases hm : m = 0
  · refine ⟨'.', ?_, rfl⟩
    cases negative <;> simp [hm]
  · obtain ⟨c, hc, hchar⟩ :=
      exists_mark_mem_layOut
        (Double.dropTrailingZeros (toString (Double.shortest m e).1).toList)
        ((Double.shortest m e).2 + ((toString (Double.shortest m e).1).toList.length - 1 : Nat))
    refine ⟨c, ?_, hchar⟩
    rw [if_neg hm]
    cases negative
    · exact hc
    · exact List.mem_cons_of_mem _ hc

theorem ofTag_real (d : Double) : ofTag d.render = .unrecognized := by
  cases d with
  | nan => rfl
  | infinite negative => cases negative <;> rfl
  | finite negative m e =>
      obtain ⟨c, hc, hchar⟩ := exists_mark_mem_render negative m e
      exact ofTag_of_mem hc hchar

end FieldType

namespace ActionType

theorem ofTag?_tag (t : ActionType) : ofTag? t.tag = some t := by
  cases t <;> rfl

end ActionType

theorem FieldType.tag_of_ofTag
    {tag : String} {t : FieldType} (htag : FieldType.ofTag tag = t)
    (ht : t ≠ .unrecognized) :
    t.tag = tag := by
  unfold FieldType.ofTag at htag
  cases hfind : FieldType.known.find? (fun t => t.tag == tag) with
  | none => exact absurd (by simpa [hfind] using htag.symm) ht
  | some u =>
      have hu : u = t := by simpa [hfind] using htag
      subst hu
      simpa using List.find?_some hfind

end Wireframe
