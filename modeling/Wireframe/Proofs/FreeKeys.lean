import Mathlib.Data.Finset.Card
import Mathlib.Data.List.Perm.Subperm
import Mathlib.Data.List.Nodup
import Mathlib.Order.Bounds.Defs
import Mathlib.Tactic
import Wireframe.Slug

/-!
# Free keys

A key that is asked for among taken keys is never one of them.  The variants of a key are
all different, so more of them are tried than there are taken keys.  What is given is the key
itself or, if that is taken, the first of its variants that is free.  A search without a bound
ends there as well.
-/

namespace Wireframe

namespace Slug

theorem variant_injective (key : String) : Function.Injective (variant key) := by
  intro m n heq
  have hdigits : Nat.toDigits 10 m = Nat.toDigits 10 n := by
    have hlist := congrArg String.toList heq
    simp only [variant, String.toList_append, List.append_assoc,
      List.append_cancel_left_eq, Nat.toString_eq_ofList_toDigits, String.toList_ofList] at hlist
    exact hlist
  have hvalue := congrArg (fun ds => Nat.ofDigitChars 10 ds 0) hdigits
  simpa only [Nat.ofDigitChars_ten_toDigits] using hvalue

/-- A search that ends with a taken variant has tried taken variants only. -/
theorem variant_mem_of_freeFrom_mem
    {taken : List String} {key : String} {n left : Nat}
    (hmem : freeFrom taken key n left ∈ taken) {i : Nat} (hi : i ≤ left) :
    variant key (n + i) ∈ taken := by
  induction left generalizing n i with
  | zero =>
      have hzero : i = 0 := by omega
      subst hzero
      exact hmem
  | succ left ih =>
      unfold freeFrom at hmem
      by_cases htaken : variant key n ∈ taken
      · rw [if_pos (by simpa using htaken)] at hmem
        cases i with
        | zero => exact htaken
        | succ i =>
            have hnext : variant key (n + 1 + i) ∈ taken := ih hmem (by omega)
            rwa [show n + 1 + i = n + (i + 1) by omega] at hnext
      · rw [if_neg (by simpa using htaken)] at hmem
        exact absurd hmem htaken

theorem freeFrom_not_mem
    (taken : List String) (key : String) (n : Nat) :
    freeFrom taken key n taken.length ∉ taken := by
  intro hmem
  let tried := (List.range (taken.length + 1)).map fun i => variant key (n + i)
  have hnodup : tried.Nodup := by
    apply List.Nodup.map _ List.nodup_range
    intro i j heq
    have hsum : n + i = n + j := variant_injective key heq
    omega
  have hsubset : tried ⊆ taken := by
    intro v hv
    obtain ⟨i, hi, rfl⟩ := List.mem_map.mp hv
    apply variant_mem_of_freeFrom_mem hmem
    have hlt := List.mem_range.mp hi
    omega
  have hlength : tried.length ≤ taken.length := (hnodup.subperm hsubset).length_le
  simp only [tried, List.length_map, List.length_range] at hlength
  omega

theorem unique_not_mem
    (taken : List String) (key : String) :
    unique taken key ∉ taken := by
  unfold unique
  by_cases htaken : key ∈ taken
  · rw [if_pos (by simpa using htaken)]
    exact freeFrom_not_mem taken key 2
  · rwa [if_neg (by simpa using htaken)]

/-- The key that is given for a key among taken ones: the key itself if it is free, else its
variant with the least number from two on that is free. -/
def IsFirstFree (taken : List String) (key given : String) : Prop :=
  key ∉ taken ∧ given = key ∨
    key ∈ taken ∧ ∃ n, 2 ≤ n ∧ given = variant key n ∧ given ∉ taken ∧
      ∀ m, 2 ≤ m → m < n → variant key m ∈ taken

/-- The search passes over taken variants only. -/
theorem exists_freeFrom_eq
    (taken : List String) (key : String) (n left : Nat) :
    ∃ i, freeFrom taken key n left = variant key (n + i) ∧
      ∀ m, n ≤ m → m < n + i → variant key m ∈ taken := by
  induction left generalizing n with
  | zero => exact ⟨0, rfl, fun m hle hlt => by omega⟩
  | succ left ih =>
      unfold freeFrom
      by_cases htaken : variant key n ∈ taken
      · obtain ⟨i, heq, hall⟩ := ih (n + 1)
        rw [if_pos (by simpa using htaken)]
        refine ⟨i + 1, by rw [heq, show n + 1 + i = n + (i + 1) by omega], fun m hle hlt => ?_⟩
        rcases Nat.eq_or_lt_of_le hle with rfl | hnext
        · exact htaken
        · exact hall m hnext (by omega)
      · rw [if_neg (by simpa using htaken)]
        exact ⟨0, rfl, fun m hle hlt => by omega⟩

theorem isFirstFree_unique
    (taken : List String) (key : String) :
    IsFirstFree taken key (unique taken key) := by
  unfold unique
  by_cases htaken : key ∈ taken
  · rw [if_pos (by simpa using htaken)]
    obtain ⟨i, heq, hall⟩ := exists_freeFrom_eq taken key 2 taken.length
    exact .inr ⟨htaken, 2 + i, by omega, heq, freeFrom_not_mem taken key 2, hall⟩
  · rw [if_neg (by simpa using htaken)]
    exact .inl ⟨htaken, rfl⟩

/-! ## The search without a bound -/

/-- A search that goes on from one number to the next as long as the variant is taken, and ends
at the first one that is not. -/
inductive Search (taken : List String) (key : String) : (first last : Nat) → Prop
  | free {n} (hfree : variant key n ∉ taken) : Search taken key n n
  | taken {n last} (htaken : variant key n ∈ taken) (hrest : Search taken key (n + 1) last) :
      Search taken key n last

section Search

variable {taken : List String} {key : String} {n last : Nat}

/-- A search ends at the least number whose variant is free. -/
theorem Search.isLeast (hsearch : Search taken key n last) :
    IsLeast {m | n ≤ m ∧ variant key m ∉ taken} last := by
  induction hsearch with
  | free hfree => exact ⟨⟨le_rfl, hfree⟩, fun m hm => hm.1⟩
  | @taken n last htaken _ ih =>
      refine ⟨⟨(Nat.le_succ n).trans ih.1.1, ih.1.2⟩, fun m hm => ih.2 ⟨?_, hm.2⟩⟩
      rcases Nat.eq_or_lt_of_le hm.1 with rfl | hlt
      · exact absurd htaken hm.2
      · exact hlt

/-- A number whose variant is free is found from any number before which all are taken. -/
theorem search_of_taken
    {i : Nat} (hfree : variant key (n + i) ∉ taken)
    (htaken : ∀ m, n ≤ m → m < n + i → variant key m ∈ taken) :
    Search taken key n (n + i) := by
  induction i generalizing n with
  | zero => exact .free hfree
  | succ i ih =>
      have hnext : n + 1 + i = n + (i + 1) := by omega
      refine .taken (htaken n le_rfl (by omega)) (hnext ▸ ih ?_ fun m hle hlt => ?_)
      · rwa [hnext]
      · exact htaken m (by omega) (by omega)

/-- A variant is longer than its key. -/
theorem variant_ne (key : String) (n : Nat) : variant key n ≠ key := by
  intro heq
  have hlength := congrArg String.length heq
  have hone : "_".length = 1 := rfl
  simp only [variant, String.length_append] at hlength
  omega

/-- A taken key and its taken variants are different, so they are not more than the taken keys. -/
theorem Search.le_card (hsearch : Search taken key 2 last) (hkey : key ∈ taken) :
    last ≤ taken.toFinset.card + 1 := by
  let variants := (Finset.Ico 2 last).image (variant key)
  have hnew : key ∉ variants := by
    intro hmem
    obtain ⟨m, -, heq⟩ := Finset.mem_image.mp hmem
    exact variant_ne key m heq
  have hsubset : insert key variants ⊆ taken.toFinset := by
    intro k hk
    rw [List.mem_toFinset]
    rcases Finset.mem_insert.mp hk with rfl | hk
    · exact hkey
    · obtain ⟨m, hm, rfl⟩ := Finset.mem_image.mp hk
      rw [Finset.mem_Ico] at hm
      by_contra hfree
      have hle := hsearch.isLeast.2 ⟨hm.1, hfree⟩
      omega
  have hcard := Finset.card_le_card hsubset
  rw [Finset.card_insert_of_notMem hnew,
    Finset.card_image_of_injective _ (variant_injective key), Nat.card_Ico] at hcard
  omega

end Search

/-- The search among the variants of a taken key ends, at the least number from two on whose
variant is free, and this number is at most one more than there are taken keys.  What is given
is that variant, or the key itself if it is free. -/
theorem search_gives_unique
    (taken : List String) (key : String) :
    unique taken key ∉ taken ∧ (key ∉ taken → unique taken key = key) ∧
      (key ∈ taken → ∃ n, Search taken key 2 n ∧ unique taken key = variant key n ∧
        IsLeast {m | 2 ≤ m ∧ variant key m ∉ taken} n ∧ n ≤ taken.toFinset.card + 1) := by
  refine ⟨unique_not_mem taken key, fun hfree => ?_, fun htaken => ?_⟩
  · rcases isFirstFree_unique taken key with ⟨-, hgiven⟩ | ⟨htaken, -⟩
    · exact hgiven
    · exact absurd htaken hfree
  · rcases isFirstFree_unique taken key with ⟨hfree, -⟩ | ⟨-, n, hn, hgiven, hfree, hbefore⟩
    · exact absurd htaken hfree
    · obtain ⟨i, rfl⟩ := Nat.exists_eq_add_of_le hn
      rw [hgiven] at hfree
      have hsearch : Search taken key 2 (2 + i) := search_of_taken hfree hbefore
      exact ⟨2 + i, hsearch, hgiven, hsearch.isLeast, hsearch.le_card htaken⟩

/-- All three taken keys are tried, and the search ends at four, which is as far as it can get. -/
theorem search_gives_unique_crowded :
    "home" ∈ ["home", "home_3", "home_2"] ∧
      ∃ n, Search ["home", "home_3", "home_2"] "home" 2 n ∧
        unique ["home", "home_3", "home_2"] "home" = variant "home" n ∧
        n ≤ ["home", "home_3", "home_2"].toFinset.card + 1 ∧ n = 4 := by
  obtain ⟨n, hsearch, hgiven, -, hle⟩ :=
    (search_gives_unique ["home", "home_3", "home_2"] "home").2.2 (by decide)
  refine ⟨by decide, n, hsearch, hgiven, hle, variant_injective "home" ?_⟩
  rw [← hgiven]
  decide +kernel

end Slug

end Wireframe
