import Mathlib.Tactic
import Wireframe.Value.Basic

/-!
# Keys that are the same

Equal numbers are the same key whatever their type, and equal moments whatever their offset.
Mappings are filled one entry after the other, where an entry takes the place of one with the
same key.  So their keys are different, and the last of the entries with one key counts.
-/

namespace Wireframe

namespace Scalar

/-- What scalars that are the same key have in common: a number, an instant or all. -/
def identity : Scalar → Int ⊕ (Bool × Int) ⊕ Scalar
  | moment m => .inr (.inl m.instant)
  | a =>
    match a.integer? with
    | some i => .inl i
    | none => .inr (.inr a)

theorem same_iff
    {a b : Scalar} :
    a.same b = true ↔ a.identity = b.identity := by
  cases ha : a.integer? <;> cases hb : b.integer? <;> cases a <;> cases b <;>
    simp_all [same, identity, integer?]

end Scalar

namespace Key

mutual

theorem same_self : ∀ k : Key, k.same k = true
  | scalar _ => Scalar.same_iff.mpr rfl
  | tuple ks => sameItems_self ks

theorem sameItems_self : ∀ ks : List Key, sameItems ks ks = true
  | [] => rfl
  | k :: ks => by simp [sameItems, same_self k, sameItems_self ks]

end

mutual

theorem same_symm : ∀ {k l : Key}, k.same l = true → l.same k = true
  | scalar _, scalar _, hsame => Scalar.same_iff.mpr (Scalar.same_iff.mp hsame).symm
  | tuple _, tuple _, hsame => sameItems_symm hsame

theorem sameItems_symm : ∀ {ks ls : List Key}, sameItems ks ls = true → sameItems ls ks = true
  | [], [], _ => rfl
  | k :: ks, l :: ls, hsame => by
    simp only [sameItems, Bool.and_eq_true] at hsame ⊢
    exact ⟨same_symm hsame.1, sameItems_symm hsame.2⟩

end

mutual

theorem same_trans : ∀ {k l m : Key}, k.same l = true → l.same m = true → k.same m = true
  | scalar _, scalar _, scalar _, hfirst, hnext =>
    Scalar.same_iff.mpr ((Scalar.same_iff.mp hfirst).trans (Scalar.same_iff.mp hnext))
  | tuple _, tuple _, tuple _, hfirst, hnext => sameItems_trans hfirst hnext

theorem sameItems_trans :
    ∀ {ks ls ms : List Key}, sameItems ks ls = true → sameItems ls ms = true →
      sameItems ks ms = true
  | [], [], [], _, _ => rfl
  | k :: ks, l :: ls, m :: ms, hfirst, hnext => by
    simp only [sameItems, Bool.and_eq_true] at hfirst hnext ⊢
    exact ⟨same_trans hfirst.1 hnext.1, sameItems_trans hfirst.2 hnext.2⟩

end

theorem same_comm (k l : Key) : k.same l = l.same k :=
  Bool.eq_iff_iff.mpr ⟨same_symm, same_symm⟩

theorem not_same_of_same
    {k l m : Key} (hsame : k.same l = true) (hdiffer : l.same m = false) :
    k.same m = false := by
  by_contra hother
  rw [Bool.not_eq_false] at hother
  rw [same_trans (same_symm hsame) hother] at hdiffer
  cases hdiffer

end Key

namespace Entries

variable {α : Type}

/-- No two of the keys are the same. -/
def HasDistinctKeys (es : List (Key × α)) : Prop :=
  es.Pairwise fun a b => a.1.same b.1 = false

/-- Puts every entry in turn into a mapping, where the last of equal keys counts. -/
def fill (done es : List (Key × α)) : List (Key × α) :=
  es.foldl (fun done e => insert e.1 e.2 done) done

/-- A mapping has a value under a key. -/
def Maps (es : List (Key × α)) (key : Key) (value : α) : Prop :=
  ∃ e ∈ es, e.1.same key = true ∧ e.2 = value

theorem insert_of_distinct
    {key : Key} {es : List (Key × α)} (hnew : ∀ e ∈ es, e.1.same key = false) (value : α) :
    insert key value es = es ++ [(key, value)] := by
  induction es with
  | nil => rfl
  | cons e es ih =>
      have hhead := hnew e List.mem_cons_self
      rw [insert, if_neg (by simp [hhead]), ih fun x hx => hnew x (List.mem_cons_of_mem _ hx)]
      rfl

theorem exists_of_mem_insert
    {key : Key} {value : α} {es : List (Key × α)} {x : Key × α} (hx : x ∈ insert key value es) :
    (∃ e ∈ es, e.1 = x.1) ∨ x.1 = key := by
  induction es with
  | nil =>
      rw [List.mem_singleton.mp hx]
      exact .inr rfl
  | cons e es ih =>
      rw [insert] at hx
      split_ifs at hx
      · rcases List.mem_cons.mp hx with rfl | hmem
        · exact .inl ⟨e, List.mem_cons_self, rfl⟩
        · exact .inl ⟨x, List.mem_cons_of_mem _ hmem, rfl⟩
      · rcases List.mem_cons.mp hx with rfl | hmem
        · exact .inl ⟨x, List.mem_cons_self, rfl⟩
        · exact (ih hmem).imp_left fun ⟨y, hy, hkey⟩ => ⟨y, List.mem_cons_of_mem _ hy, hkey⟩

theorem hasDistinctKeys_insert
    {es : List (Key × α)} (hdistinct : HasDistinctKeys es) (key : Key) (value : α) :
    HasDistinctKeys (insert key value es) := by
  induction es with
  | nil => exact List.pairwise_singleton _ _
  | cons e es ih =>
      obtain ⟨hhead, htail⟩ := List.pairwise_cons.mp hdistinct
      rw [insert]
      split_ifs with hsame
      · exact List.pairwise_cons.mpr ⟨hhead, htail⟩
      · refine List.pairwise_cons.mpr ⟨fun x hx => ?_, ih htail⟩
        rcases exists_of_mem_insert hx with ⟨y, hy, hkey⟩ | hkey
        · rw [← hkey]
          exact hhead y hy
        · rw [hkey]
          simpa using hsame

theorem maps_insert
    (key : Key) (value : α) (es : List (Key × α)) :
    Maps (insert key value es) key value := by
  induction es with
  | nil => exact ⟨_, List.mem_singleton.mpr rfl, Key.same_self key, rfl⟩
  | cons e es ih =>
      rw [insert]
      split_ifs with hsame
      · exact ⟨_, List.mem_cons_self, hsame, rfl⟩
      · obtain ⟨x, hx, hrest⟩ := ih
        exact ⟨x, List.mem_cons_of_mem _ hx, hrest⟩

theorem Maps.insert
    {es : List (Key × α)} {key other : Key} {value : α} (hmaps : Maps es key value)
    (hother : key.same other = false) (more : α) :
    Maps (Entries.insert other more es) key value := by
  obtain ⟨x, hx, hsame, hvalue⟩ := hmaps
  have hkept : x.1.same other = false := Key.not_same_of_same hsame hother
  refine ⟨x, ?_, hsame, hvalue⟩
  clear hsame hvalue
  induction es with
  | nil => cases hx
  | cons e es ih =>
      rw [Entries.insert]
      rcases List.mem_cons.mp hx with rfl | hmem
      · rw [if_neg (by simp [hkept])]
        exact List.mem_cons_self
      · split_ifs
        · exact List.mem_cons_of_mem _ hmem
        · exact List.mem_cons_of_mem _ (ih hmem)

theorem hasDistinctKeys_fill
    {done : List (Key × α)} (hdone : HasDistinctKeys done) (es : List (Key × α)) :
    HasDistinctKeys (fill done es) := by
  induction es generalizing done with
  | nil => exact hdone
  | cons e es ih => exact ih (hasDistinctKeys_insert hdone e.1 e.2)

theorem fill_of_distinct
    {done es : List (Key × α)} (hdistinct : HasDistinctKeys (done ++ es)) :
    fill done es = done ++ es := by
  induction es generalizing done with
  | nil => rw [List.append_nil]; rfl
  | cons e es ih =>
      have hnew : ∀ x ∈ done, x.1.same e.1 = false := fun x hx =>
        (List.pairwise_append.mp hdistinct).2.2 x hx e List.mem_cons_self
      have hnext : done ++ e :: es = (done ++ [(e.1, e.2)]) ++ es := by simp
      rw [hnext] at hdistinct ⊢
      rw [← ih hdistinct, ← insert_of_distinct hnew]
      rfl

theorem Maps.fill
    {done : List (Key × α)} {key : Key} {value : α} (hmaps : Maps done key value)
    {es : List (Key × α)} (hothers : ∀ e ∈ es, key.same e.1 = false) :
    Maps (Entries.fill done es) key value := by
  induction es generalizing done with
  | nil => exact hmaps
  | cons e es ih =>
      exact ih (hmaps.insert (hothers e List.mem_cons_self) e.2)
        fun x hx => hothers x (List.mem_cons_of_mem _ hx)

theorem maps_fill
    (done : List (Key × α)) {es : List (Key × α)} (hdistinct : HasDistinctKeys es) {e : Key × α}
    (he : e ∈ es) :
    Maps (fill done es) e.1 e.2 := by
  induction es generalizing done with
  | nil => cases he
  | cons x es ih =>
      obtain ⟨hhead, htail⟩ := List.pairwise_cons.mp hdistinct
      rcases List.mem_cons.mp he with rfl | hmem
      · exact (maps_insert e.1 e.2 done).fill hhead
      · exact ih _ htail hmem

end Entries

end Wireframe
