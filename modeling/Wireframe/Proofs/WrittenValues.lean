import Mathlib.Tactic
import Wireframe.Proofs.Nodes

/-!
# Values that can be written

Nothing but an integer of too many digits cannot be written, alone or inside a container.  So
whatever a value that can be written is made of can be written too.
-/

namespace Wireframe

open Wireframe.Decimal

theorem Scalar.hasText_integer_iff {i : Int} :
    (Scalar.integer i).hasText = true ↔ i.natAbs < 10 ^ maxDigits := by
  rw [hasText, decide_eq_true_iff, Nat.toString_eq_repr, Nat.repr_eq_ofList_toDigits,
    String.length_ofList, Nat.length_toDigits_le_iff (by decide) (by decide)]

/-- The least positive integer that cannot be written. -/
@[irreducible]
def Scalar.long : Scalar := .integer (10 ^ maxDigits)

theorem Scalar.hasText_long : long.hasText = false := by
  rw [← Bool.not_eq_true, long, hasText_integer_iff]
  simp only [Int.natAbs_pow, Int.reduceAbs, lt_irrefl, not_false_eq_true]

@[simp] theorem Scalar.hasText_text (s : String) : (Scalar.text s).hasText = true := rfl

namespace Key

@[simp] theorem hasText_scalar (s : Scalar) : (Key.scalar s).hasText = s.hasText := by
  rw [hasText]

theorem haveText_iff (keys : List Key) : haveText keys = true ↔ ∀ k ∈ keys, k.hasText = true := by
  induction keys with
  | nil => simp [haveText]
  | cons k ks ih => simp [haveText, ih]

theorem write_eq_ok_iff {k : Key} {s : String} :
    k.write = .ok s ↔ k.hasText = true ∧ s = k.render := by
  unfold write
  split_ifs with htext <;> simp [htext, eq_comm]

theorem write_eq_error_iff {k : Key} {cause : NoText} :
    k.write = .error cause ↔ k.hasText = false := by
  cases cause
  unfold write
  split_ifs with htext <;> simp [htext]

end Key

namespace Value

theorem haveText_iff (items : List Value) :
    haveText items = true ↔ ∀ v ∈ items, v.hasText = true := by
  induction items with
  | nil => simp [haveText]
  | cons v vs ih => simp [haveText, ih]

theorem entriesHaveText_iff (entries : Entries) :
    entriesHaveText entries = true ↔ ∀ e ∈ entries, e.1.hasText = true ∧ e.2.hasText = true := by
  induction entries with
  | nil => simp [entriesHaveText]
  | cons e es ih => simp [entriesHaveText, ih]

@[simp] theorem hasText_scalar (s : Scalar) : (Value.scalar s).hasText = s.hasText := by
  rw [hasText]

@[simp] theorem hasText_list (items : List Value) :
    (list items).hasText = true ↔ ∀ v ∈ items, v.hasText = true := by
  rw [hasText, haveText_iff]

@[simp] theorem hasText_tuple (items : List Value) :
    (tuple items).hasText = true ↔ ∀ v ∈ items, v.hasText = true := by
  rw [hasText, haveText_iff]

@[simp] theorem hasText_set (keys : List Key) :
    (set keys).hasText = true ↔ ∀ k ∈ keys, k.hasText = true := by
  rw [hasText, Key.haveText_iff]

@[simp] theorem hasText_map (entries : Entries) :
    (map entries).hasText = true ↔ ∀ e ∈ entries, e.1.hasText = true ∧ e.2.hasText = true := by
  rw [hasText, entriesHaveText_iff]

mutual

/-- A key can be written as a value if it can be written as a key. -/
theorem hasText_ofKey (k : Key) : (ofKey k).hasText = k.hasText :=
  match k with
  | .scalar s => by rw [ofKey, hasText, Key.hasText]
  | .tuple ks => by rw [ofKey, hasText, Key.hasText, haveText_ofKeys ks]

theorem haveText_ofKeys (ks : List Key) : haveText (ofKey.ofKeys ks) = Key.haveText ks :=
  match ks with
  | [] => by rw [ofKey.ofKeys, haveText, Key.haveText]
  | k :: ks => by
      rw [ofKey.ofKeys, haveText, Key.haveText, hasText_ofKey k, haveText_ofKeys ks]

end

theorem write_eq_ok_iff {v : Value} {s : String} :
    v.write = .ok s ↔ v.hasText = true ∧ s = v.render := by
  unfold write
  split_ifs with htext <;> simp [htext, eq_comm]

variable {v w x : Value} {fits : Step → Key → Prop} {step : Step} {l : Location}

theorem hasText_of_child (htext : v.hasText = true) (hchild : Child fits v step w) :
    w.hasText = true := by
  cases hchild with
  | entry hmem _ => exact ((hasText_map _).mp htext _ hmem).2
  | item hitems hget =>
      have hmem := List.mem_of_getElem? hget
      cases v with
      | list items =>
          cases hitems
          exact (hasText_list _).mp htext _ hmem
      | tuple items =>
          cases hitems
          exact (hasText_tuple _).mp htext _ hmem
      | _ => cases hitems

/-- Whatever is in a value that can be written can be written. -/
theorem hasText_of_at (htext : v.hasText = true) (hat : v.At fits l x) : x.hasText = true := by
  induction hat with
  | root => exact htext
  | child hchild _ ih => exact ih (hasText_of_child htext hchild)

theorem hasText_getD {entries : Entries} (htext : (map entries).hasText = true) (name : String) :
    (entries.getD name).hasText = true := by
  cases hget : Entries.get? name entries with
  | none => simp [Entries.getD, hget, Scalar.hasText]
  | some v =>
      rw [Entries.getD_of_get? hget]
      exact hasText_of_child htext (child_of_get? hget)

theorem hasText_items {items : List Value} (htext : v.hasText = true)
    (hitems : v.items? = some items) : ∀ x ∈ items, x.hasText = true := by
  intro x hx
  obtain ⟨i, hget⟩ := List.mem_iff_getElem?.mp hx
  have hchild : v.Child Step.Spells (.place i) x := .item hitems hget
  exact hasText_of_child htext hchild

theorem hasStepTexts_of_hasText (htext : v.hasText = true) : v.hasStepTexts = true := by
  cases v with
  | map entries =>
      rw [hasStepTexts, List.all_eq_true]
      exact fun e he => ((hasText_map _).mp htext e he).1
  | _ => rfl

end Value

end Wireframe
