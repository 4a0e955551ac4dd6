import Mathlib.Tactic
import Wireframe.Proofs.Records

/-!
# Renamed entries

An entry of a mapping is given another name and keeps its place and its value.  The shorthands of
a record look up a few names only and put their parts under them.  So if neither name is one of
these, it makes no difference whether an entry is renamed before the shorthands are expanded or
afterwards.  Whatever is left over from the attributes of a record stays the same, if the entry
is written as an attribute under both names.
-/

namespace Wireframe

/-- The key under another name, if it has the name. -/
def Key.rename (old new : String) (k : Key) : Key := if k.text? = some old then .text new else k

/-- The entries of one name under another name. -/
def Entries.rename {α : Type} (old new : String) (es : List (Key × α)) : List (Key × α) :=
  es.map fun e => (e.1.rename old new, e.2)

variable {old new name : String}

namespace Key

variable {k : Key}

theorem rename_of_text (hk : k.text? = some old) : k.rename old new = .text new := if_pos hk

theorem rename_of_ne (hk : k.text? ≠ some old) : k.rename old new = k := if_neg hk

theorem text?_rename_iff (hold : name ≠ old) (hnew : name ≠ new) :
    (k.rename old new).text? = some name ↔ k.text? = some name := by
  by_cases hk : k.text? = some old
  · rw [rename_of_text hk, hk]
    exact iff_of_false (fun h => hnew (Option.some.inj h).symm)
      fun h => hold (Option.some.inj h).symm
  · rw [rename_of_ne hk]

theorem text?_rename_new_iff (hnone : k.text? ≠ some new) :
    (k.rename old new).text? = some new ↔ k.text? = some old := by
  by_cases hk : k.text? = some old
  · rw [rename_of_text hk]
    exact iff_of_true rfl hk
  · rw [rename_of_ne hk]
    exact iff_of_false hnone hk

theorem text?_rename_ne (hne : old ≠ new) (k : Key) : (k.rename old new).text? ≠ some old := by
  by_cases hk : k.text? = some old
  · rw [rename_of_text hk]
    exact fun h => hne (Option.some.inj h).symm
  · rwa [rename_of_ne hk]

theorem rename_self (k : Key) : k.rename name name = k := by
  by_cases hk : k.text? = some name
  · rw [rename_of_text hk]
    unfold text? at hk
    split at hk
    · rw [Option.some.inj hk]
    · cases hk
  · exact rename_of_ne hk

end Key

namespace Entries

theorem rename_cons {α : Type} (e : Key × α) (es : List (Key × α)) :
    rename old new (e :: es) = (e.1.rename old new, e.2) :: rename old new es := rfl

theorem rename_self (es : Entries) : rename name name es = es := by
  simp [rename, Key.rename_self]

theorem offers_rename (es : Entries) : offers (rename old new es) = rename old new es.offers := by
  rw [offers, rename, rename, offers, List.map_map, List.map_map]
  rfl

end Entries

namespace Offer

open Entries

variable {os : List (Key × Offer)} {o : Offer}

theorem find?_cons (name : String) (o : Key × Offer) (os : List (Key × Offer)) :
    find? name (o :: os) = if o.1.text? = some name then some o.2 else find? name os := by
  unfold find?
  rw [List.find?_cons]
  by_cases hname : o.1.text? = some name
  · rw [if_pos hname, beq_iff_eq.mpr hname]
    rfl
  · rw [if_neg hname, beq_eq_false_iff_ne.mpr hname]

theorem text?_ne_of_find? (hnone : find? name os = none) : ∀ o ∈ os, o.1.text? ≠ some name := by
  rw [find?, Option.map_eq_none_iff, List.find?_eq_none] at hnone
  exact fun o ho hname => hnone o ho (beq_iff_eq.mpr hname)

theorem find?_rename (hold : name ≠ old) (hnew : name ≠ new) (os : List (Key × Offer)) :
    find? name (rename old new os) = find? name os := by
  induction os with
  | nil => rfl
  | cons o os ih =>
      rw [rename_cons, find?_cons, find?_cons, ih]
      simp only [Key.text?_rename_iff hold hnew]

theorem find?_rename_new (hnone : find? new os = none) :
    find? new (rename old new os) = find? old os := by
  induction os with
  | nil => rfl
  | cons o os ih =>
      rw [find?_cons] at hnone
      split_ifs at hnone with hkey
      rw [rename_cons, find?_cons, find?_cons, ih hnone]
      simp only [Key.text?_rename_new_iff hkey]

theorem find?_rename_old (hne : old ≠ new) (os : List (Key × Offer)) :
    find? old (rename old new os) = none := by
  induction os with
  | nil => rfl
  | cons o os ih =>
      rw [rename_cons, find?_cons, ih, if_neg (Key.text?_rename_ne hne _)]

theorem valueOf_rename (hold : name ≠ old) (hnew : name ≠ new) (os : List (Key × Offer)) :
    valueOf name (rename old new os) = valueOf name os := by
  rw [valueOf, valueOf, find?_rename hold hnew]

theorem put_rename (hold : name ≠ old) (hnew : name ≠ new) (o : Offer) (os : List (Key × Offer)) :
    put name o (rename old new os) = rename old new (put name o os) := by
  induction os with
  | nil =>
      have hkey : (Key.text name).rename old new = .text name :=
        if_neg fun h => hold (Option.some.inj h)
      simp [rename, put, hkey]
  | cons p os ih =>
      rw [rename_cons, put, put, ih]
      by_cases hkey : p.1.text? = some name
      · have hrenamed := (Key.text?_rename_iff hold hnew).mpr hkey
        rw [if_pos (beq_iff_eq.mpr hkey), if_pos (beq_iff_eq.mpr hrenamed), rename_cons]
      · have hrenamed := mt (Key.text?_rename_iff hold hnew).mp hkey
        rw [if_neg (mt beq_iff_eq.mp hkey), if_neg (mt beq_iff_eq.mp hrenamed), rename_cons]

end Offer

namespace Reading

open Entries

/-- The names that shorthands are made from, and those that they stand for. -/
def shorthands : List String := ["field_name", "id", "label", "text"]

section Shorthands

variable (hold : old ∉ shorthands) (hnew : new ∉ shorthands)

include hold hnew

theorem find?_rename_shorthand (hname : name ∈ shorthands) (os : List (Key × Offer)) :
    Offer.find? name (rename old new os) = Offer.find? name os :=
  Offer.find?_rename (ne_of_mem_of_not_mem hname hold) (ne_of_mem_of_not_mem hname hnew) os

theorem valueOf_rename_shorthand (hname : name ∈ shorthands) (os : List (Key × Offer)) :
    Offer.valueOf name (rename old new os) = Offer.valueOf name os :=
  Offer.valueOf_rename (ne_of_mem_of_not_mem hname hold) (ne_of_mem_of_not_mem hname hnew) os

theorem put_rename_shorthand (hname : name ∈ shorthands) (o : Offer) (os : List (Key × Offer)) :
    Offer.put name o (rename old new os) = rename old new (Offer.put name o os) :=
  Offer.put_rename (ne_of_mem_of_not_mem hname hold) (ne_of_mem_of_not_mem hname hnew) o os

theorem fillName_rename (os : List (Key × Offer)) :
    fillName (rename old new os) = rename old new (fillName os) := by
  have hfill {key : String} (hkey : key ∈ shorthands) (p : Offer) (os : List (Key × Offer)) :
      (if (Offer.valueOf key (rename old new os)).isPresent then rename old new os
        else Offer.put key p (rename old new os)) =
        rename old new (if (Offer.valueOf key os).isPresent then os else Offer.put key p os) := by
    rw [valueOf_rename_shorthand hold hnew hkey, put_rename_shorthand hold hnew hkey]
    split_ifs <;> rfl
  unfold fillName
  rw [find?_rename_shorthand hold hnew (by decide)]
  cases Offer.find? "field_name" os with
  | none => rfl
  | some p =>
      have hid : "id" ∈ shorthands := by decide
      have hlabel : "label" ∈ shorthands := by decide
      simp only [List.foldl_cons, List.foldl_nil]
      rw [hfill hid, hfill hlabel]
      split_ifs <;> rfl

theorem fillHeading_rename (os : List (Key × Offer)) :
    fillHeading (rename old new os) = rename old new (fillHeading os) := by
  have hfind {key : String} (hkey : key ∈ shorthands) :=
    find?_rename_shorthand hold hnew hkey os
  have hlabel : "label" ∈ shorthands := by decide
  have hfieldName : "field_name" ∈ shorthands := by decide
  have htext : "text" ∈ shorthands := by decide
  unfold fillHeading
  simp only [List.filterMap_cons, List.filterMap_nil, hfind hlabel, hfind hfieldName]
  rw [valueOf_rename_shorthand hold hnew htext, put_rename_shorthand hold hnew htext]
  split_ifs <;> rfl

theorem expand_rename (t : RecordType) (os : List (Key × Offer)) :
    expand t (rename old new os) = rename old new (expand t os) := by
  unfold expand
  split
  · rw [fillHeading_rename hold hnew, fillName_rename hold hnew]
  · exact fillName_rename hold hnew os
  · rfl

end Shorthands

theorem readExtra_of_text
    {used : List String} {o : Key × Offer} (hname : o.1.text? = some name) :
    readExtra used o = .ok (if used.contains name then none else some (name, o.2.value)) := by
  rw [readExtra, hname]

/-- What is left over is the same if the entry that is renamed is used under both names. -/
theorem map_readExtra_rename
    {os : List (Key × Offer)} {used used' : List String} (hold : old ∈ used) (hnew : new ∈ used')
    (hused : ∀ s, s ≠ old → s ≠ new → (s ∈ used' ↔ s ∈ used)) (hnone : Offer.find? new os = none) :
    (rename old new os).map (readExtra used') = os.map (readExtra used) := by
  rw [rename, List.map_map]
  refine List.map_congr_left fun o ho => ?_
  have hne := Offer.text?_ne_of_find? hnone o ho
  change readExtra used' (o.1.rename old new, o.2) = readExtra used o
  by_cases hkey : o.1.text? = some old
  · rw [readExtra_of_text hkey, Key.rename_of_text hkey, readExtra_of_text rfl,
      if_pos (List.contains_iff_mem.mpr hold), if_pos (List.contains_iff_mem.mpr hnew)]
  · rw [Key.rename_of_ne hkey]
    unfold readExtra
    cases hs : o.1.text? with
    | none => rfl
    | some s =>
        rw [hs] at hkey hne
        have hsame := hused s (fun h => hkey (congrArg some h)) fun h => hne (congrArg some h)
        simp only [List.contains_iff_mem, hsame]

end Reading

end Wireframe
