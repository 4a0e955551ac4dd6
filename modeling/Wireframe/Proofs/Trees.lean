import Mathlib.Data.List.Forall2
import Mathlib.Tactic
import Wireframe.Canonical.Table

/-!
# Trees of values

Values are finite trees, so what holds of a container whenever it holds of its parts
holds of every value.  Raw trees are those that plain documents are read into: they
have no bytes, dates, tuples or sets in them, and they do not hold themselves.  Their
keys may be anything.
-/

namespace Wireframe

/-! ## Lists of pairs and related lists -/

/-- A search by the first component finds the only pair that has it. -/
theorem find?_fst_of_mem
    {α β : Type} [BEq α] [LawfulBEq α] {pairs : List (α × β)}
    (hnodup : (pairs.map Prod.fst).Nodup) {x : α × β} (hx : x ∈ pairs) :
    pairs.find? (fun p => p.1 == x.1) = some x := by
  cases hfind : pairs.find? fun p => p.1 == x.1 with
  | none => simpa using List.find?_eq_none.mp hfind x hx
  | some y =>
      have hmem := List.mem_of_find?_eq_some hfind
      have hsame : y.1 = x.1 := by simpa using List.find?_some hfind
      rw [List.inj_on_of_nodup_map hnodup hmem hx hsame]

theorem exists_of_mem_left
    {α β : Type} {R : α → β → Prop} {as : List α} {bs : List β}
    (hrel : List.Forall₂ R as bs) {a : α} (ha : a ∈ as) :
    ∃ b, (a, b) ∈ as.zip bs ∧ R a b := by
  induction hrel with
  | nil => cases ha
  | cons hhead htail ih =>
      rcases List.mem_cons.mp ha with rfl | hmem
      · exact ⟨_, by simp, hhead⟩
      · obtain ⟨b, hb, hr⟩ := ih hmem
        exact ⟨b, by simp [hb], hr⟩

theorem exists_of_mem_right
    {α β : Type} {R : α → β → Prop} {as : List α} {bs : List β}
    (hrel : List.Forall₂ R as bs) {b : β} (hb : b ∈ bs) :
    ∃ a ∈ as, R a b := by
  induction hrel with
  | nil => cases hb
  | cons hhead htail ih =>
      rcases List.mem_cons.mp hb with rfl | hmem
      · exact ⟨_, List.mem_cons_self, hhead⟩
      · obtain ⟨a, ha, hr⟩ := ih hmem
        exact ⟨a, List.mem_cons_of_mem _ ha, hr⟩

theorem exists_getElem?_of_forall₂
    {α β : Type} {R : α → β → Prop} {as : List α} {bs : List β}
    (hrel : List.Forall₂ R as bs) {i : Nat} {b : β} (hb : bs[i]? = some b) :
    ∃ a, as[i]? = some a ∧ R a b := by
  induction hrel generalizing i with
  | nil => cases hb
  | cons hhead htail ih =>
      cases i with
      | zero =>
          cases hb
          exact ⟨_, rfl, hhead⟩
      | succ i => exact ih hb

theorem exists_sublist_of_forall₂
    {α β : Type} {R : α → β → Prop} {as : List α} {bs cs : List β}
    (hrel : List.Forall₂ R as bs) (hsub : cs.Sublist bs) :
    ∃ ds, ds.Sublist as ∧ List.Forall₂ R ds cs := by
  induction hrel generalizing cs with
  | nil =>
      cases hsub
      exact ⟨[], .slnil, .nil⟩
  | cons hhead _ ih =>
      cases hsub with
      | cons _ hrest =>
          obtain ⟨ds, hds, hmade⟩ := ih hrest
          exact ⟨ds, hds.cons _, hmade⟩
      | cons_cons _ hrest =>
          obtain ⟨ds, hds, hmade⟩ := ih hrest
          exact ⟨_ :: ds, hds.cons_cons _, .cons hhead hmade⟩

theorem map_eq_map_of_forall₂
    {α β γ : Type} {R : α → β → Prop} {f : α → γ} {g : β → γ} {as : List α} {bs : List β}
    (hrel : List.Forall₂ R as bs) (hagree : ∀ a b, R a b → g b = f a) :
    bs.map g = as.map f := by
  induction hrel with
  | nil => rfl
  | cons hhead htail ih => rw [List.map_cons, List.map_cons, hagree _ _ hhead, ih]

theorem forall₂_comp
    {α β γ : Type} {R : α → β → Prop} {S : β → γ → Prop} {as : List α} {bs : List β} {cs : List γ}
    (hleft : List.Forall₂ R as bs) (hright : List.Forall₂ S bs cs) :
    List.Forall₂ (fun a c => ∃ b, R a b ∧ S b c) as cs := by
  induction hleft generalizing cs with
  | nil =>
      cases hright
      exact .nil
  | cons hhead htail ih =>
      cases hright with
      | cons hhead' htail' => exact .cons ⟨_, hhead, hhead'⟩ (ih htail')

theorem mapM_eq_ok_iff
    {ε α β : Type} {f : α → Except ε β} {items : List α} {results : List β} :
    items.mapM f = .ok results ↔ List.Forall₂ (fun x y => f x = .ok y) items results := by
  induction items generalizing results with
  | nil => cases results <;> simp [pure, Except.pure]
  | cons x xs ih =>
      cases hx : f x with
      | error e => cases results <;> simp [bind, Except.bind, hx]
      | ok y =>
          cases hxs : xs.mapM f with
          | error e => cases results <;> simp [bind, Except.bind, hx, hxs, ← ih]
          | ok ys =>
              cases results <;> simp [bind, Except.bind, pure, Except.pure, hx, hxs, ← ih]

/-! ## Values -/

namespace Value

/-- Induction over the parts of lists, tuples and mappings. -/
@[elab_as_elim]
theorem inductionOn
    {motive : Value → Prop}
    (scalar : ∀ s, motive (.scalar s))
    (list : ∀ items, (∀ v ∈ items, motive v) → motive (.list items))
    (tuple : ∀ items, (∀ v ∈ items, motive v) → motive (.tuple items))
    (set : ∀ keys, motive (.set keys))
    (map : ∀ entries, (∀ e ∈ entries, motive e.2) → motive (.map entries))
    (back : ∀ levels, motive (.back levels))
    (v : Value) : motive v :=
  match v with
  | .scalar s => scalar s
  | .list items =>
    list items fun v hv =>
      have := List.sizeOf_lt_of_mem hv
      inductionOn scalar list tuple set map back v
  | .tuple items =>
    tuple items fun v hv =>
      have := List.sizeOf_lt_of_mem hv
      inductionOn scalar list tuple set map back v
  | .set keys => set keys
  | .map entries =>
    map entries fun e he =>
      have := List.sizeOf_lt_of_mem he
      inductionOn scalar list tuple set map back e.2
  | .back levels => back levels
termination_by sizeOf v
decreasing_by
  all_goals simp_wf
  · omega
  · omega
  · have hpair : sizeOf e = 1 + sizeOf e.1 + sizeOf e.2 := rfl
    omega

/-- Induction over mappings, where the values of a mapping and the items of these values are
below it. -/
@[elab_as_elim]
theorem mapInductionOn
    {motive : Value → Prop}
    (map : ∀ entries : Entries,
      (∀ e ∈ entries, ∀ items, e.2.items? = some items → ∀ x ∈ items, motive x) →
      motive (.map entries))
    (other : ∀ v, v.isMap = false → motive v)
    (v : Value) : motive v := by
  suffices hboth : motive v ∧ ∀ items, v.items? = some items → ∀ x ∈ items, motive x from
    hboth.1
  induction v using Value.inductionOn with
  | list items ih =>
      exact ⟨other _ rfl, fun _ hitems x hx => by cases hitems; exact (ih x hx).1⟩
  | tuple items ih =>
      exact ⟨other _ rfl, fun _ hitems x hx => by cases hitems; exact (ih x hx).1⟩
  | map entries ih => exact ⟨map entries fun e he => (ih e he).2, by simp [items?]⟩
  | scalar s => exact ⟨other _ rfl, by simp [items?]⟩
  | set keys => exact ⟨other _ rfl, by simp [items?]⟩
  | back levels => exact ⟨other _ rfl, by simp [items?]⟩

mutual

/-- Whether a value is null, a truth value, a number or text, or is made of such values by
lists and mappings. -/
def isRaw : Value → Bool
  | .scalar .null | .scalar (.flag _) | .scalar (.integer _) | .scalar (.real _)
  | .scalar (.text _) => true
  | .scalar _ => false
  | .list items => areRaw items
  | .map entries => entriesAreRaw entries
  | .tuple _ | .set _ | .back _ => false

def areRaw : List Value → Bool
  | [] => true
  | v :: vs => isRaw v && areRaw vs

def entriesAreRaw : List (Key × Value) → Bool
  | [] => true
  | (_, v) :: es => isRaw v && entriesAreRaw es

end

theorem areRaw_iff
    (items : List Value) :
    areRaw items = true ↔ ∀ v ∈ items, v.isRaw = true := by
  induction items with
  | nil => simp [areRaw]
  | cons v vs ih => simp [areRaw, ih]

theorem entriesAreRaw_iff
    (entries : List (Key × Value)) :
    entriesAreRaw entries = true ↔ ∀ e ∈ entries, e.2.isRaw = true := by
  induction entries with
  | nil => simp [entriesAreRaw]
  | cons e es ih =>
      obtain ⟨k, v⟩ := e
      simp only [entriesAreRaw, Bool.and_eq_true, ih, List.mem_cons, forall_eq_or_imp]

@[simp] theorem isRaw_list
    (items : List Value) :
    (Value.list items).isRaw = true ↔ ∀ v ∈ items, v.isRaw = true := by
  rw [isRaw, areRaw_iff]

@[simp] theorem isRaw_map
    (entries : List (Key × Value)) :
    (Value.map entries).isRaw = true ↔ ∀ e ∈ entries, e.2.isRaw = true := by
  rw [isRaw, entriesAreRaw_iff]

theorem isRaw_items
    {v : Value} (hraw : v.isRaw = true) {items : List Value} (hitems : v.items? = some items) :
    ∀ x ∈ items, x.isRaw = true := by
  cases v with
  | list xs =>
      cases hitems
      simpa using hraw
  | tuple xs => simp [Value.isRaw] at hraw
  | _ => cases hitems

theorem isPresent_of_items?
    {v : Value} {items : List Value} (hitems : v.items? = some items) :
    v.isPresent = true := by
  cases v <;> first | rfl | cases hitems

theorem eq_null_of_not_isPresent
    {v : Value} (habsent : ¬ v.isPresent = true) :
    v = .null := by
  unfold isPresent at habsent
  split at habsent
  · rfl
  · exact absurd rfl habsent

theorem eq_text_of_isText
    {v : Value} (htext : v.isText = true) :
    ∃ s, v = .text s := by
  unfold Value.isText at htext
  split at htext
  · exact ⟨_, rfl⟩
  · cases htext

theorem isPresent_of_isText
    {v : Value} (htext : v.isText = true) :
    v.isPresent = true := by
  obtain ⟨s, rfl⟩ := eq_text_of_isText htext
  rfl

theorem text?_eq_some_iff
    {v : Value} {s : String} :
    v.text? = some s ↔ v = .text s := by
  unfold text?
  split <;> simp_all

@[simp] theorem isRaw_text (s : String) : (Value.text s).isRaw = true := rfl

@[simp] theorem isRaw_flag (b : Bool) : (Value.flag b).isRaw = true := rfl

@[simp] theorem isRaw_integer (i : Int) : (Value.integer i).isRaw = true := rfl

@[simp] theorem isRaw_null : Value.null.isRaw = true := rfl

end Value

namespace Entries

theorem get?_mem
    {name : String} {entries : Entries} {v : Value}
    (hget : get? name entries = some v) :
    ∃ key, (key, v) ∈ entries ∧ key.text? = some name := by
  obtain ⟨e, hfind, rfl⟩ := Option.map_eq_some_iff.mp hget
  have hkey := List.find?_some hfind
  exact ⟨e.1, List.mem_of_find?_eq_some hfind, by simpa using hkey⟩

theorem getD_of_get?
    {name : String} {entries : Entries} {v : Value}
    (hget : get? name entries = some v) :
    entries.getD name = v := by
  simp [getD, hget]

theorem get?_of_isPresent
    {name : String} {entries : Entries}
    (hpresent : (entries.getD name).isPresent = true) :
    get? name entries = some (entries.getD name) := by
  cases hget : get? name entries with
  | none => simp [getD, hget, Value.isPresent] at hpresent
  | some v => simp [getD, hget]

theorem get?_append
    (name : String) (entries more : Entries) :
    get? name (entries ++ more) = (get? name entries).or (get? name more) := by
  simp only [get?, List.find?_append]
  cases List.find? (fun e => e.1.text? == some name) entries <;> simp

@[simp] theorem get?_nil (name : String) : get? name [] = none := rfl

theorem get?_named
    (name : String) (attributes : List (String × Value)) :
    get? name (named attributes) =
      (attributes.find? fun a => a.1 == name).map Prod.snd := by
  induction attributes with
  | nil => rfl
  | cons a rest ih =>
      by_cases hname : a.1 = name
      · simp [get?, named, Key.text?, hname]
      · simpa [get?, named, Key.text?, hname] using ih

theorem named_append
    (attributes more : List (String × Value)) :
    named (attributes ++ more) = named attributes ++ named more := by
  simp [named]

theorem get?_named_of_not_mem
    {name : String} {attributes : List (String × Value)}
    (hname : name ∉ attributes.map Prod.fst) :
    get? name (named attributes) = none := by
  rw [get?_named, Option.map_eq_none_iff, List.find?_eq_none]
  intro a ha hfound
  exact hname (List.mem_map.mpr ⟨a, ha, by simpa using hfound⟩)

theorem get?_named_of_mem
    {attributes : List (String × Value)} (hnodup : (attributes.map Prod.fst).Nodup)
    {x : String × Value} (hx : x ∈ attributes) :
    get? x.1 (named attributes) = some x.2 := by
  rw [get?_named, find?_fst_of_mem hnodup hx]
  rfl

theorem isRaw_getD
    {name : String} {entries : Entries}
    (hraw : ∀ e ∈ entries, e.2.isRaw = true) :
    (entries.getD name).isRaw = true := by
  cases hget : get? name entries with
  | none => simp [getD, hget]
  | some v =>
      obtain ⟨key, hmem, -⟩ := get?_mem hget
      simpa [getD, hget] using hraw _ hmem

/-! ## What is under a key -/

/-- All the keys are present. -/
def Has (keys : List String) (entries : Entries) : Prop :=
  ∀ key ∈ keys, (entries.getD key).isPresent = true

/-- A sequence of that kind is under the key, with at least one item. -/
def HasItems (key : String) (P : Value → Prop) (entries : Entries) : Prop :=
  ∃ first rest, (entries.getD key).items? = some (first :: rest) ∧
    ∀ v ∈ first :: rest, P v

/-- If there is something under the key, it is a sequence of that kind. -/
def MayHave (key : String) (P : Value → Prop) (entries : Entries) : Prop :=
  (entries.getD key).isPresent = true →
    ∃ items, (entries.getD key).items? = some items ∧ ∀ v ∈ items, P v

theorem MayHave.forall_items
    {key : String} {P : Value → Prop} {entries : Entries} (hmay : entries.MayHave key P)
    {items : List Value} (hitems : (entries.getD key).items? = some items) :
    ∀ v ∈ items, P v := by
  obtain ⟨others, hothers, hall⟩ := hmay (Value.isPresent_of_items? hitems)
  rw [hitems, Option.some.injEq] at hothers
  exact hothers ▸ hall

/-! ## Distinct names -/

section Distinct

variable {α : Type} {name : String} {x : α} {entries more : List (String × α)}

theorem mem_putNamed
    {e : String × α} (he : e ∈ putNamed name x entries) :
    e ∈ entries ∨ e = (name, x) := by
  induction entries with
  | nil => exact .inr (by simpa [putNamed] using he)
  | cons y ys ih =>
      unfold putNamed at he
      split_ifs at he with hname
      · rcases List.mem_cons.mp he with rfl | hmem
        · exact .inr rfl
        · exact .inl (List.mem_cons_of_mem _ hmem)
      · rcases List.mem_cons.mp he with rfl | hmem
        · exact .inl List.mem_cons_self
        · exact (ih hmem).imp_left (List.mem_cons_of_mem _)

theorem putNamed_of_not_mem
    (hname : name ∉ entries.map Prod.fst) :
    putNamed name x entries = entries ++ [(name, x)] := by
  induction entries with
  | nil => rfl
  | cons y ys ih =>
      simp only [List.map_cons, List.mem_cons, not_or] at hname
      have hne : (y.1 == name) = false := by simpa using Ne.symm hname.1
      simp [putNamed, hne, ih hname.2]

theorem map_fst_putNamed :
    (putNamed name x entries).map Prod.fst =
      if name ∈ entries.map Prod.fst then entries.map Prod.fst
      else entries.map Prod.fst ++ [name] := by
  induction entries with
  | nil => simp [putNamed]
  | cons y ys ih =>
      by_cases hname : y.1 = name
      · simp [putNamed, hname]
      · have hne : (y.1 == name) = false := by simpa using hname
        simp only [putNamed, hne, Bool.false_eq_true, if_false, List.map_cons, ih,
          List.mem_cons, Ne.symm hname, false_or]
        split_ifs <;> rfl

theorem nodup_putNamed
    (hentries : (entries.map Prod.fst).Nodup) :
    ((putNamed name x entries).map Prod.fst).Nodup := by
  rw [map_fst_putNamed]
  split_ifs with hmem
  · exact hentries
  · exact List.nodup_append.mpr
      ⟨hentries, List.nodup_singleton name, by
        intro a ha b hb
        rintro rfl
        exact hmem (List.mem_singleton.mp hb ▸ ha)⟩

theorem nodup_foldl_putNamed
    (hentries : (entries.map Prod.fst).Nodup) :
    ((more.foldl (fun es e => putNamed e.1 e.2 es) entries).map Prod.fst).Nodup := by
  induction more generalizing entries with
  | nil => exact hentries
  | cons y ys ih => exact ih (nodup_putNamed hentries)

theorem nodup_distinct : ((distinct entries).map Prod.fst).Nodup :=
  nodup_foldl_putNamed List.nodup_nil

theorem mem_foldl_putNamed
    {e : String × α} (he : e ∈ more.foldl (fun es e => putNamed e.1 e.2 es) entries) :
    e ∈ entries ∨ e ∈ more := by
  induction more generalizing entries with
  | nil => exact .inl he
  | cons y ys ih =>
      rcases ih he with hmem | hmem
      · rcases mem_putNamed hmem with hold | rfl
        · exact .inl hold
        · exact .inr List.mem_cons_self
      · exact .inr (List.mem_cons_of_mem _ hmem)

theorem mem_of_mem_distinct
    {e : String × α} (he : e ∈ distinct entries) :
    e ∈ entries :=
  (mem_foldl_putNamed he).resolve_left List.not_mem_nil

theorem foldl_putNamed_of_nodup
    (hnodup : ((entries ++ more).map Prod.fst).Nodup) :
    more.foldl (fun es e => putNamed e.1 e.2 es) entries = entries ++ more := by
  induction more generalizing entries with
  | nil => simp
  | cons y ys ih =>
      have hnot : y.1 ∉ entries.map Prod.fst := by
        rw [List.map_append, List.map_cons, List.nodup_middle] at hnodup
        intro hmem
        exact (List.nodup_cons.mp hnodup).1 (List.mem_append_left _ hmem)
      rw [List.foldl_cons, putNamed_of_not_mem hnot, ih (by simpa using hnodup)]
      simp

/-- Entries whose names are distinct already stay as they are. -/
theorem distinct_of_nodup
    (hnodup : (entries.map Prod.fst).Nodup) :
    distinct entries = entries :=
  foldl_putNamed_of_nodup (by simpa using hnodup)

end Distinct

end Entries

/-- A mapping of that kind. -/
def Value.IsMapOf (P : Entries → Prop) (v : Value) : Prop :=
  ∃ entries, v = .map entries ∧ P entries

end Wireframe
