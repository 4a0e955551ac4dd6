import Mathlib.Tactic
import Wireframe.Diagnostic
import Wireframe.Proofs.Trees
import Wireframe.Value.Measure

/-!
# Nodes of trees

A location leads to a node of a tree if each of its steps leads to a part of what the steps
before it lead to.  Into a mapping a step is the text of a key.  Where faults are followed, a
place may also be the number that a key is equal to, and steps that lead nowhere are left out.
-/

namespace Wireframe

namespace Step

/-- The step is the text of the key. -/
def Spells (step : Step) (key : Key) : Prop := step = .name key.render

/-- The step is the text of the key, or the key is equal to it. -/
def Meets (step : Step) (key : Key) : Prop := step.Spells key ∨ step.leadsTo key = true

theorem spells_of_text?
    {key : Key} {name : String} (htext : key.text? = some name) :
    (Step.name name).Spells key := by
  unfold Key.text? at htext
  split at htext
  · cases htext
    rfl
  · cases htext

end Step

namespace Value

/-- The part of a value that a step leads to. -/
inductive Child (fits : Step → Key → Prop) : Value → Step → Value → Prop
  | entry {entries : Entries} {key step v} (hmem : (key, v) ∈ entries) (hfits : fits step key) :
      Child fits (.map entries) step v
  | item {w items v} {i : Nat} (hitems : w.items? = some items) (hget : items[i]? = some v) :
      Child fits w (.place i) v

/-- The node of a tree that a location leads to. -/
inductive At (fits : Step → Key → Prop) : Value → Location → Value → Prop
  | root {v} : At fits v [] v
  | child {v step w l x} (hchild : Child fits v step w) (hat : At fits w l x) :
      At fits v (step :: l) x

variable {fits : Step → Key → Prop} {v w x : Value} {step : Step} {l : Location}

theorem Child.at (hchild : Child fits v step w) : v.At fits [step] w :=
  .child hchild .root

theorem At.append
    {more : Location} (hat : v.At fits l w) (hmore : w.At fits more x) :
    v.At fits (l ++ more) x := by
  induction hat with
  | root => exact hmore
  | child hchild _ ih => exact .child hchild (ih hmore)

theorem At.meets (hat : v.At Step.Spells l x) : v.At Step.Meets l x := by
  induction hat with
  | root => exact .root
  | child hchild _ ih =>
      refine .child ?_ ih
      cases hchild with
      | entry hmem hspells => exact .entry hmem (.inl hspells)
      | item hitems hget => exact .item hitems hget

theorem child_of_get?
    {entries : Entries} {name : String} (hget : Entries.get? name entries = some v) :
    Child Step.Spells (.map entries) (.name name) v := by
  obtain ⟨key, hmem, htext⟩ := Entries.get?_mem hget
  exact .entry hmem (Step.spells_of_text? htext)

theorem child_of_isPresent
    {entries : Entries} {name : String} (hpresent : (entries.getD name).isPresent = true) :
    Child Step.Spells (.map entries) (.name name) (entries.getD name) :=
  child_of_get? (Entries.get?_of_isPresent hpresent)

theorem child_of_child? (hchild : v.child? step = some w) : Child Step.Meets v step w := by
  have hitem {items : List Value} (hitems : v.items? = some items) {i : Int}
      (hfound : (if 0 ≤ i then items[i.toNat]? else none) = some w) :
      Child Step.Meets v (.place i) w := by
    split_ifs at hfound with hi
    obtain ⟨n, rfl⟩ := Int.eq_ofNat_of_zero_le hi
    exact .item hitems hfound
  cases v with
  | map entries =>
      obtain ⟨e, hfind, rfl⟩ := Option.map_eq_some_iff.mp hchild
      have hleads : step.leadsTo e.1 = true := by simpa using List.find?_some hfind
      exact .entry (List.mem_of_find?_eq_some hfind) (.inr hleads)
  | list items =>
      cases step with
      | place i => exact hitem rfl hchild
      | _ => cases hchild
  | tuple items =>
      cases step with
      | place i => exact hitem rfl hchild
      | _ => cases hchild
  | _ => cases hchild

/-! ## Parts of containers -/

/-- A mapping, a list or a tuple. -/
def IsContainer (v : Value) : Prop := v.isMap = true ∨ v.isSequence = true

theorem Child.isContainer (hchild : Child fits v step w) : v.IsContainer := by
  cases hchild with
  | entry => exact .inl rfl
  | item hitems => exact .inr (by rw [isSequence, hitems]; rfl)

/-- The parts of a container in written order, none of a value that is no container. -/
def parts (v : Value) : List (Step × Value) := v.parts?.getD []

theorem parts?_eq_none_iff : v.parts? = none ↔ ¬ v.IsContainer := by
  cases v with
  | list items => exact iff_of_false nofun (not_not_intro (.inr rfl))
  | tuple items => exact iff_of_false nofun (not_not_intro (.inr rfl))
  | map entries => exact iff_of_false nofun (not_not_intro (.inl rfl))
  | _ => exact iff_of_true rfl fun hcontainer => hcontainer.elim nofun nofun

theorem IsContainer.parts?_eq (hcontainer : v.IsContainer) : v.parts? = some v.parts := by
  have hsome : v.parts? ≠ none := fun hnone => parts?_eq_none_iff.mp hnone hcontainer
  obtain ⟨parts, hparts⟩ := Option.ne_none_iff_exists'.mp hsome
  rw [Value.parts, hparts, Option.getD_some]

theorem child_iff_mem_parts : Child Step.Spells v step w ↔ (step, w) ∈ v.parts := by
  have hitem {v : Value} {items : List Value} (hitems : v.items? = some items)
      (hmem : (step, w) ∈ (list items).parts) : Child Step.Spells v step w := by
    obtain ⟨⟨x, i⟩, hx, heq⟩ := List.mem_map.mp hmem
    cases heq
    exact .item hitems (List.mk_mem_zipIdx_iff_getElem?.mp hx)
  constructor
  · intro hchild
    cases hchild with
    | @entry entries key _ _ hmem hfits =>
        cases hfits
        exact List.mem_map.mpr ⟨(key, w), hmem, rfl⟩
    | @item _ items _ i hitems hget =>
        have hmem : (Step.place i, w) ∈ (list items).parts :=
          List.mem_map.mpr ⟨(w, i), List.mk_mem_zipIdx_iff_getElem?.mpr hget, rfl⟩
        cases v with
        | list xs =>
            cases hitems
            exact hmem
        | tuple xs =>
            cases hitems
            exact hmem
        | _ => cases hitems
  · intro hmem
    cases v with
    | map entries =>
        obtain ⟨e, he, heq⟩ := List.mem_map.mp hmem
        cases heq
        exact .entry he rfl
    | list items => exact hitem rfl hmem
    | tuple items => exact hitem rfl hmem
    | _ => cases hmem

theorem snd_mem_children {part : Step × Value} (hpart : part ∈ v.parts) : part.2 ∈ v.children := by
  have hcontainer := (child_iff_mem_parts.mpr hpart).isContainer
  rw [← map_snd_parts? hcontainer.parts?_eq]
  exact List.mem_map_of_mem hpart

theorem map_snd_parts (v : Value) : v.parts.map Prod.snd = v.children := by
  cases hparts : v.parts? with
  | none => cases v <;> first | cases hparts; done | simp [parts, parts?, children]
  | some found => rw [parts, hparts, Option.getD_some, map_snd_parts? hparts]

/-- What holds of a value if it holds of the values directly below holds of every value. -/
theorem inductionOnChildren
    {motive : Value → Prop} (hchildren : ∀ v, (∀ w ∈ v.children, motive w) → motive v)
    (v : Value) : motive v := by
  induction v using Value.inductionOn with
  | list items ih => exact hchildren _ ih
  | tuple items ih => exact hchildren _ ih
  | map entries ih => exact hchildren _ (List.forall_mem_map.mpr ih)
  | _ => exact hchildren _ nofun

/-! ## All locations of a tree -/

mutual

/-- The locations of the nodes of a tree, where steps into mappings are texts of keys. -/
def locations : Value → List Location
  | list items => [] :: locationsOfItems items 0
  | tuple items => [] :: locationsOfItems items 0
  | map entries => [] :: locationsOfEntries entries
  | _ => [[]]

def locationsOfItems : List Value → (place : Nat) → List Location
  | [], _ => []
  | v :: vs, place => v.locations.map (.place place :: ·) ++ locationsOfItems vs (place + 1)

def locationsOfEntries : List (Key × Value) → List Location
  | [] => []
  | (key, v) :: es => v.locations.map (.name key.render :: ·) ++ locationsOfEntries es

end

theorem nil_mem_locations (v : Value) : [] ∈ v.locations := by
  cases v <;> exact List.mem_cons_self

theorem mem_locationsOfItems
    {items : List Value} {i : Nat} (hget : items[i]? = some v) (hl : l ∈ v.locations)
    (place : Nat) :
    .place (place + i : Nat) :: l ∈ locationsOfItems items place := by
  induction items generalizing i place with
  | nil => cases hget
  | cons w rest ih =>
      unfold locationsOfItems
      cases i with
      | zero =>
          cases hget
          exact List.mem_append_left _ (List.mem_map_of_mem hl)
      | succ i =>
          have hrest := ih hget (place + 1)
          rw [show place + 1 + i = place + (i + 1) by omega] at hrest
          exact List.mem_append_right _ hrest

theorem mem_locationsOfEntries
    {entries : Entries} {key : Key} (hmem : (key, v) ∈ entries) (hl : l ∈ v.locations) :
    .name key.render :: l ∈ locationsOfEntries entries := by
  induction entries with
  | nil => cases hmem
  | cons e rest ih =>
      unfold locationsOfEntries
      rcases List.mem_cons.mp hmem with rfl | hrest
      · exact List.mem_append_left _ (List.mem_map_of_mem hl)
      · exact List.mem_append_right _ (ih hrest)

theorem mem_locations_of_at (hat : v.At Step.Spells l x) : l ∈ v.locations := by
  induction hat with
  | root => exact nil_mem_locations _
  | @child v step w l x hchild _ ih =>
      cases hchild with
      | entry hmem hspells =>
          cases hspells
          exact List.mem_cons_of_mem _ (mem_locationsOfEntries hmem ih)
      | @item _ items _ i hitems hget =>
          have hmem := mem_locationsOfItems hget ih 0
          rw [Nat.zero_add] at hmem
          cases v with
          | list xs =>
              cases hitems
              exact List.mem_cons_of_mem _ hmem
          | tuple xs =>
              cases hitems
              exact List.mem_cons_of_mem _ hmem
          | _ => cases hitems

/-! ## What a location is followed to -/

/-- The node that steps lead to one after the other, if all of them lead somewhere. -/
def descend? (v : Value) : Location → Option Value
  | [] => some v
  | step :: l => (v.child? step).bind fun w => w.descend? l

theorem descend?_name
    {entries : Entries} {name : String} (hget : Entries.get? name entries = some w) (l : Location) :
    (Value.map entries).descend? (.name name :: l) = w.descend? l := by
  have hchild : (Value.map entries).child? (.name name) = some w := hget
  rw [descend?, hchild]
  rfl

theorem child?_place {items : List Value} {i : Nat} (hget : items[i]? = some w) :
    (Value.list items).child? (.place i) = some w := by
  simp [child?, hget]

theorem descend?_place
    {items : List Value} {i : Nat} (hget : items[i]? = some w) (l : Location) :
    (Value.list items).descend? (.place i :: l) = w.descend? l := by
  rw [descend?, child?_place hget]
  rfl

theorem at_of_descend?
    {l : Location} (hdescend : v.descend? l = some x) :
    v.At Step.Meets l x := by
  induction l generalizing v with
  | nil =>
      cases hdescend
      exact .root
  | cons step l ih =>
      obtain ⟨w, hchild, hrest⟩ := Option.bind_eq_some_iff.mp hdescend
      exact .child (child_of_child? hchild) (ih hrest)

/-- The steps of a location that lead somewhere when it is followed. -/
def trail (v : Value) (l : Location) : Location := (Fault.follow v none l).1

theorem fst_follow
    (v : Value) (missing : Option Step) (l : Location) :
    (Fault.follow v missing l).1 = v.trail l := by
  -- What was missing before is only told, and it changes no step.
  suffices hany : ∀ some other, (Fault.follow v some l).1 = (Fault.follow v other l).1 from
    hany missing none
  intro some other
  induction l generalizing v some other with
  | nil => rfl
  | cons step l ih =>
      unfold Fault.follow
      cases v.child? step with
      | some child => exact congrArg (step :: ·) (ih child _ _)
      | none => exact ih v _ _

theorem trail_cons (hchild : v.child? step = some w) (l : Location) :
    v.trail (step :: l) = step :: w.trail l := by
  unfold trail
  rw [Fault.follow, hchild]

theorem trail_cons_of_none (hchild : v.child? step = none) (l : Location) :
    v.trail (step :: l) = v.trail l := by
  rw [trail, Fault.follow, hchild]
  exact fst_follow v _ l

theorem trail_append
    {here : Location} (hdescend : v.descend? here = some w) (l : Location) :
    v.trail (here ++ l) = here ++ w.trail l := by
  induction here generalizing v with
  | nil =>
      cases hdescend
      rfl
  | cons step here ih =>
      obtain ⟨u, hchild, hrest⟩ := Option.bind_eq_some_iff.mp hdescend
      rw [List.cons_append, trail_cons hchild, ih hrest, List.cons_append]

/-- A location is always followed to a node. -/
theorem exists_at_trail (v : Value) (l : Location) : ∃ x, v.At Step.Meets (v.trail l) x := by
  induction l generalizing v with
  | nil => exact ⟨v, .root⟩
  | cons step l ih =>
      cases hchild : v.child? step with
      | some w =>
          obtain ⟨x, hx⟩ := ih w
          rw [trail_cons hchild]
          exact ⟨x, .child (child_of_child? hchild) hx⟩
      | none =>
          rw [trail_cons_of_none hchild]
          exact ih v

/-! ## Stray steps -/

/-- A location that leads to a node, and the same location with steps put in.  Each of these leads
nowhere from the node that is reached where it stands. -/
inductive Padded : Value → Location → Location → Prop
  | done (v : Value) : Padded v [] []
  | step {v step w l padded} (hchild : v.child? step = some w) (hrest : Padded w l padded) :
      Padded v (step :: l) (step :: padded)
  | stray {v step l padded} (hnone : v.child? step = none) (hrest : Padded v l padded) :
      Padded v l (step :: padded)

variable {padded : Location}

theorem Padded.sublist (hpadded : Padded v l padded) : l.Sublist padded := by
  induction hpadded with
  | done => exact .slnil
  | step _ _ ih => exact ih.cons_cons _
  | stray _ _ ih => exact ih.cons _

theorem Padded.exists_descend? (hpadded : Padded v l padded) : ∃ x, v.descend? l = some x := by
  induction hpadded with
  | done v => exact ⟨v, rfl⟩
  | step hchild _ ih =>
      obtain ⟨x, hx⟩ := ih
      exact ⟨x, by rw [descend?, hchild, Option.bind_some, hx]⟩
  | stray _ _ ih => exact ih

theorem padded_of_descend? (hdescend : v.descend? l = some x) : Padded v l l := by
  induction l generalizing v with
  | nil => exact .done v
  | cons step l ih =>
      obtain ⟨w, hchild, hrest⟩ := Option.bind_eq_some_iff.mp hdescend
      exact .step hchild (ih hrest)

/-- The steps that are kept when a location is followed are those of the one location that it
pads. -/
theorem padded_iff : Padded v l padded ↔ v.trail padded = l := by
  constructor
  · intro hpadded
    induction hpadded with
    | done => rfl
    | step hchild _ ih => rw [trail_cons hchild, ih]
    | stray hnone _ ih => rw [trail_cons_of_none hnone, ih]
  · rintro rfl
    induction padded generalizing v with
    | nil => exact .done v
    | cons step padded ih =>
        cases hchild : v.child? step with
        | some w =>
            rw [trail_cons hchild]
            exact .step hchild ih
        | none =>
            rw [trail_cons_of_none hchild]
            exact .stray hchild ih

end Value

/-! ## Paths of faults -/

theorem Fault.path_diagnose (tree : Value) (f : Fault) :
    (f.diagnose tree).path = (tree.trail f.location).render := rfl

/-- The path of a fault has some of the steps of its location, in order, and they lead to a node of
the tree one after the other.  It has all of them if the location itself leads to a node, and
steps that lead nowhere do not change it, wherever they are put in. -/
theorem Fault.path_leads_to_node (tree : Value) (f : Fault) :
    (∃ kept node, kept.Sublist f.location ∧ tree.descend? kept = some node ∧
      (f.diagnose tree).path = kept.render) ∧
      (∀ node, tree.descend? f.location = some node →
        (f.diagnose tree).path = f.location.render) ∧
      ∀ l node padded, tree.descend? l = some node → tree.Padded l padded → ∀ cause,
        ((Fault.mk padded cause).diagnose tree).path = l.render ∧
          ((Fault.mk padded cause).diagnose tree).path =
            ((Fault.mk l cause).diagnose tree).path := by
  refine ⟨?_, fun node hnode => ?_, fun l node padded hnode hpadded cause => ?_⟩
  · have hkept : tree.Padded (tree.trail f.location) f.location := Value.padded_iff.mpr rfl
    obtain ⟨node, hnode⟩ := hkept.exists_descend?
    exact ⟨_, node, hkept.sublist, hnode, path_diagnose tree f⟩
  · rw [path_diagnose, Value.padded_iff.mp (Value.padded_of_descend? hnode)]
  · have hself := Value.padded_of_descend? hnode
    simp only [path_diagnose, Value.padded_iff.mp hpadded, Value.padded_iff.mp hself, and_self]

/-- A tree with a list of one mapping, whose keys are a text and a number. -/
def numberedRow : Value :=
  .map [(.text "rows", .list [.map [(.scalar (.integer 2), .flag true), (.text "tabs", .null)]])]

/-- The location goes through a key that is a number.  Among its steps are a name that is a key
further down, a place beyond the list and a place in a mapping. -/
theorem Fault.path_leads_to_node_numberedRow :
    numberedRow.descend? [.name "rows", .place 0, .place 2] = some (.flag true) ∧
      numberedRow.Padded [.name "rows", .place 0, .place 2]
        [.name "tabs", .name "rows", .place 1, .place (-1), .place 0, .place 0, .place 2] ∧
      ((Fault.mk
          [.name "tabs", .name "rows", .place 1, .place (-1), .place 0, .place 0, .place 2]
          .notFlag).diagnose numberedRow).path =
        Location.render [.name "rows", .place 0, .place 2] := by
  have hnode :
      numberedRow.descend? [.name "rows", .place 0, .place 2] = some (.flag true) := rfl
  have hpadded : numberedRow.Padded [.name "rows", .place 0, .place 2]
      [.name "tabs", .name "rows", .place 1, .place (-1), .place 0, .place 0, .place 2] :=
    .stray rfl (.step rfl (.stray rfl (.stray rfl (.step rfl (.stray rfl (.step rfl (.done _)))))))
  exact ⟨hnode, hpadded,
    ((path_leads_to_node numberedRow ⟨[], .notFlag⟩).2.2 _ _ _ hnode hpadded .notFlag).1⟩

end Wireframe
