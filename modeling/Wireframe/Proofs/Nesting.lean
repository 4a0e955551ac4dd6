import Mathlib.Tactic
import Wireframe.Proofs.WrittenValues
import Wireframe.Value.Measure

/-!
# Nesting of containers

A place in a tree is told by numbers: the number of a part of the root, then that of a part of
this part, and so on.  The lexicographic order of places is the order of the document, where a
container comes before what is in it.  As many containers are around a container as its place has
numbers, so a container is too deep if its place has no fewer numbers than the limit, and the
first of them has exactly as many.

The search for it keeps a stack.  What is at the end of the stack is searched before what is below,
and the parts of a container are put there in reverse, so a container is searched as if its parts
were searched one after the other.
-/

namespace Wireframe

namespace Value

/-! ## Places -/

/-- What is found at a place, with its location. -/
def node? : Value → (place : List Nat) → Option (Location × Value)
  | v, [] => some ([], v)
  | v, i :: place =>
    v.parts[i]?.bind fun part => (part.2.node? place).map fun n => (part.1 :: n.1, n.2)

/-- At the place is a mapping, a list or a tuple. -/
def IsContainerAt (tree : Value) (place : List Nat) : Prop :=
  ∃ l x, tree.node? place = some (l, x) ∧ x.IsContainer

/-- Places of containers of a tree, each of them inside the one before it. -/
structure IsNest (tree : Value) (chain : List (List Nat)) : Prop where
  containers : ∀ place ∈ chain, tree.IsContainerAt place
  nested : chain.IsChain fun outer inner => outer <+: inner ∧ outer ≠ inner

variable {v w x tree : Value} {step : Step} {l here found : Location} {place : List Nat}
  {limit : Int}

theorem node?_cons_eq_some_iff {i : Nat} :
    v.node? (i :: place) = some (l, x) ↔
      ∃ part m, v.parts[i]? = some part ∧ part.2.node? place = some (m, x) ∧
        l = part.1 :: m := by
  rw [node?, Option.bind_eq_some_iff]
  simp only [Option.map_eq_some_iff, Prod.exists, Prod.mk.injEq]
  constructor
  · rintro ⟨step, w, hpart, m, y, hnode, rfl, rfl⟩
    exact ⟨step, w, m, hpart, hnode, rfl⟩
  · rintro ⟨step, w, m, hpart, hnode, rfl⟩
    exact ⟨step, w, hpart, m, x, hnode, rfl, rfl⟩

/-- A location leads to what is found at some place. -/
theorem at_iff_exists_node? : v.At Step.Spells l x ↔ ∃ place, v.node? place = some (l, x) := by
  constructor
  · intro hat
    induction hat with
    | root => exact ⟨[], rfl⟩
    | child hchild _ ih =>
        obtain ⟨place, hnode⟩ := ih
        obtain ⟨i, hpart⟩ := List.mem_iff_getElem?.mp (child_iff_mem_parts.mp hchild)
        exact ⟨i :: place, node?_cons_eq_some_iff.mpr ⟨_, _, hpart, hnode, rfl⟩⟩
  · rintro ⟨place, hnode⟩
    induction place generalizing v l with
    | nil =>
        cases hnode
        exact .root
    | cons i place ih =>
        obtain ⟨part, m, hpart, hrest, rfl⟩ := node?_cons_eq_some_iff.mp hnode
        exact .child (child_iff_mem_parts.mpr (List.mem_of_getElem? hpart)) (ih hrest)

theorem length_of_node? (hnode : v.node? place = some (l, x)) : l.length = place.length := by
  induction place generalizing v l with
  | nil =>
      cases hnode
      rfl
  | cons i place ih =>
      obtain ⟨part, m, -, hrest, rfl⟩ := node?_cons_eq_some_iff.mp hnode
      rw [List.length_cons, List.length_cons, ih hrest]

theorem isContainerAt_nil_iff : v.IsContainerAt [] ↔ v.IsContainer := by
  constructor
  · rintro ⟨l, x, hnode, hx⟩
    cases hnode
    exact hx
  · exact fun hv => ⟨[], v, rfl, hv⟩

theorem isContainerAt_cons_iff {i : Nat} :
    v.IsContainerAt (i :: place) ↔
      ∃ part, v.parts[i]? = some part ∧ part.2.IsContainerAt place := by
  constructor
  · rintro ⟨l, x, hnode, hx⟩
    obtain ⟨part, m, hpart, hrest, -⟩ := node?_cons_eq_some_iff.mp hnode
    exact ⟨part, hpart, m, x, hrest, hx⟩
  · rintro ⟨part, hpart, m, x, hrest, hx⟩
    exact ⟨_, x, node?_cons_eq_some_iff.mpr ⟨part, m, hpart, hrest, rfl⟩, hx⟩

theorem IsContainerAt.isContainer (hplace : tree.IsContainerAt place) : tree.IsContainer := by
  cases place with
  | nil => exact isContainerAt_nil_iff.mp hplace
  | cons i place =>
      obtain ⟨part, hpart, -⟩ := isContainerAt_cons_iff.mp hplace
      exact (child_iff_mem_parts.mpr (List.mem_of_getElem? hpart)).isContainer

/-- What holds of how deep the containers in a container are holds of the container itself and,
one deeper, of those in its parts. -/
theorem IsContainer.forall_length_iff (hcontainer : v.IsContainer) (p : Nat → Prop) :
    (∀ place, v.IsContainerAt place → p place.length) ↔
      p 0 ∧ ∀ part ∈ v.parts, ∀ place, part.2.IsContainerAt place → p (place.length + 1) := by
  constructor
  · intro hall
    refine ⟨hall [] (isContainerAt_nil_iff.mpr hcontainer), fun part hpart place hin => ?_⟩
    obtain ⟨i, hget⟩ := List.mem_iff_getElem?.mp hpart
    exact hall (i :: place) (isContainerAt_cons_iff.mpr ⟨part, hget, hin⟩)
  · rintro ⟨hroot, hparts⟩ (_ | ⟨i, place⟩) hplace
    · exact hroot
    · obtain ⟨part, hget, hin⟩ := isContainerAt_cons_iff.mp hplace
      exact hparts part (List.mem_of_getElem? hget) place hin

/-- Whatever is around a container is a container. -/
theorem IsContainerAt.of_prefix
    {outer : List Nat} (hplace : tree.IsContainerAt place) (hbegins : outer <+: place) :
    tree.IsContainerAt outer := by
  induction outer generalizing tree place with
  | nil => exact isContainerAt_nil_iff.mpr hplace.isContainer
  | cons i outer ih =>
      obtain ⟨inner, rfl⟩ := hbegins
      obtain ⟨part, hpart, hrest⟩ := isContainerAt_cons_iff.mp hplace
      exact isContainerAt_cons_iff.mpr ⟨part, hpart, ih hrest (List.prefix_append outer inner)⟩

/-! ## Chains of containers -/

/-- Going down a chain by some containers makes the place at least as many numbers longer. -/
theorem length_add_le_of_isChain
    {outer : List Nat} {chain : List (List Nat)}
    (hchain : (outer :: chain).IsChain fun outer inner => outer <+: inner ∧ outer ≠ inner)
    {n : Nat} (hn : (outer :: chain)[n]? = some place) :
    outer.length + n ≤ place.length := by
  induction chain generalizing outer n with
  | nil =>
      obtain ⟨hlt, rfl⟩ := List.getElem?_eq_some_iff.mp hn
      have hzero : n = 0 := by simpa using hlt
      subst hzero
      exact Nat.le_refl _
  | cons inner chain ih =>
      obtain ⟨⟨hbegins, hne⟩, hrest⟩ := List.isChain_cons_cons.mp hchain
      have hlt : outer.length < inner.length :=
        Nat.lt_of_le_of_ne hbegins.length_le fun h => hne (hbegins.eq_of_length h)
      cases n with
      | zero =>
          cases hn
          exact Nat.le_refl _
      | succ n =>
          have hbelow := ih hrest hn
          omega

/-- The places on the way to a place, from the one that is so many numbers shorter. -/
def wayTo (place : List Nat) (n : Nat) : List (List Nat) :=
  (List.range (n + 1)).map fun i => place.take (place.length - n + i)

theorem isNest_wayTo
    (hplace : tree.IsContainerAt place) {n : Nat} (hn : n ≤ place.length) :
    tree.IsNest (wayTo place n) where
  containers := by
    simp only [wayTo, List.forall_mem_map]
    exact fun i _ => hplace.of_prefix (List.take_prefix _ _)
  nested := by
    rw [wayTo, List.isChain_map, List.isChain_iff_getElem]
    intro i hi
    rw [List.length_range] at hi
    simp only [List.getElem_range]
    constructor
    · exact List.take_prefix_take_left (by omega)
    · intro heq
      have hlength := congrArg List.length heq
      simp only [List.length_take] at hlength
      omega

/-- A container is a certain one of a chain of containers if at least as many numbers lead to it
as there are containers before it in the chain. -/
theorem exists_isNest_iff {n : Nat} :
    (∃ chain, tree.IsNest chain ∧ chain[n]? = some place) ↔
      tree.IsContainerAt place ∧ n ≤ place.length := by
  constructor
  · rintro ⟨chain, hnest, hn⟩
    refine ⟨hnest.containers place (List.mem_of_getElem? hn), ?_⟩
    cases chain with
    | nil => cases hn
    | cons outer chain =>
        have hlength := length_add_le_of_isChain hnest.nested hn
        omega
  · rintro ⟨hplace, hn⟩
    refine ⟨wayTo place n, isNest_wayTo hplace hn, ?_⟩
    rw [wayTo, List.getElem?_map, List.getElem?_range (Nat.lt_succ_self n), Option.map_some,
      Nat.sub_add_cancel hn, List.take_length]

/-- No chain of containers is longer than a number if no container is at a place of as many
numbers. -/
theorem forall_isNest_iff {n : Nat} :
    (∀ chain, tree.IsNest chain → chain.length ≤ n) ↔
      ∀ place, tree.IsContainerAt place → place.length < n := by
  constructor
  · intro hchains place hplace
    by_contra hlength
    obtain ⟨chain, hnest, hn⟩ := exists_isNest_iff.mpr ⟨hplace, Nat.le_of_not_lt hlength⟩
    have hlt := (List.getElem?_eq_some_iff.mp hn).1
    exact absurd (hchains chain hnest) (Nat.not_le_of_lt hlt)
  · intro hplaces chain hnest
    by_contra hlength
    have hn := List.getElem?_eq_getElem (Nat.lt_of_not_le hlength)
    obtain ⟨hplace, hle⟩ := exists_isNest_iff.mp ⟨chain, hnest, hn⟩
    exact absurd (hplaces _ hplace) (Nat.not_lt_of_le hle)

/-! ## Trees whose nodes can be located -/

/-- The steps to all nodes of the tree can be written. -/
def IsLocatable (v : Value) : Prop := ∀ l x, v.At Step.Spells l x → x.hasStepTexts = true

theorem isLocatable_iff :
    v.IsLocatable ↔ v.hasStepTexts = true ∧ ∀ part ∈ v.parts, part.2.IsLocatable := by
  constructor
  · intro hall
    exact ⟨hall [] v .root, fun part hpart l x hat =>
      hall _ x (.child (child_iff_mem_parts.mpr hpart) hat)⟩
  · rintro ⟨hroot, hparts⟩ l x hat
    cases hat with
    | root => exact hroot
    | child hchild hat => exact hparts _ (child_iff_mem_parts.mp hchild) _ x hat

theorem isLocatable_iff_children :
    v.IsLocatable ↔ v.hasStepTexts = true ∧ ∀ x ∈ v.children, x.IsLocatable := by
  rw [isLocatable_iff, ← map_snd_parts, List.forall_mem_map]

theorem isLocatable_of_hasText (htext : v.hasText = true) : v.IsLocatable :=
  fun _ _ hat => hasStepTexts_of_hasText (hasText_of_at htext hat)

theorem isLocatable_of_not_isContainer (hleaf : ¬ v.IsContainer) : v.IsLocatable := by
  refine isLocatable_iff.mpr ⟨?_, fun part hpart => ?_⟩
  · cases v with
    | map entries => exact absurd (.inl rfl) hleaf
    | _ => rfl
  · exact absurd (child_iff_mem_parts.mpr hpart).isContainer hleaf

/-! ## The first item where something is found -/

section Items

variable {α β ε : Type} {f : α → Except ε (Option β)} {items : List α}

theorem findSomeM?_eq_ok_none_iff :
    items.findSomeM? f = .ok none ↔ ∀ a ∈ items, f a = .ok none := by
  induction items with
  | nil => exact iff_of_true rfl nofun
  | cons a rest ih =>
      rw [List.findSomeM?_cons, List.forall_mem_cons, ← ih]
      cases f a with
      | error e => simp [bind, Except.bind]
      | ok found => cases found <;> simp [bind, Except.bind, pure, Except.pure]

theorem exists_of_findSomeM?_eq_some {b : β} (hfound : items.findSomeM? f = .ok (some b)) :
    ∃ before a after, items = before ++ a :: after ∧ f a = .ok (some b) ∧
      ∀ x ∈ before, f x = .ok none := by
  induction items with
  | nil => cases hfound
  | cons a rest ih =>
      rw [List.findSomeM?_cons] at hfound
      cases ha : f a with
      | error e =>
          rw [ha] at hfound
          cases hfound
      | ok found =>
          rw [ha] at hfound
          cases found with
          | some c =>
              cases hfound
              exact ⟨[], a, rest, rfl, ha, nofun⟩
          | none =>
              obtain ⟨before, x, after, rfl, hx, hbefore⟩ := ih hfound
              exact ⟨a :: before, x, after, rfl, hx, List.forall_mem_cons.mpr ⟨ha, hbefore⟩⟩

theorem exists_of_findSomeM?_eq_error {e : ε} (hfail : items.findSomeM? f = .error e) :
    ∃ a ∈ items, f a = .error e := by
  induction items with
  | nil => cases hfail
  | cons a rest ih =>
      rw [List.findSomeM?_cons] at hfail
      cases ha : f a with
      | error d =>
          rw [ha] at hfail
          cases hfail
          exact ⟨a, List.mem_cons_self, ha⟩
      | ok found =>
          rw [ha] at hfail
          cases found with
          | some c => cases hfail
          | none =>
              obtain ⟨x, hx, hfx⟩ := ih hfail
              exact ⟨x, List.mem_cons_of_mem _ hx, hfx⟩

end Items

/-! ## Searching for containers that are too deep -/

/-- What is found in a value that is searched alone. -/
def tooDeep? (limit : Int) (v : Value) (here : Location) : Except NoText (Option Location) :=
  searchStack limit #[(v, here)]

theorem depthExcess?_eq : tree.depthExcess? limit = tree.tooDeep? limit [] := rfl

section Stacks

variable {stack below : Array (Value × Location)}

theorem searchStack_push_leaf (hleaf : v.parts? = none) :
    searchStack limit (stack.push (v, here)) = searchStack limit stack := by
  rw [searchStack]
  split
  next hback => simp at hback
  next hback =>
    cases Array.back?_push.symm.trans hback
    split
    next => simp only [Array.pop_push]
    next hparts => cases hleaf.symm.trans hparts

theorem searchStack_push {parts : List (Step × Value)} (hparts : v.parts? = some parts) :
    searchStack limit (stack.push (v, here)) =
      if !v.hasStepTexts then .error .longInteger
      else if limit ≤ here.length then .ok (some here)
      else searchStack limit
        (stack ++ (parts.map fun part => (part.2, here ++ [part.1])).reverse.toArray) := by
  rw [searchStack]
  split
  next hback => simp at hback
  next hback =>
    cases Array.back?_push.symm.trans hback
    split
    next hnone => cases hnone.symm.trans hparts
    next hsome =>
      cases hsome.symm.trans hparts
      simp only [Array.pop_push]

/-- What is at the end of a stack is searched before what is below. -/
theorem searchStack_append :
    searchStack limit (below ++ stack) = (do
      match ← searchStack limit stack with
      | some found => pure (some found)
      | none => searchStack limit below) := by
  fun_induction searchStack limit stack with
  | case1 stack hback =>
      obtain rfl := Array.back?_eq_none_iff.mp hback
      rw [Array.append_empty]
      rfl
  | case2 stack v here hback hleaf _ ih =>
      obtain ⟨above, rfl⟩ := Array.back?_eq_some_iff.mp hback
      rw [Array.pop_push] at ih
      rw [Array.append_push, searchStack_push_leaf hleaf, ih, Array.pop_push]
  | case3 stack v here hback parts hparts _ htexts =>
      obtain ⟨above, rfl⟩ := Array.back?_eq_some_iff.mp hback
      rw [Array.append_push, searchStack_push hparts, if_pos htexts]
      rfl
  | case4 stack v here hback parts hparts _ htexts hdeep =>
      obtain ⟨above, rfl⟩ := Array.back?_eq_some_iff.mp hback
      rw [Array.append_push, searchStack_push hparts, if_neg htexts, if_pos hdeep]
      rfl
  | case5 stack v here hback parts hparts _ htexts hdeep ih =>
      obtain ⟨above, rfl⟩ := Array.back?_eq_some_iff.mp hback
      rw [Array.append_push, searchStack_push hparts, if_neg htexts, if_neg hdeep]
      rw [Array.pop_push] at ih ⊢
      rw [← ih, Array.append_assoc]

/-- Stacks are searched from their end. -/
theorem searchStack_reverse {α : Type} (entry : α → Value × Location) (items : List α) :
    searchStack limit (items.map entry).reverse.toArray =
      items.findSomeM? fun a => (entry a).1.tooDeep? limit (entry a).2 := by
  induction items with
  | nil => rfl
  | cons a rest ih =>
      have hfirst : searchStack limit [entry a].toArray = (entry a).1.tooDeep? limit (entry a).2 :=
        rfl
      rw [List.map_cons, List.reverse_cons, ← List.append_toArray, searchStack_append, ih, hfirst,
        List.findSomeM?_cons]
      exact bind_congr fun found => by cases found <;> rfl

/-- A container is too deep itself, or the first of its parts is that has anything too deep,
unless a step to be taken before cannot be written. -/
theorem IsContainer.tooDeep?_eq (hcontainer : v.IsContainer) :
    v.tooDeep? limit here =
      if !v.hasStepTexts then .error .longInteger
      else if limit ≤ here.length then .ok (some here)
      else v.parts.findSomeM? fun part => part.2.tooDeep? limit (here ++ [part.1]) := by
  have hstack : v.tooDeep? limit here = searchStack limit (#[].push (v, here)) := rfl
  rw [hstack, searchStack_push hcontainer.parts?_eq, Array.empty_append, searchStack_reverse]

theorem tooDeep?_of_not_isContainer (hleaf : ¬ v.IsContainer) :
    v.tooDeep? limit here = .ok none := by
  have hstack : v.tooDeep? limit here = searchStack limit (#[].push (v, here)) := rfl
  rw [hstack, searchStack_push_leaf (parts?_eq_none_iff.mpr hleaf)]
  rfl

end Stacks

theorem tooDeep?_eq_none_iff_place :
    v.tooDeep? limit here = .ok none ↔ v.IsLocatable ∧
      ∀ place, v.IsContainerAt place → (here.length + place.length : Int) < limit := by
  induction v using inductionOnChildren generalizing here with
  | hchildren v ih =>
      by_cases hcontainer : v.IsContainer
      · rw [hcontainer.tooDeep?_eq, isLocatable_iff,
          hcontainer.forall_length_iff fun n => (here.length + n : Int) < limit]
        split_ifs with htexts hhere
        · exact iff_of_false nofun fun hall => absurd hall.1.1 (by simpa using htexts)
        · exact iff_of_false nofun fun hall => absurd hall.2.1 (by omega)
        · rw [findSomeM?_eq_ok_none_iff, and_iff_right (a := v.hasStepTexts = true)
            (by simpa using htexts), and_iff_right (a := (here.length + (0 : Nat) : Int) < limit)
            (by omega), ← forall₂_and]
          refine forall₂_congr fun part hpart => (ih part.2 (snd_mem_children hpart)).trans ?_
          refine and_congr_right fun _ => forall₂_congr fun place _ => ?_
          rw [List.length_append, List.length_singleton]
          omega
      · exact iff_of_true (tooDeep?_of_not_isContainer hcontainer)
          ⟨isLocatable_of_not_isContainer hcontainer,
            fun place hplace => absurd hplace.isContainer hcontainer⟩

/-- Nothing is too deep if and only if every container has fewer steps above it than the
limit, where all steps can be written. -/
theorem tooDeep?_eq_none_iff :
    v.tooDeep? limit here = .ok none ↔ v.IsLocatable ∧
      ∀ l x, v.At Step.Spells l x → x.IsContainer → (here.length + l.length : Int) < limit := by
  rw [tooDeep?_eq_none_iff_place]
  refine and_congr_right fun _ => ⟨?_, ?_⟩
  · intro hall l x hat hx
    obtain ⟨place, hnode⟩ := at_iff_exists_node?.mp hat
    rw [length_of_node? hnode]
    exact hall place ⟨l, x, hnode, hx⟩
  · rintro hall place ⟨l, x, hnode, hx⟩
    rw [← length_of_node? hnode]
    exact hall l x (at_iff_exists_node?.mpr ⟨place, hnode⟩) hx

/-- The search only fails for a step that cannot be written. -/
theorem not_isLocatable_of_tooDeep?
    {cause : NoText} (hfail : v.tooDeep? limit here = .error cause) :
    ¬ v.IsLocatable := by
  induction v using inductionOnChildren generalizing here with
  | hchildren v ih =>
      by_cases hcontainer : v.IsContainer
      · rw [hcontainer.tooDeep?_eq] at hfail
        rw [isLocatable_iff]
        split_ifs at hfail with htexts hhere
        · exact fun hall => absurd hall.1 (by simpa using htexts)
        · obtain ⟨part, hpart, hbelow⟩ := exists_of_findSomeM?_eq_error hfail
          exact fun hall => ih part.2 (snd_mem_children hpart) hbelow (hall.2 part hpart)
      · rw [tooDeep?_of_not_isContainer hcontainer] at hfail
        cases hfail

/-- At the place is the first container that is as deep as the limit, and no deeper unless the
search starts there.  Its location from where the search starts is what was found. -/
structure IsFirstAt (v : Value) (limit : Int) (here found : Location) (place : List Nat) :
    Prop where
  node : ∃ l x, v.node? place = some (l, x) ∧ x.IsContainer ∧ found = here ++ l
  deep : limit ≤ here.length + place.length
  tight : (here.length + place.length : Int) ≤ max limit here.length
  first : ∀ other, v.IsContainerAt other → limit ≤ here.length + other.length → ¬ other < place

theorem isFirstAt_here (hcontainer : v.IsContainer) (hhere : limit ≤ here.length) :
    v.IsFirstAt limit here here [] where
  node := ⟨[], v, rfl, hcontainer, (List.append_nil here).symm⟩
  deep := by simpa using hhere
  tight := by simp
  first other _ _ := List.not_lt_nil other

/-- What is first in a part is first in the whole if nothing in the parts before is too deep. -/
theorem IsFirstAt.of_part
    {before after : List (Step × Value)} {part : Step × Value}
    (hfirst : part.2.IsFirstAt limit (here ++ [part.1]) found place)
    (hparts : v.parts = before ++ part :: after) (hhere : ¬ limit ≤ here.length)
    (hbefore : ∀ x ∈ before, x.2.tooDeep? limit (here ++ [x.1]) = .ok none) :
    v.IsFirstAt limit here found (before.length :: place) := by
  obtain ⟨⟨l, x, hnode, hx, hfound⟩, hdeep, htight, hothers⟩ := hfirst
  have hpart : v.parts[before.length]? = some part := by simp [hparts]
  rw [List.length_append, List.length_singleton] at hdeep htight hothers
  refine ⟨⟨part.1 :: l, x, ?_, hx, by simp [hfound]⟩, ?_, ?_, ?_⟩
  · exact node?_cons_eq_some_iff.mpr ⟨part, l, hpart, hnode, rfl⟩
  · rw [List.length_cons]
    omega
  · rw [List.length_cons]
    omega
  · rintro (_ | ⟨i, other⟩) hother hle
    · rw [List.length_nil] at hle
      omega
    · obtain ⟨y, hy, hin⟩ := isContainerAt_cons_iff.mp hother
      rw [List.length_cons] at hle
      rw [List.cons_lt_cons_iff]
      rintro (hlt | ⟨rfl, hlt⟩)
      · -- A part before has nothing that is too deep.
        have hmem : y ∈ before := by
          rw [hparts, List.getElem?_append_left hlt] at hy
          exact List.mem_of_getElem? hy
        have hshort := (tooDeep?_eq_none_iff_place.mp (hbefore y hmem)).2 other hin
        rw [List.length_append, List.length_singleton] at hshort
        omega
      · rw [hpart] at hy
        cases hy
        exact hothers other hin (by omega) hlt

theorem exists_isFirstAt (hdeep : v.tooDeep? limit here = .ok (some found)) :
    ∃ place, v.IsFirstAt limit here found place := by
  induction v using inductionOnChildren generalizing here with
  | hchildren v ih =>
      by_cases hcontainer : v.IsContainer
      · rw [hcontainer.tooDeep?_eq] at hdeep
        split_ifs at hdeep with _ hhere
        · cases hdeep
          exact ⟨[], isFirstAt_here hcontainer hhere⟩
        · obtain ⟨before, part, after, hsplit, hfound, hbefore⟩ :=
            exists_of_findSomeM?_eq_some hdeep
          have hpart : part ∈ v.parts := by simp [hsplit]
          obtain ⟨place, hplace⟩ := ih part.2 (snd_mem_children hpart) hfound
          exact ⟨_, hplace.of_part hsplit hhere hbefore⟩
      · rw [tooDeep?_of_not_isContainer hcontainer] at hdeep
        cases hdeep

/-- A container that is too deep is a node below the value that was searched. -/
theorem exists_at_of_tooDeep? (hdeep : v.tooDeep? limit here = .ok (some found)) :
    ∃ l x, found = here ++ l ∧ v.At Step.Spells l x := by
  obtain ⟨place, ⟨l, x, hnode, -, hfound⟩, -⟩ := exists_isFirstAt hdeep
  exact ⟨l, x, hfound, at_iff_exists_node?.mpr ⟨place, hnode⟩⟩

/-- The first container that is too deep is where the search starts, or it is no deeper than
the limit. -/
theorem length_le_of_tooDeep? (hdeep : v.tooDeep? limit here = .ok (some found)) :
    found = here ∨ (found.length : Int) ≤ limit := by
  obtain ⟨place, ⟨l, x, hnode, -, rfl⟩, -, htight, -⟩ := exists_isFirstAt hdeep
  have hlength := length_of_node? hnode
  cases l with
  | nil => exact .inl (List.append_nil here)
  | cons step l =>
      rw [List.length_cons] at hlength
      rw [List.length_append, List.length_cons]
      omega

end Value

end Wireframe
