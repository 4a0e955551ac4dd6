import Mathlib.Tactic
import Wireframe.Proofs.Planting

/-!
# Nodes in the index of positions

A node of a tree is reached by one location only.  So the walk that records the positions
visits every node that is not too deep at that location, and records all that is directly
below it.
-/

namespace Wireframe

open Yaml

/-! ## Records -/

namespace Positions

theorem placeOf?_record
    (positions : Positions) (location : Location) (start : Position) (other : Location) :
    (positions.record location start).placeOf? other =
      (positions.placeOf? other).or (if other = location then some start else none) := by
  unfold record
  by_cases hknown : (positions.placeOf? location).isSome = true
  · rw [if_pos hknown]
    split_ifs with hsame
    · subst hsame
      obtain ⟨place, hplace⟩ := Option.isSome_iff_exists.mp hknown
      rw [hplace]
      rfl
    · rw [Option.or_none]
  · rw [if_neg hknown]
    by_cases hsame : location = other
    · subst hsame
      have hnone : positions.find? (fun p => p.1 == location) = none :=
        Option.map_eq_none_iff.mp (Option.not_isSome_iff_eq_none.mp hknown)
      simp [placeOf?, List.find?_append, hnone]
    · simp [placeOf?, List.find?_append, hsame, Ne.symm hsame]

end Positions

namespace Yaml.Graph

/-! ## Reached nodes -/

/-- The steps of a location lead from a node to another one. -/
inductive Reaches (g : Graph) : Nat → Location → Nat → Prop
  | here {id} : Reaches g id [] id
  | step {id s mid l last} (hstep : (s, mid) ∈ g.steps id) (hrest : Reaches g mid l last) :
      Reaches g id (s :: l) last

/-- No two keys of a mapping are written alike. -/
def HasDistinctKeys (g : Graph) : Prop :=
  ∀ id, (g.entries id).Pairwise fun a b => (g.node a.1).content ≠ (g.node b.1).content

/-- No two steps from a node are alike. -/
def HasDistinctSteps (g : Graph) : Prop := ∀ id, ((g.steps id).map Prod.fst).Nodup

variable {g : Graph} {id mid last : Nat} {s t : Step} {l : Location}

theorem reaches_nil_iff : g.Reaches id [] last ↔ last = id := by
  constructor
  · rintro ⟨⟩
    rfl
  · rintro rfl
    exact .here

theorem reaches_snoc_iff :
    g.Reaches id (l ++ [s]) last ↔ ∃ mid, g.Reaches id l mid ∧ (s, last) ∈ g.steps mid := by
  constructor
  · intro hreaches
    induction l generalizing id with
    | nil =>
        cases hreaches with
        | step hstep hrest =>
            cases reaches_nil_iff.mp hrest
            exact ⟨id, .here, hstep⟩
    | cons t l ih =>
        cases hreaches with
        | step hstep hrest =>
            obtain ⟨mid, hmid, hlast⟩ := ih hrest
            exact ⟨mid, .step hstep hmid, hlast⟩
  · rintro ⟨mid, hmid, hstep⟩
    induction hmid with
    | here => exact .step hstep .here
    | step hfirst _ ih => exact .step hfirst (ih hstep)

theorem mem_steps_mapping
    {entries : List (Nat × Nat)} (hcontent : (g.node id).content = .mapping entries) :
    (s, last) ∈ g.steps id ↔ ∃ e ∈ entries, ∃ text, (g.node e.1).content = .scalar text ∧
      (g.node e.1).tag ≠ .merge ∧ s = .name text ∧ e.2 = last := by
  unfold steps
  rw [hcontent]
  simp only [List.mem_filterMap]
  refine exists_congr fun e => and_congr_right fun _ => ?_
  split
  next text htext =>
    split_ifs with hmerge
    · simp [hmerge]
    · simp [htext, hmerge, eq_comm]
  next hnone => exact iff_of_false nofun fun ⟨text, htext, _⟩ => hnone text htext

theorem mem_steps_sequence
    {items : List Nat} (hcontent : (g.node id).content = .sequence items) :
    (s, last) ∈ g.steps id ↔ ∃ i : Nat, items[i]? = some last ∧ s = .place i := by
  unfold steps
  rw [hcontent]
  simp only [List.mem_map, List.mem_zipIdx_iff_getElem?, Prod.exists, Prod.mk.injEq]
  constructor
  · rintro ⟨item, i, hget, rfl, rfl⟩
    exact ⟨i, hget, rfl⟩
  · rintro ⟨i, hget, rfl⟩
    exact ⟨last, i, hget, rfl, rfl⟩

theorem steps_scalar
    {text : String} (hcontent : (g.node id).content = .scalar text) :
    g.steps id = [] := by
  unfold steps
  rw [hcontent]

theorem steps_eq_nil_of_le (hid : g.nodes.size ≤ id) : g.steps id = [] := by
  have hempty : (g.node id).content = .scalar "" := by
    rw [node_of_le hid]
    rfl
  exact steps_scalar hempty

/-- Steps lead to what is below a node. -/
theorem mem_below_of_mem_steps (hstep : (s, last) ∈ g.steps id) :
    last ∈ (g.node id).content.below := by
  cases hcontent : (g.node id).content with
  | scalar text =>
      rw [steps_scalar hcontent] at hstep
      cases hstep
  | sequence items =>
      obtain ⟨i, hget, -⟩ := (mem_steps_sequence hcontent).mp hstep
      exact List.mem_of_getElem? hget
  | mapping entries =>
      obtain ⟨e, he, -, -, -, -, rfl⟩ := (mem_steps_mapping hcontent).mp hstep
      exact List.mem_flatMap.mpr ⟨e, he, by simp⟩

/-- In a tree, one step leads from a node to each of the nodes below it. -/
theorem IsTree.step_unique
    (htree : g.IsTree) (hs : (s, last) ∈ g.steps id) (ht : (t, last) ∈ g.steps id) :
    s = t := by
  have hnodup := htree.nodup id
  cases hcontent : (g.node id).content with
  | scalar text =>
      rw [steps_scalar hcontent] at hs
      cases hs
  | sequence items =>
      rw [hcontent] at hnodup
      obtain ⟨i, hi, rfl⟩ := (mem_steps_sequence hcontent).mp hs
      obtain ⟨j, hj, rfl⟩ := (mem_steps_sequence hcontent).mp ht
      obtain ⟨hlti, hgeti⟩ := List.getElem?_eq_some_iff.mp hi
      obtain ⟨hltj, hgetj⟩ := List.getElem?_eq_some_iff.mp hj
      have hij : i = j := (List.Nodup.getElem_inj_iff hnodup).mp (hgeti.trans hgetj.symm)
      rw [hij]
  | mapping entries =>
      rw [hcontent] at hnodup
      obtain ⟨e, he, text, htext, -, rfl, heq⟩ := (mem_steps_mapping hcontent).mp hs
      obtain ⟨f, hf, other, hother, -, rfl, hfq⟩ := (mem_steps_mapping hcontent).mp ht
      have hsame : e = f := by
        by_contra hne
        have : Std.Symm (Function.onFun List.Disjoint fun e : Nat × Nat => [e.1, e.2]) :=
          ⟨fun _ _ h => h.symm⟩
        have hdisjoint := (List.nodup_flatMap.mp hnodup).2.forall he hf hne
        exact @hdisjoint last (by simp [heq]) (by simp [hfq])
      subst hsame
      rw [Content.scalar.inj (htext.symm.trans hother)]

/-- A node of a tree is reached by one location only. -/
theorem IsTree.location_unique
    (htree : g.IsTree) {l l' : Location} (hl : g.Reaches g.root l last)
    (hl' : g.Reaches g.root l' last) :
    l = l' := by
  have hroot {mid : Nat} {s : Step} (hstep : (s, g.root) ∈ g.steps mid) : False :=
    htree.root mid (mem_below_of_mem_steps hstep)
  induction l using List.reverseRecOn generalizing last l' with
  | nil =>
      cases reaches_nil_iff.mp hl
      rcases List.eq_nil_or_concat l' with rfl | ⟨l', s, rfl⟩
      · rfl
      · obtain ⟨mid, -, hstep⟩ := reaches_snoc_iff.mp (List.concat_eq_append ▸ hl')
        exact (hroot hstep).elim
  | append_singleton l s ih =>
      obtain ⟨mid, hmid, hstep⟩ := reaches_snoc_iff.mp hl
      rcases List.eq_nil_or_concat l' with rfl | ⟨l', t, rfl⟩
      · cases reaches_nil_iff.mp hl'
        exact (hroot hstep).elim
      · obtain ⟨mid', hmid', hstep'⟩ := reaches_snoc_iff.mp (List.concat_eq_append ▸ hl')
        cases htree.parent mid mid' _ (mem_below_of_mem_steps hstep)
          (mem_below_of_mem_steps hstep')
        rw [ih hmid hmid', htree.step_unique hstep hstep', List.concat_eq_append]

theorem HasDistinctSteps.target_unique
    (hdistinct : g.HasDistinctSteps) {n n' : Nat} (hn : (s, n) ∈ g.steps id)
    (hn' : (s, n') ∈ g.steps id) :
    n = n' :=
  congrArg Prod.snd (List.inj_on_of_nodup_map (hdistinct id) hn hn' rfl)

theorem HasDistinctKeys.hasDistinctSteps (hdistinct : g.HasDistinctKeys) :
    g.HasDistinctSteps := by
  intro id
  unfold List.Nodup
  rw [List.pairwise_map]
  cases hcontent : (g.node id).content with
  | scalar text =>
      rw [steps_scalar hcontent]
      exact .nil
  | sequence items =>
      have hnumbers : (items.zipIdx.map Prod.snd).Nodup := by
        rw [List.zipIdx_map_snd]
        exact List.nodup_range'
      simp only [steps, hcontent]
      rw [List.pairwise_map]
      refine (List.pairwise_map.mp hnumbers).imp fun hne hplace => hne ?_
      exact Int.ofNat_inj.mp (Step.place.inj hplace)
  | mapping entries =>
      have hentries : g.entries id = entries := by simp [Graph.entries, hcontent, Content.entries]
      have hpairwise := hdistinct id
      rw [hentries] at hpairwise
      simp only [steps, hcontent]
      rw [List.pairwise_filterMap]
      refine hpairwise.imp fun {a b} hne s hs t ht hname => hne ?_
      split at hs <;> [skip; cases hs]
      next text htext =>
        split at ht <;> [skip; cases ht]
        next other hother =>
          split_ifs at hs ht
          cases hs
          cases ht
          rw [htext, hother, Step.name.inj hname]

/-- A location reaches one node only if no two steps from a node are alike. -/
theorem HasDistinctSteps.node_unique
    (hdistinct : g.HasDistinctSteps) {n n' : Nat} (hn : g.Reaches id l n)
    (hn' : g.Reaches id l n') :
    n = n' := by
  induction hn with
  | here => exact (reaches_nil_iff.mp hn').symm
  | step hfirst _ ih =>
      cases hn' with
      | step hfirst' hrest' =>
          cases hdistinct.target_unique hfirst hfirst'
          exact ih hrest'

theorem HasDistinctKeys.node_unique
    (hdistinct : g.HasDistinctKeys) {n n' : Nat} (hn : g.Reaches id l n)
    (hn' : g.Reaches id l n') :
    n = n' :=
  hdistinct.hasDistinctSteps.node_unique hn hn'

/-! ## The walk -/

/-- Whatever is recorded is the start of a node at its location. -/
def AreStarts (g : Graph) (positions : Positions) : Prop :=
  ∀ l place, positions.placeOf? l = some place →
    ∃ n, g.Reaches g.root l n ∧ place = (g.node n).start

/-- The location has a record. -/
def HasRecord (positions : Positions) (l : Location) : Prop := (positions.placeOf? l).isSome

theorem HasRecord.record
    {positions : Positions} {other : Location} (hrecord : HasRecord positions other)
    (start : Position) :
    HasRecord (positions.record l start) other := by
  unfold HasRecord at *
  rw [Positions.placeOf?_record, Option.isSome_or, hrecord]
  rfl

theorem hasRecord_record
    (positions : Positions) (l : Location) (start : Position) :
    HasRecord (positions.record l start) l := by
  unfold HasRecord
  rw [Positions.placeOf?_record, if_pos rfl, Option.isSome_or]
  simp

theorem AreStarts.record
    {positions : Positions} (hstarts : g.AreStarts positions) {n : Nat}
    (hn : g.Reaches g.root l n) :
    g.AreStarts (positions.record l (g.node n).start) := by
  intro other place hplace
  rw [Positions.placeOf?_record, Option.or_eq_some_iff] at hplace
  rcases hplace with hknown | ⟨-, hnew⟩
  · exact hstarts other place hknown
  · split_ifs at hnew with hsame
    cases hnew
    exact ⟨n, hsame ▸ hn, rfl⟩

/-- Recording what is below a node keeps the records and adds one for each step. -/
theorem recordChildren_spec
    {positions : Positions} (hstarts : g.AreStarts positions) (hid : g.Reaches g.root l id) :
    g.AreStarts (g.recordChildren l id positions) ∧
      (∀ other, HasRecord positions other → HasRecord (g.recordChildren l id positions) other) ∧
      ∀ s n, (s, n) ∈ g.steps id → HasRecord (g.recordChildren l id positions) (l ++ [s]) := by
  have hall (steps : List (Step × Nat)) (hsteps : ∀ s n, (s, n) ∈ steps → (s, n) ∈ g.steps id)
      {positions : Positions} (hstarts : g.AreStarts positions) :
      let positions' := steps.foldl
        (fun positions s => positions.record (l ++ [s.1]) (g.node s.2).start) positions
      g.AreStarts positions' ∧ (∀ other, HasRecord positions other → HasRecord positions' other) ∧
        ∀ s n, (s, n) ∈ steps → HasRecord positions' (l ++ [s]) := by
    induction steps generalizing positions with
    | nil => exact ⟨hstarts, fun _ h => h, nofun⟩
    | cons first rest ih =>
        have hfirst : g.Reaches g.root (l ++ [first.1]) first.2 :=
          reaches_snoc_iff.mpr ⟨id, hid, hsteps _ _ List.mem_cons_self⟩
        obtain ⟨hlast, hkept, hnew⟩ := ih (fun s n h => hsteps s n (List.mem_cons_of_mem _ h))
          (hstarts.record hfirst)
        refine ⟨hlast, fun other h => hkept other (h.record _), fun s n h => ?_⟩
        rcases List.mem_cons.mp h with rfl | hrest
        · exact hkept _ (hasRecord_record _ _ _)
        · exact hnew s n hrest
  exact hall (g.steps id) (fun _ _ h => h) hstarts

/-- A node is not left out: it was visited, it is on the work list, or it lies too deep. -/
def IsMet (limit : Int) (work : List (Nat × Location)) (visited : List Nat) (id : Nat)
    (l : Location) : Prop :=
  id ∈ visited ∨ (id, l) ∈ work ∨ limit < l.length

/-- What holds between two rounds of the walk: what is on the work list is reached, and all
that is below a visited node is recorded and met. -/
structure Walks (g : Graph) (limit : Int) (work : List (Nat × Location)) (visited : List Nat)
    (positions : Positions) : Prop where
  reached : ∀ w ∈ work, g.Reaches g.root w.2 w.1
  starts : g.AreStarts positions
  root : HasRecord positions []
  rootMet : IsMet limit work visited g.root []
  below : ∀ id ∈ visited, ∃ l, g.Reaches g.root l id ∧ ∀ s n, (s, n) ∈ g.steps id →
    HasRecord positions (l ++ [s]) ∧ IsMet limit work visited n (l ++ [s])

variable {limit : Int} {work : List (Nat × Location)} {visited : List Nat} {positions : Positions}

theorem walks_start (g : Graph) (limit : Int) :
    Walks g limit [(g.root, [])] [] [([], (g.node g.root).start)] where
  reached w hw := by
    rw [List.mem_singleton.mp hw]
    exact .here
  starts l place hplace := by
    obtain ⟨rfl, rfl⟩ : l = [] ∧ (g.node g.root).start = place := by
      simpa [Positions.placeOf?] using hplace
    exact ⟨g.root, .here, rfl⟩
  root := rfl
  rootMet := .inr (.inl (List.mem_singleton_self _))
  below := nofun

/-- A node that is passed over was visited before or lies too deep. -/
theorem Walks.skip
    (hwalks : Walks g limit ((id, l) :: work) visited positions)
    (hskip : id ∈ visited ∨ limit < l.length) :
    Walks g limit work visited positions := by
  have hmet {n : Nat} {other : Location} (h : IsMet limit ((id, l) :: work) visited n other) :
      IsMet limit work visited n other := by
    rcases h with hvisited | hwork | hdeep
    · exact .inl hvisited
    · rcases List.mem_cons.mp hwork with heq | hwork
      · cases heq
        exact hskip.elim .inl fun hdeep => .inr (.inr hdeep)
      · exact .inr (.inl hwork)
    · exact .inr (.inr hdeep)
  exact {
    reached := fun w hw => hwalks.reached w (List.mem_cons_of_mem _ hw)
    starts := hwalks.starts
    root := hwalks.root
    rootMet := hmet hwalks.rootMet
    below := fun id hid => by
      obtain ⟨l, hl, hbelow⟩ := hwalks.below id hid
      exact ⟨l, hl, fun s n hs => ⟨(hbelow s n hs).1, hmet (hbelow s n hs).2⟩⟩ }

/-- A visited node has what is below it recorded and put on the work list. -/
theorem Walks.visit
    (hwalks : Walks g limit ((id, l) :: work) visited positions) :
    Walks g limit (((g.steps id).map fun s => (s.2, l ++ [s.1])).reverse ++ work) (id :: visited)
      (g.recordChildren l id positions) := by
  have hid : g.Reaches g.root l id := hwalks.reached (id, l) List.mem_cons_self
  obtain ⟨hstarts, hkept, hnew⟩ := recordChildren_spec hwalks.starts hid
  set children := (g.steps id).map fun s => (s.2, l ++ [s.1]) with hchildren
  have hmet {n : Nat} {other : Location} (h : IsMet limit ((id, l) :: work) visited n other) :
      IsMet limit (children.reverse ++ work) (id :: visited) n other := by
    rcases h with hvisited | hwork | hdeep
    · exact .inl (List.mem_cons_of_mem _ hvisited)
    · rcases List.mem_cons.mp hwork with heq | hwork
      · cases heq
        exact .inl List.mem_cons_self
      · exact .inr (.inl (List.mem_append_right _ hwork))
    · exact .inr (.inr hdeep)
  refine ⟨fun w hw => ?_, hstarts, hkept _ hwalks.root, hmet hwalks.rootMet, fun m hm => ?_⟩
  · rcases List.mem_append.mp hw with hchild | hwork
    · obtain ⟨s, hs, rfl⟩ := List.mem_map.mp (List.mem_reverse.mp hchild)
      exact reaches_snoc_iff.mpr ⟨id, hid, hs⟩
    · exact hwalks.reached w (List.mem_cons_of_mem _ hwork)
  · rcases List.mem_cons.mp hm with rfl | hold
    · refine ⟨l, hid, fun s n hs => ⟨hnew s n hs, .inr (.inl (List.mem_append_left _ ?_))⟩⟩
      exact List.mem_reverse.mpr (List.mem_map.mpr ⟨(s, n), hs, rfl⟩)
    · obtain ⟨l', hl', hbelow⟩ := hwalks.below m hold
      exact ⟨l', hl', fun s n hs => ⟨hkept _ (hbelow s n hs).1, hmet (hbelow s n hs).2⟩⟩

/-- The steps from nodes that were not visited yet. -/
def stepsAhead (g : Graph) (visited : List Nat) : Nat :=
  ∑ id ∈ Finset.range g.nodes.size \ visited.toFinset, (g.steps id).length

theorem stepsAhead_cons
    (hid : id ∉ visited) :
    g.stepsAhead (id :: visited) + (g.steps id).length = g.stepsAhead visited := by
  unfold stepsAhead
  rw [List.toFinset_cons, Finset.sdiff_insert]
  by_cases hlt : id < g.nodes.size
  · exact Finset.sum_erase_add _ _ (by simp [hlt, hid])
  · have hnone : g.steps id = [] := steps_eq_nil_of_le (not_lt.mp hlt)
    rw [Finset.erase_eq_of_notMem (by simp [hlt]), hnone]
    rfl

/-- With enough fuel the walk comes to the end of its work list. -/
theorem walks_index
    (fuel : Nat) (hwalks : Walks g limit work visited positions)
    (hfuel : work.length + g.stepsAhead visited < fuel) :
    ∃ visited', Walks g limit [] visited' (g.index limit fuel work visited positions) := by
  induction fuel generalizing work visited positions with
  | zero => omega
  | succ fuel ih =>
      cases work with
      | nil => exact ⟨visited, hwalks⟩
      | cons w work =>
          obtain ⟨id, l⟩ := w
          rw [List.length_cons] at hfuel
          unfold index
          split_ifs with hskip
          · have hpassed : id ∈ visited ∨ limit < l.length := by simpa using hskip
            exact ih (hwalks.skip hpassed) (by omega)
          · have hnew : id ∉ visited := fun h => hskip (by simp [h])
            refine ih hwalks.visit ?_
            have hahead := stepsAhead_cons (g := g) hnew
            simp only [List.length_append, List.length_reverse, List.length_map]
            omega

theorem walkBound_eq (g : Graph) : g.walkBound = g.stepsAhead [] + 2 := by
  unfold walkBound stepsAhead
  rw [List.length_flatMap, List.toFinset_nil, Finset.sdiff_empty]
  rfl

theorem exists_walks_positions (g : Graph) (limit : Int) :
    ∃ visited, Walks g limit [] visited (g.positions limit) := by
  refine walks_index _ (walks_start g limit) ?_
  rw [walkBound_eq, List.length_singleton]
  omega

/-- The index of a tree has the start of every node that lies at most one step deeper than the
limit, at the only location that leads to it. -/
theorem placeOf?_positions
    (htree : g.IsTree) (hdistinct : g.HasDistinctKeys) {n : Nat} (hn : g.Reaches g.root l n)
    (hlimit : l = [] ∨ (l.length : Int) ≤ limit + 1) :
    (g.positions limit).placeOf? l = some (g.node n).start := by
  obtain ⟨visited, hwalks⟩ := exists_walks_positions g limit
  have hvisited {l : Location} {n : Nat} (hn : g.Reaches g.root l n)
      (hlimit : (l.length : Int) ≤ limit) : n ∈ visited := by
    induction l using List.reverseRecOn generalizing n with
    | nil =>
        cases reaches_nil_iff.mp hn
        rcases hwalks.rootMet with hroot | hwork | hdeep
        · exact hroot
        · cases hwork
        · omega
    | append_singleton l s ih =>
        obtain ⟨mid, hmid, hstep⟩ := reaches_snoc_iff.mp hn
        rw [List.length_append, List.length_singleton] at hlimit
        obtain ⟨l', hl', hbelow⟩ := hwalks.below mid (ih hmid (by omega))
        cases htree.location_unique hmid hl'
        rcases (hbelow s n hstep).2 with hvisited | hwork | hdeep
        · exact hvisited
        · cases hwork
        · rw [List.length_append, List.length_singleton] at hdeep
          omega
  have hrecord : HasRecord (g.positions limit) l := by
    induction l using List.reverseRecOn with
    | nil => exact hwalks.root
    | append_singleton l s =>
        obtain ⟨mid, hmid, hstep⟩ := reaches_snoc_iff.mp hn
        simp only [List.append_eq_nil_iff, List.cons_ne_self, and_false, false_or,
          List.length_append, List.length_singleton] at hlimit
        obtain ⟨l', hl', hbelow⟩ := hwalks.below mid (hvisited hmid (by omega))
        cases htree.location_unique hmid hl'
        exact (hbelow s n hstep).1
  obtain ⟨place, hplace⟩ := Option.isSome_iff_exists.mp hrecord
  obtain ⟨n', hn', rfl⟩ := hwalks.starts l place hplace
  rw [hplace, hdistinct.node_unique hn hn']

end Yaml.Graph

end Wireframe
