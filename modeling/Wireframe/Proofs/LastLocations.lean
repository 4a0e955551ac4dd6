import Mathlib.Tactic
import Wireframe.Proofs.Builders
import Wireframe.Proofs.PositionWalks

/-!
# Shared nodes in the index of positions

The children of a node are put on the work list in their order, and the last of them is taken
first.  So of all locations that lead to a shared node, the walk comes to the last one in the
document first.  It is at this location that the node is expanded.
-/

namespace Wireframe.Yaml.Graph

/-- The first location stands before the second one in the document: both lead to one node,
where they part, and the first goes on by an earlier step. -/
inductive Earlier (g : Graph) : Nat → Location → Location → Prop
  | across {id i j : Nat} {s t : Step} {l m : Location} (hij : i < j)
      (hs : ((g.steps id).map Prod.fst)[i]? = some s)
      (ht : ((g.steps id).map Prod.fst)[j]? = some t) :
      Earlier g id (s :: l) (t :: m)
  | within {id mid : Nat} {s : Step} {l m : Location} (hstep : (s, mid) ∈ g.steps id)
      (hrest : Earlier g mid l m) :
      Earlier g id (s :: l) (s :: m)

/-- All locations of the nodes below the root are short, so no node is below itself. -/
def IsShallow (g : Graph) (limit : Int) : Prop :=
  ∀ l n, g.Reaches g.root l n → (l.length : Int) ≤ limit

/-- A location of a node leads through something on the work list. -/
def IsAhead (g : Graph) (work : List (Nat × Location)) (n : Nat) (l : Location) : Prop :=
  ∃ w ∈ work, ∃ k, g.Reaches w.1 k n ∧ l = w.2 ++ k

variable {g : Graph} {limit : Int} {work : List (Nat × Location)} {visited : List Nat}
  {trace : List (Nat × Location)} {id n : Nat} {s t : Step} {k l m p : Location}

/-! ## The order of the document -/

theorem Earlier.ne (hdistinct : g.HasDistinctSteps) (hearlier : g.Earlier id l m) : l ≠ m := by
  induction hearlier with
  | @across id i j s t l m hij hs ht =>
      intro heq
      obtain ⟨rfl, -⟩ := List.cons.inj heq
      have hi : i < ((g.steps id).map Prod.fst).length := (List.getElem?_eq_some_iff.mp hs).1
      exact hij.ne ((List.getElem?_inj hi (hdistinct id)).mp (hs.trans ht.symm))
  | within _ _ ih => exact fun heq => ih (List.cons.inj heq).2

theorem Earlier.trans
    (hdistinct : g.HasDistinctSteps) (hfirst : g.Earlier id l m) (hnext : g.Earlier id m p) :
    g.Earlier id l p := by
  induction hfirst generalizing p with
  | @across id i j s t l m hij hs ht =>
      cases hnext with
      | @across _ i' j' _ u _ _ hij' ht' hu =>
          have hj : j < ((g.steps id).map Prod.fst).length := (List.getElem?_eq_some_iff.mp ht).1
          cases (List.getElem?_inj hj (hdistinct id)).mp (ht.trans ht'.symm)
          exact .across (hij.trans hij') hs hu
      | within _ _ => exact .across hij hs ht
  | @within id mid s l m hstep _ ih =>
      cases hnext with
      | across hij hs ht => exact .across hij hs ht
      | within hstep' hrest' =>
          cases hdistinct.target_unique hstep hstep'
          exact .within hstep (ih hrest')

/-- It does not matter how two locations go on after they part. -/
theorem Earlier.append (hearlier : g.Earlier id l m) (k p : Location) :
    g.Earlier id (l ++ k) (m ++ p) := by
  induction hearlier with
  | across hij hs ht => exact .across hij hs ht
  | within hstep _ ih => exact .within hstep ih

theorem Earlier.prepend (hid : g.Reaches id p n) (hearlier : g.Earlier n l m) :
    g.Earlier id (p ++ l) (p ++ m) := by
  induction hid with
  | here => exact hearlier
  | step hstep _ ih => exact .within hstep (ih hearlier)

/-- The locations right below a node stand in the order of its steps. -/
theorem pairwise_under (hid : g.Reaches g.root l id) :
    (g.under id l).Pairwise fun a b => g.Earlier g.root a.2 b.2 := by
  unfold under
  rw [List.pairwise_map, List.pairwise_iff_getElem]
  intro i j hi hj hij
  refine Earlier.prepend hid (.across hij ?_ ?_)
  · rw [List.getElem?_map, List.getElem?_eq_getElem hi]
    rfl
  · rw [List.getElem?_map, List.getElem?_eq_getElem hj]
    rfl

/-! ## Graphs without cycles -/

theorem Reaches.append {mid : Nat} (hfirst : g.Reaches id l mid) (hnext : g.Reaches mid k n) :
    g.Reaches id (l ++ k) n := by
  induction hfirst with
  | here => exact hnext
  | step hstep _ ih => exact .step hstep (ih hnext)

/-- If no location is long, no node is below itself. -/
theorem IsShallow.eq_nil
    (hshallow : g.IsShallow limit) (hid : g.Reaches g.root l id) (hcycle : g.Reaches id k id) :
    k = [] := by
  by_contra hne
  have hlong (count : Nat) :
      ∃ m, g.Reaches g.root m id ∧ count ≤ m.length := by
    induction count with
    | zero => exact ⟨l, hid, Nat.zero_le _⟩
    | succ count ih =>
        obtain ⟨m, hm, hcount⟩ := ih
        have hpos := List.length_pos_iff.mpr hne
        refine ⟨m ++ k, hm.append hcycle, ?_⟩
        rw [List.length_append]
        omega
  obtain ⟨m, hm, hcount⟩ := hlong (limit.toNat + 1)
  have hshort := hshallow m id hm
  omega

/-! ## The walk -/

/-- What holds between two rounds of the walk: the work list goes back in the document, it is
behind none of the locations where nodes were expanded, and of a node that was not expanded yet
no location is left out unless a later one is ahead. -/
structure GoesBack (g : Graph) (work : List (Nat × Location)) (visited : List Nat) : Prop where
  reached : ∀ w ∈ work, g.Reaches g.root w.2 w.1
  ordered : work.Pairwise fun a b => g.Earlier g.root b.2 a.2
  behind : ∀ id ∈ visited, ∃ l, g.Reaches g.root l id ∧ ∀ w ∈ work, g.Earlier g.root w.2 l ∨
    ∃ k, k ≠ [] ∧ g.Reaches id k w.1 ∧ w.2 = l ++ k
  ahead : ∀ n, n ∉ visited → ∀ m, g.Reaches g.root m n →
    ∃ m', g.IsAhead work n m' ∧ (m = m' ∨ g.Earlier g.root m m')

theorem goesBack_start (g : Graph) : g.GoesBack [(g.root, [])] [] where
  reached _ hw := List.mem_singleton.mp hw ▸ .here
  ordered := List.pairwise_singleton _ _
  behind := nofun
  ahead _ _ m hm := ⟨m, ⟨_, List.mem_singleton_self _, m, hm, rfl⟩, .inl rfl⟩

/-- The node that is taken is at the last of its locations, unless it was expanded before. -/
theorem GoesBack.last
    (hback : g.GoesBack ((id, l) :: work) visited) (hdistinct : g.HasDistinctSteps)
    (hshallow : g.IsShallow limit) (hnew : id ∉ visited) (hm : g.Reaches g.root m id) :
    m = l ∨ g.Earlier g.root m l := by
  have hid : g.Reaches g.root l id := hback.reached (id, l) List.mem_cons_self
  obtain ⟨m', ⟨w, hw, k, hk, rfl⟩, hlast⟩ := hback.ahead id hnew m hm
  rcases List.mem_cons.mp hw with rfl | hw
  · have hnil : k = [] := hshallow.eq_nil hid hk
    rw [hnil, List.append_nil] at hlast
    exact hlast
  · have hbefore : g.Earlier g.root w.2 l := (List.pairwise_cons.mp hback.ordered).1 w hw
    have happended : g.Earlier g.root (w.2 ++ k) l := by
      simpa using hbefore.append k []
    rcases hlast with rfl | hearlier
    · exact .inr happended
    · exact .inr (hearlier.trans hdistinct happended)

/-- What is below a node that was expanded before is ahead elsewhere. -/
theorem GoesBack.pass
    (hback : g.GoesBack ((id, l) :: work) visited) (hdistinct : g.HasDistinctSteps)
    (hshallow : g.IsShallow limit) (hvisited : id ∈ visited) :
    g.GoesBack work visited where
  reached w hw := hback.reached w (List.mem_cons_of_mem _ hw)
  ordered := (List.pairwise_cons.mp hback.ordered).2
  behind n hn := by
    obtain ⟨m, hm, hwork⟩ := hback.behind n hn
    exact ⟨m, hm, fun w hw => hwork w (List.mem_cons_of_mem _ hw)⟩
  ahead n hn m hm := by
    obtain ⟨m', ⟨w, hw, k, hk, rfl⟩, hlast⟩ := hback.ahead n hn m hm
    rcases List.mem_cons.mp hw with rfl | hw
    · -- The node was expanded at a later location, and so the same steps lead on from there.
      obtain ⟨l', hl', hwork⟩ := hback.behind id hvisited
      have hlater : g.Earlier g.root l l' := by
        rcases hwork (id, l) List.mem_cons_self with hearlier | ⟨k', hne, hcycle, -⟩
        · exact hearlier
        · exact absurd (hshallow.eq_nil hl' hcycle) hne
      obtain ⟨m'', ⟨w, hw, k'', hk'', rfl⟩, hlast'⟩ := hback.ahead n hn (l' ++ k) (hl'.append hk)
      have hon : g.Earlier g.root m (w.2 ++ k'') := by
        have hfirst : g.Earlier g.root m (l' ++ k) := by
          rcases hlast with rfl | hearlier
          · exact hlater.append k k
          · exact hearlier.trans hdistinct (hlater.append k k)
        rcases hlast' with heq | hearlier
        · exact heq ▸ hfirst
        · exact hfirst.trans hdistinct hearlier
      rcases List.mem_cons.mp hw with rfl | hw
      · have hdown : g.Earlier g.root (l ++ k'') (l' ++ k) := hlater.append k'' k
        rcases hlast' with heq | hearlier
        · exact absurd heq.symm (hdown.ne hdistinct)
        · exact absurd rfl ((hearlier.trans hdistinct hdown).ne hdistinct)
      · exact ⟨_, ⟨w, hw, k'', hk'', rfl⟩, .inr hon⟩
    · exact ⟨_, ⟨w, hw, k, hk, rfl⟩, hlast⟩

/-- The children of an expanded node stand in front of all that is on the work list. -/
theorem GoesBack.expand
    (hback : g.GoesBack ((id, l) :: work) visited) :
    g.GoesBack ((g.under id l).reverse ++ work) (id :: visited) := by
  have hid : g.Reaches g.root l id := hback.reached (id, l) List.mem_cons_self
  obtain ⟨hfirst, hrest⟩ := List.pairwise_cons.mp hback.ordered
  refine ⟨fun w hw => ?_, ?_, fun n hn => ?_, fun n hn m hm => ?_⟩
  · rcases List.mem_append.mp hw with hbelow | hw
    · exact reaches_of_mem_under hid (List.mem_reverse.mp hbelow)
    · exact hback.reached w (List.mem_cons_of_mem _ hw)
  · refine List.pairwise_append.mpr ⟨List.pairwise_reverse.mpr (pairwise_under hid), hrest, ?_⟩
    intro a ha b hb
    obtain ⟨s, -, hl⟩ := mem_under_iff.mp (List.mem_reverse.mp ha)
    rw [hl]
    simpa using (hfirst b hb).append [] [s]
  · rcases List.mem_cons.mp hn with rfl | hn
    · refine ⟨l, hid, fun w hw => ?_⟩
      rcases List.mem_append.mp hw with hbelow | hw
      · obtain ⟨s, hs, hl⟩ := mem_under_iff.mp (List.mem_reverse.mp hbelow)
        exact .inr ⟨[s], List.cons_ne_nil _ _, .step hs .here, hl⟩
      · exact .inl (hfirst w hw)
    · obtain ⟨l', hl', hwork⟩ := hback.behind n hn
      refine ⟨l', hl', fun w hw => ?_⟩
      rcases List.mem_append.mp hw with hbelow | hw
      · obtain ⟨s, hs, hl⟩ := mem_under_iff.mp (List.mem_reverse.mp hbelow)
        rcases hwork (id, l) List.mem_cons_self with hearlier | ⟨k, hne, hk, hlk⟩
        · left
          rw [hl]
          simpa using hearlier.append [s] []
        · right
          refine ⟨k ++ [s], by simp, reaches_snoc_iff.mpr ⟨id, hk, hs⟩, ?_⟩
          rw [hl, show l = l' ++ k from hlk, List.append_assoc]
      · exact hwork w (List.mem_cons_of_mem _ hw)
  · obtain ⟨hne, hn⟩ := not_or.mp (List.mem_cons.not.mp hn)
    obtain ⟨m', ⟨w, hw, k, hk, rfl⟩, hlast⟩ := hback.ahead n hn m hm
    rcases List.mem_cons.mp hw with rfl | hw
    · cases hk with
      | here => exact absurd rfl hne
      | @step _ s mid k _ hs hk =>
          have hbelow : (mid, l ++ [s]) ∈ (g.under id l).reverse ++ work :=
            List.mem_append_left _ (List.mem_reverse.mpr (mem_under_iff.mpr ⟨s, hs, rfl⟩))
          exact ⟨_, ⟨_, hbelow, k, hk, by simp⟩, hlast⟩
    · exact ⟨_, ⟨w, List.mem_append_right _ hw, k, hk, rfl⟩, hlast⟩

/-- Every node is expanded at the last of its locations. -/
theorem Expands.last
    (hexpands : g.Expands limit work visited trace) (hback : g.GoesBack work visited)
    (hdistinct : g.HasDistinctSteps) (hshallow : g.IsShallow limit) (hl : (n, l) ∈ trace)
    (hm : g.Reaches g.root m n) :
    m = l ∨ g.Earlier g.root m l := by
  induction hexpands with
  | done => cases hl
  | @pass id p work visited trace hskip _ ih =>
      have hshort := hshallow p id (hback.reached (id, p) List.mem_cons_self)
      have hvisited : id ∈ visited := hskip.resolve_right (not_lt.mpr hshort)
      exact ih (hback.pass hdistinct hshallow hvisited) hl
  | @expand id p work visited trace hnew _ _ ih =>
      rcases List.mem_cons.mp hl with heq | hl
      · cases heq
        exact hback.last hdistinct hshallow hnew hm
      · exact ih hback.expand hl

/-- Every node that is reached is expanded somewhere. -/
theorem Expands.exists_of_reaches
    (hexpands : g.Expands limit [(g.root, [])] [] trace) (hshallow : g.IsShallow limit)
    (hn : g.Reaches g.root l n) :
    ∃ m, (n, m) ∈ trace := by
  have hfound {n : Nat} (hmet : n ∈ [] ∨ n ∈ trace.map Prod.fst) : ∃ m, (n, m) ∈ trace := by
    obtain ⟨⟨_, m⟩, hm, rfl⟩ := List.mem_map.mp (hmet.resolve_left List.not_mem_nil)
    exact ⟨m, hm⟩
  have hroot : ∀ e ∈ [(g.root, ([] : Location))], g.Reaches g.root e.2 e.1 :=
    fun e he => List.mem_singleton.mp he ▸ .here
  induction l using List.reverseRecOn generalizing n with
  | nil =>
      cases reaches_nil_iff.mp hn
      exact hfound (hexpands.meets (e := (g.root, [])) (.inl (List.mem_singleton_self _))
        (hshallow _ _ hn))
  | append_singleton l s ih =>
      obtain ⟨mid, hmid, hs⟩ := reaches_snoc_iff.mp hn
      obtain ⟨m, hm⟩ := ih hmid
      have hbelow : (n, m ++ [s]) ∈ g.under mid m := mem_under_iff.mpr ⟨s, hs, rfl⟩
      have hreached := reaches_of_mem_under (hexpands.reaches hroot hm).1 hbelow
      exact hfound (hexpands.meets (.inr ⟨_, hm, hbelow⟩) (hshallow _ _ hreached))

/-- What is below a node is recorded under the last location of the node in the document, and
under none of the others. -/
theorem recorded_at_last_location
    (hdistinct : g.HasDistinctSteps) (hshallow : g.IsShallow limit)
    (hn : ∃ l, g.Reaches g.root l n) :
    ∃ l, g.Reaches g.root l n ∧ (∀ m, g.Reaches g.root m n → m ≠ l → g.Earlier g.root m l) ∧
      (∀ s c, (s, c) ∈ g.steps n →
        (g.positions limit).placeOf? (l ++ [s]) = some (g.node c).start) ∧
      ∀ m, g.Reaches g.root m n → m ≠ l → ∀ s c, (s, c) ∈ g.steps n →
        (g.positions limit).placeOf? (m ++ [s]) = none := by
  obtain ⟨l₀, hl₀⟩ := hn
  obtain ⟨trace, hexpands⟩ := exists_expands g limit [(g.root, [])] []
  obtain ⟨l, hl⟩ := hexpands.exists_of_reaches hshallow hl₀
  have hroot : ∀ e ∈ [(g.root, ([] : Location))], g.Reaches g.root e.2 e.1 :=
    fun e he => List.mem_singleton.mp he ▸ .here
  have hreached : g.Reaches g.root l n := (hexpands.reaches hroot hl).1
  refine ⟨l, hreached, fun m hm hne => ?_, fun s c hs => ?_, fun m hm hne s c hs => ?_⟩
  · exact (hexpands.last (goesBack_start g) hdistinct hshallow hl hm).resolve_left hne
  · have hrecord : HasRecord (g.positions limit) (l ++ [s]) :=
      hexpands.hasRecord_iff.mpr ⟨n, c, hl, hs⟩
    obtain ⟨place, hplace⟩ := Option.isSome_iff_exists.mp hrecord
    obtain ⟨_, hwalks⟩ := exists_walks_positions g limit
    obtain ⟨c', hc', rfl⟩ := hwalks.starts _ place hplace
    have hc : g.Reaches g.root (l ++ [s]) c := reaches_snoc_iff.mpr ⟨n, hreached, hs⟩
    rw [hplace, hdistinct.node_unique hc hc']
  · refine Option.not_isSome_iff_eq_none.mp fun hrecord => hne ?_
    obtain ⟨n', c', hn', -⟩ := hexpands.hasRecord_iff.mp hrecord
    have hsame : n' = n := hdistinct.node_unique (hexpands.reaches hroot hn').1 hm
    subst hsame
    exact congrArg Prod.snd (List.inj_on_of_nodup_map hexpands.nodup hn' hl rfl)

/-- Where steps go down, locations are no longer than the nodes are high. -/
theorem isShallow_of_height
    (height : Nat → Nat) (hroot : (height g.root : Int) ≤ limit)
    (hdown : ∀ id < g.nodes.size, ∀ s ∈ g.steps id, height s.2 < height id) :
    g.IsShallow limit := by
  have hlength {id n : Nat} {l : Location} (hn : g.Reaches id l n) : l.length ≤ height id := by
    induction hn with
    | here => exact Nat.zero_le _
    | @step id s mid l n hs _ ih =>
        by_cases hid : id < g.nodes.size
        · have hless : height mid < height id := hdown id hid (s, mid) hs
          rw [List.length_cons]
          omega
        · rw [steps_eq_nil_of_le (not_lt.mp hid)] at hs
          cases hs
  intro l n hn
  have hle := hlength hn
  omega

theorem hasDistinctSteps_of_numbered
    (hnodup : ∀ id < g.nodes.size, ((g.steps id).map Prod.fst).Nodup) :
    g.HasDistinctSteps := by
  intro id
  by_cases hid : id < g.nodes.size
  · exact hnodup id hid
  · rw [steps_eq_nil_of_le (not_lt.mp hid)]
    exact List.nodup_nil

/-- One mapping stands below `a` and, as an alias, below `b`. -/
def aliased : Input := .text "a: &x \x7bk: 1\x7d\nb: *x\n".toList

def aliasedGraph : Graph where
  nodes := #[
    ⟨.map, ⟨0, 0⟩, .mapping [(1, 2), (5, 2)]⟩,
    ⟨.str, ⟨0, 0⟩, .scalar "a"⟩,
    ⟨.map, ⟨0, 3⟩, .mapping [(3, 4)]⟩,
    ⟨.str, ⟨0, 7⟩, .scalar "k"⟩,
    ⟨.int, ⟨0, 10⟩, .scalar "1"⟩,
    ⟨.str, ⟨1, 0⟩, .scalar "b"⟩]
  root := 0

theorem graph_aliased : Reading.graph .strict aliased = .ok (some aliasedGraph) :=
  eq_ok_of_toOption (by decide +kernel)

theorem hasDistinctSteps_aliased : aliasedGraph.HasDistinctSteps :=
  hasDistinctSteps_of_numbered (by decide)

theorem isShallow_aliased : aliasedGraph.IsShallow 32 :=
  isShallow_of_height (fun id => if id = 0 then 2 else if id = 2 then 1 else 0) (by decide)
    (by decide)

theorem reaches_aliased :
    aliasedGraph.Reaches 0 [.name "a"] 2 ∧ aliasedGraph.Reaches 0 [.name "b"] 2 ∧
      aliasedGraph.Earlier 0 [.name "a"] [.name "b"] :=
  ⟨.step (by decide) .here, .step (by decide) .here,
    .across (show 0 < 1 by decide) (by decide) (by decide)⟩

theorem recorded_at_last_location_aliased :
    aliasedGraph.HasDistinctSteps ∧ aliasedGraph.IsShallow 32 ∧
      aliasedGraph.Reaches aliasedGraph.root [.name "a"] 2 ∧
        ∃ l, aliasedGraph.Reaches aliasedGraph.root l 2 ∧
          (∀ m, aliasedGraph.Reaches aliasedGraph.root m 2 → m ≠ l →
            aliasedGraph.Earlier aliasedGraph.root m l) ∧
          (∀ s c, (s, c) ∈ aliasedGraph.steps 2 →
            (aliasedGraph.positions 32).placeOf? (l ++ [s]) = some (aliasedGraph.node c).start) ∧
          ∀ m, aliasedGraph.Reaches aliasedGraph.root m 2 → m ≠ l →
            ∀ s c, (s, c) ∈ aliasedGraph.steps 2 →
              (aliasedGraph.positions 32).placeOf? (m ++ [s]) = none :=
  ⟨hasDistinctSteps_aliased, isShallow_aliased, reaches_aliased.1,
    recorded_at_last_location hasDistinctSteps_aliased isShallow_aliased
      ⟨[.name "a"], reaches_aliased.1⟩⟩

/-- The entry of the shared mapping has a position under the alias, but none under the first
location of the mapping, where it is written. -/
theorem exists_unrecorded_at_first_location :
    ∃ g reading n l m s c, Reading.graph .strict aliased = .ok (some g) ∧
      Reading.ofInput .strict 32 aliased = .ok reading ∧ g.HasDistinctSteps ∧ g.IsShallow 32 ∧
      g.Reaches g.root l n ∧ g.Reaches g.root m n ∧ g.Earlier g.root l m ∧ (s, c) ∈ g.steps n ∧
      reading.positions.placeOf? (l ++ [s]) = none ∧
      reading.positions.placeOf? (m ++ [s]) = some (g.node c).start := by
  have hread : (Reading.ofInput .strict 32 aliased).toOption.any (fun reading =>
      reading.positions.placeOf? [.name "a", .name "k"] = none ∧
      reading.positions.placeOf? [.name "b", .name "k"] = some ⟨0, 10⟩) = true := by
    decide +kernel
  obtain ⟨reading, hreading, hplaces⟩ := exists_eq_ok_of_any hread
  obtain ⟨hfirst, hlast⟩ := of_decide_eq_true hplaces
  exact ⟨aliasedGraph, reading, 2, [.name "a"], [.name "b"], .name "k", 4, graph_aliased, hreading,
    hasDistinctSteps_aliased, isShallow_aliased, reaches_aliased.1, reaches_aliased.2.1,
    reaches_aliased.2.2, by decide, hfirst, hlast⟩

end Wireframe.Yaml.Graph
