import Mathlib.Tactic
import Wireframe.Proofs.IndexedNodes

/-!
# The walk that records positions

A node that is taken from the work list is passed over if it was expanded before or lies too
deep.  Otherwise it is expanded: what is below it is recorded and put on the work list.  The
steps of a node that is expanded are ahead no longer, so the walk comes to an end even if nodes
are shared or below themselves.  The nodes that are expanded, in turn, tell all that is recorded.
-/

namespace Wireframe.Yaml.Graph

/-- The nodes directly below a node at a location, each with its own location. -/
def under (g : Graph) (id : Nat) (l : Location) : List (Nat × Location) :=
  (g.steps id).map fun s => (s.2, l ++ [s.1])

/-- The rounds of the walk from a work list until it is empty, with the nodes that are expanded
in them. -/
inductive Expands (g : Graph) (limit : Int) :
    List (Nat × Location) → List Nat → List (Nat × Location) → Prop
  | done {visited} : Expands g limit [] visited []
  | pass {id l work visited trace} (hskip : id ∈ visited ∨ limit < l.length)
      (hrest : Expands g limit work visited trace) :
      Expands g limit ((id, l) :: work) visited trace
  | expand {id l work visited trace} (hnew : id ∉ visited) (hlimit : (l.length : Int) ≤ limit)
      (hrest : Expands g limit ((g.under id l).reverse ++ work) (id :: visited) trace) :
      Expands g limit ((id, l) :: work) visited ((id, l) :: trace)

/-- Nodes with their locations are recorded one after the other. -/
def recordAll (g : Graph) (nodes : List (Nat × Location)) (positions : Positions) : Positions :=
  nodes.foldl (fun positions e => positions.record e.2 (g.node e.1).start) positions

/-- What is recorded when nodes are expanded one after the other. -/
def underAll (g : Graph) (trace : List (Nat × Location)) : List (Nat × Location) :=
  trace.flatMap fun e => g.under e.1 e.2

/-- No node of the graph is reached by two locations. -/
def IsUnshared (g : Graph) : Prop :=
  ∀ l m n, g.Reaches g.root l n → g.Reaches g.root m n → l = m

variable {g : Graph} {limit : Int} {work : List (Nat × Location)} {visited : List Nat}
  {trace : List (Nat × Location)} {id n : Nat} {s : Step} {l m : Location}

theorem mem_under_iff {e : Nat × Location} :
    e ∈ g.under id l ↔ ∃ s, (s, e.1) ∈ g.steps id ∧ e.2 = l ++ [s] := by
  unfold under
  rw [List.mem_map]
  constructor
  · rintro ⟨s, hs, rfl⟩
    exact ⟨s.1, hs, rfl⟩
  · rintro ⟨s, hs, hl⟩
    exact ⟨(s, e.1), hs, Prod.ext rfl hl.symm⟩

theorem reaches_of_mem_under
    (hid : g.Reaches g.root l id) {e : Nat × Location} (he : e ∈ g.under id l) :
    g.Reaches g.root e.2 e.1 := by
  obtain ⟨s, hs, hl⟩ := mem_under_iff.mp he
  exact hl ▸ reaches_snoc_iff.mpr ⟨id, hid, hs⟩

/-! ## Termination -/

/-- From any work list the walk comes to an end. -/
theorem exists_expands
    (g : Graph) (limit : Int) (work : List (Nat × Location)) (visited : List Nat) :
    ∃ trace, g.Expands limit work visited trace := by
  -- A round takes one node from the work list, and adds no more than its steps ahead.
  generalize hmeasure : work.length + g.stepsAhead visited = measure
  induction measure using Nat.strong_induction_on generalizing work visited with
  | _ measure ih =>
      cases work with
      | nil => exact ⟨[], .done⟩
      | cons e work =>
          obtain ⟨id, l⟩ := e
          rw [List.length_cons] at hmeasure
          by_cases hskip : id ∈ visited ∨ limit < l.length
          · obtain ⟨trace, htrace⟩ := ih _ (by omega) work visited rfl
            exact ⟨trace, .pass hskip htrace⟩
          · rw [not_or] at hskip
            have hahead := stepsAhead_cons (g := g) hskip.1
            have hlength : ((g.under id l).reverse ++ work).length =
                (g.steps id).length + work.length := by simp [under]
            obtain ⟨trace, htrace⟩ :=
              ih _ (by omega) ((g.under id l).reverse ++ work) (id :: visited) rfl
            exact ⟨(id, l) :: trace, .expand hskip.1 (not_lt.mp hskip.2) htrace⟩

theorem underAll_cons (g : Graph) (id : Nat) (l : Location) (trace : List (Nat × Location)) :
    g.underAll ((id, l) :: trace) = g.under id l ++ g.underAll trace :=
  List.flatMap_cons

theorem recordAll_append (g : Graph) (nodes more : List (Nat × Location)) (positions : Positions) :
    g.recordAll (nodes ++ more) positions = g.recordAll more (g.recordAll nodes positions) :=
  List.foldl_append

theorem recordChildren_eq (g : Graph) (l : Location) (id : Nat) (positions : Positions) :
    g.recordChildren l id positions = g.recordAll (g.under id l) positions := by
  unfold recordChildren recordAll under
  rw [List.foldl_map]

/-- With enough fuel the index has what is below the expanded nodes. -/
theorem Expands.index_eq
    (hexpands : g.Expands limit work visited trace) {fuel : Nat}
    (hfuel : work.length + g.stepsAhead visited < fuel) (positions : Positions) :
    g.index limit fuel work visited positions = g.recordAll (g.underAll trace) positions := by
  induction hexpands generalizing fuel positions with
  | done =>
      cases fuel with
      | zero => omega
      | succ fuel => rfl
  | @pass id l work visited trace hskip _ ih =>
      cases fuel with
      | zero => omega
      | succ fuel =>
          rw [List.length_cons] at hfuel
          have hpassed : (visited.contains id || decide (limit < l.length)) = true := by
            simpa using hskip
          rw [index, if_pos hpassed]
          exact ih (by omega) positions
  | @expand id l work visited trace hnew hlimit _ ih =>
      cases fuel with
      | zero => omega
      | succ fuel =>
          rw [List.length_cons] at hfuel
          have htaken : ¬ (visited.contains id || decide (limit < l.length)) = true := by
            simpa using ⟨hnew, hlimit⟩
          have hahead := stepsAhead_cons (g := g) hnew
          have hlength : ((g.under id l).reverse ++ work).length =
              (g.steps id).length + work.length := by simp [under]
          rw [index, if_neg htaken, underAll_cons, recordAll_append, ← recordChildren_eq]
          exact ih (by omega) (g.recordChildren l id positions)

theorem Expands.positions_eq (hexpands : g.Expands limit [(g.root, [])] [] trace) :
    g.positions limit = g.recordAll (g.underAll trace) [([], (g.node g.root).start)] := by
  refine hexpands.index_eq ?_ _
  rw [walkBound_eq, List.length_singleton]
  omega

/-! ## What is expanded -/

theorem Expands.not_mem_visited
    (hexpands : g.Expands limit work visited trace) {e : Nat × Location} (he : e ∈ trace) :
    e.1 ∉ visited := by
  induction hexpands with
  | done => cases he
  | pass _ _ ih => exact ih he
  | expand hnew _ _ ih =>
      rcases List.mem_cons.mp he with rfl | he
      · exact hnew
      · exact fun hvisited => ih he (List.mem_cons_of_mem _ hvisited)

/-- No node is expanded twice. -/
theorem Expands.nodup (hexpands : g.Expands limit work visited trace) :
    (trace.map Prod.fst).Nodup := by
  induction hexpands with
  | done => exact List.nodup_nil
  | pass _ _ ih => exact ih
  | expand _ _ hrest ih =>
      refine List.nodup_cons.mpr ⟨fun hmem => ?_, ih⟩
      obtain ⟨e, he, rfl⟩ := List.mem_map.mp hmem
      exact hrest.not_mem_visited he List.mem_cons_self

/-- A node is expanded at a location that leads to it and is not too deep. -/
theorem Expands.reaches
    (hexpands : g.Expands limit work visited trace)
    (hwork : ∀ e ∈ work, g.Reaches g.root e.2 e.1) {e : Nat × Location} (he : e ∈ trace) :
    g.Reaches g.root e.2 e.1 ∧ (e.2.length : Int) ≤ limit := by
  induction hexpands with
  | done => cases he
  | pass _ _ ih => exact ih (fun e he => hwork e (List.mem_cons_of_mem _ he)) he
  | @expand id l work visited trace _ hlimit _ ih =>
      have hid : g.Reaches g.root l id := hwork (id, l) List.mem_cons_self
      rcases List.mem_cons.mp he with rfl | he
      · exact ⟨hid, hlimit⟩
      · refine ih (fun e he => ?_) he
        rcases List.mem_append.mp he with hbelow | hold
        · exact reaches_of_mem_under hid (List.mem_reverse.mp hbelow)
        · exact hwork e (List.mem_cons_of_mem _ hold)

/-- Nothing is left out: what is on the work list or below an expanded node was expanded before,
or is expanded at some location, or lies too deep. -/
theorem Expands.meets
    (hexpands : g.Expands limit work visited trace) {e : Nat × Location}
    (he : e ∈ work ∨ ∃ t ∈ trace, e ∈ g.under t.1 t.2) (hdepth : (e.2.length : Int) ≤ limit) :
    e.1 ∈ visited ∨ e.1 ∈ trace.map Prod.fst := by
  induction hexpands with
  | done =>
      rcases he with hwork | ⟨t, ht, -⟩
      · cases hwork
      · cases ht
  | @pass id l work visited trace hskip _ ih =>
      rcases he with hwork | hbelow
      · rcases List.mem_cons.mp hwork with rfl | hwork
        · exact .inl (hskip.resolve_right (not_lt.mpr hdepth))
        · exact ih (.inl hwork)
      · exact ih (.inr hbelow)
  | @expand id l work visited trace hnew _ _ ih =>
      have hrest (h : e ∈ (g.under id l).reverse ++ work ∨ ∃ t ∈ trace, e ∈ g.under t.1 t.2) :
          e.1 ∈ visited ∨ e.1 ∈ ((id, l) :: trace).map Prod.fst := by
        rcases ih h with hvisited | hlater
        · rcases List.mem_cons.mp hvisited with hsame | hvisited
          · exact .inr (hsame ▸ List.mem_cons_self)
          · exact .inl hvisited
        · exact .inr (List.mem_cons_of_mem _ hlater)
      rcases he with hwork | ⟨t, ht, hbelow⟩
      · rcases List.mem_cons.mp hwork with rfl | hwork
        · exact .inr List.mem_cons_self
        · exact hrest (.inl (List.mem_append_right _ hwork))
      · rcases List.mem_cons.mp ht with rfl | ht
        · exact hrest (.inl (List.mem_append_left _ (List.mem_reverse.mpr hbelow)))
        · exact hrest (.inr ⟨t, ht, hbelow⟩)

/-- Without shared nodes, all nodes that are not too deep are expanded. -/
theorem Expands.mem_of_isUnshared
    (hexpands : g.Expands limit [(g.root, [])] [] trace) (hunshared : g.IsUnshared)
    (hn : g.Reaches g.root l n) (hdepth : (l.length : Int) ≤ limit) :
    (n, l) ∈ trace := by
  have hfound {n : Nat} {l : Location} (hn : g.Reaches g.root l n)
      (hmet : n ∈ [] ∨ n ∈ trace.map Prod.fst) : (n, l) ∈ trace := by
    obtain ⟨⟨k, m⟩, hk, rfl⟩ := List.mem_map.mp (hmet.resolve_left List.not_mem_nil)
    have hroot : ∀ e ∈ [(g.root, ([] : Location))], g.Reaches g.root e.2 e.1 :=
      fun e he => List.mem_singleton.mp he ▸ .here
    have hm := (hexpands.reaches hroot hk).1
    exact hunshared l m k hn hm ▸ hk
  induction l using List.reverseRecOn generalizing n with
  | nil =>
      cases reaches_nil_iff.mp hn
      exact hfound hn (hexpands.meets (e := (g.root, [])) (.inl (List.mem_singleton_self _)) hdepth)
  | append_singleton l s ih =>
      obtain ⟨mid, hmid, hstep⟩ := reaches_snoc_iff.mp hn
      rw [List.length_append, List.length_singleton] at hdepth
      have habove := ih hmid (by omega)
      refine hfound hn (hexpands.meets (e := (n, l ++ [s])) (.inr ⟨_, habove, ?_⟩) ?_)
      · exact mem_under_iff.mpr ⟨s, hstep, rfl⟩
      · rw [List.length_append, List.length_singleton]
        omega

/-! ## What is recorded -/

theorem mem_record
    {positions : Positions} {start : Position} {x : Location × Position}
    (hx : x ∈ positions.record l start) :
    x ∈ positions ∨ x = (l, start) := by
  unfold Positions.record at hx
  split_ifs at hx
  · exact .inl hx
  · exact (List.mem_append.mp hx).imp_right List.mem_singleton.mp

theorem mem_recordAll
    {nodes : List (Nat × Location)} {positions : Positions} {x : Location × Position}
    (hx : x ∈ g.recordAll nodes positions) :
    x ∈ positions ∨ ∃ e ∈ nodes, x = (e.2, (g.node e.1).start) := by
  unfold recordAll at hx
  induction nodes generalizing positions with
  | nil => exact .inl hx
  | cons e rest ih =>
      rcases ih hx with hfirst | ⟨t, ht, hrest⟩
      · exact (mem_record hfirst).imp_right fun heq => ⟨e, List.mem_cons_self, heq⟩
      · exact .inr ⟨t, List.mem_cons_of_mem _ ht, hrest⟩

theorem HasRecord.recordAll
    {positions : Positions} (hrecord : HasRecord positions l) (nodes : List (Nat × Location)) :
    HasRecord (g.recordAll nodes positions) l := by
  unfold Graph.recordAll
  induction nodes generalizing positions with
  | nil => exact hrecord
  | cons e rest ih => exact ih (hrecord.record _)

theorem hasRecord_recordAll
    {nodes : List (Nat × Location)} {e : Nat × Location} (he : e ∈ nodes)
    (positions : Positions) :
    HasRecord (g.recordAll nodes positions) e.2 := by
  induction nodes generalizing positions with
  | nil => cases he
  | cons t rest ih =>
      rcases List.mem_cons.mp he with rfl | he
      · exact (hasRecord_record positions e.2 _).recordAll rest
      · exact ih he _

theorem HasRecord.exists_mem
    {positions : Positions} (hrecord : HasRecord positions l) :
    ∃ place, (l, place) ∈ positions := by
  unfold HasRecord Positions.placeOf? at hrecord
  rw [Option.isSome_map, List.find?_isSome] at hrecord
  obtain ⟨⟨m, place⟩, hmem, heq⟩ := hrecord
  cases beq_iff_eq.mp heq
  exact ⟨place, hmem⟩

/-- Below the root, a location has a record exactly if it is right below an expanded node. -/
theorem Expands.hasRecord_iff (hexpands : g.Expands limit [(g.root, [])] [] trace) :
    HasRecord (g.positions limit) (l ++ [s]) ↔
      ∃ n c, (n, l) ∈ trace ∧ (s, c) ∈ g.steps n := by
  rw [hexpands.positions_eq]
  constructor
  · intro hrecord
    obtain ⟨place, hmem⟩ := hrecord.exists_mem
    rcases mem_recordAll hmem with hfirst | ⟨⟨c, m⟩, he, heq⟩
    · have hnil := (Prod.mk.inj (List.mem_singleton.mp hfirst)).1
      exact absurd hnil (by simp)
    · cases heq
      obtain ⟨⟨n, k⟩, ht, hbelow⟩ := List.mem_flatMap.mp he
      obtain ⟨s', hs, hl⟩ := mem_under_iff.mp hbelow
      obtain ⟨rfl, hlast⟩ := List.append_inj' hl rfl
      cases hlast
      exact ⟨n, c, ht, hs⟩
  · rintro ⟨n, c, ht, hs⟩
    have hmem : (c, l ++ [s]) ∈ g.underAll trace :=
      List.mem_flatMap.mpr ⟨(n, l), ht, mem_under_iff.mpr ⟨s, hs, rfl⟩⟩
    exact hasRecord_recordAll hmem _

/-! ## The index -/

/-- The walk ends and expands no node twice.  What it records is the start of the node that the
location leads to, which is at most one step longer than the limit, and without shared nodes all
such locations are recorded. -/
theorem positions_are_exact (g : Graph) {limit : Int} (hlimit : 0 ≤ limit) :
    (∃ trace, g.Expands limit [(g.root, [])] [] trace ∧ (trace.map Prod.fst).Nodup ∧
        g.positions limit = g.recordAll (g.underAll trace) [([], (g.node g.root).start)]) ∧
      (∀ l place, (l, place) ∈ g.positions limit → (l.length : Int) ≤ limit + 1 ∧
        ∃ n, g.Reaches g.root l n ∧ place = (g.node n).start) ∧
      (g.IsUnshared → ∀ l, (∃ place, (l, place) ∈ g.positions limit) ↔
        (l.length : Int) ≤ limit + 1 ∧ ∃ n, g.Reaches g.root l n) := by
  obtain ⟨trace, hexpands⟩ := exists_expands g limit [(g.root, [])] []
  have hpositions := hexpands.positions_eq
  have hroot : ∀ e ∈ [(g.root, ([] : Location))], g.Reaches g.root e.2 e.1 :=
    fun e he => List.mem_singleton.mp he ▸ .here
  have hsound (l : Location) (place : Position) (hmem : (l, place) ∈ g.positions limit) :
      (l.length : Int) ≤ limit + 1 ∧ ∃ n, g.Reaches g.root l n ∧ place = (g.node n).start := by
    rw [hpositions] at hmem
    rcases mem_recordAll hmem with hfirst | ⟨e, he, heq⟩
    · cases List.mem_singleton.mp hfirst
      exact ⟨by simp; omega, g.root, .here, rfl⟩
    · cases heq
      obtain ⟨t, ht, hbelow⟩ := List.mem_flatMap.mp he
      obtain ⟨hreached, hdepth⟩ := hexpands.reaches hroot ht
      obtain ⟨s, -, hl⟩ := mem_under_iff.mp hbelow
      refine ⟨?_, e.1, reaches_of_mem_under hreached hbelow, rfl⟩
      rw [hl, List.length_append, List.length_singleton]
      omega
  refine ⟨⟨trace, hexpands, hexpands.nodup, hpositions⟩, hsound, fun hunshared l => ⟨?_, ?_⟩⟩
  · rintro ⟨place, hmem⟩
    obtain ⟨hdepth, n, hn, -⟩ := hsound l place hmem
    exact ⟨hdepth, n, hn⟩
  · rintro ⟨hdepth, n, hn⟩
    apply HasRecord.exists_mem
    rcases List.eq_nil_or_concat l with rfl | ⟨l, s, rfl⟩
    · rw [hpositions]
      have hfirst : HasRecord [([], (g.node g.root).start)] [] := rfl
      exact hfirst.recordAll _
    · rw [List.concat_eq_append] at hdepth hn ⊢
      rw [List.length_append, List.length_singleton] at hdepth
      obtain ⟨mid, hmid, hstep⟩ := reaches_snoc_iff.mp hn
      have habove := hexpands.mem_of_isUnshared hunshared hmid (by omega)
      exact hexpands.hasRecord_iff.mpr ⟨mid, n, habove, hstep⟩

/-- A mapping in a sequence in a mapping. -/
def nestedGraph : Graph where
  nodes := #[
    ⟨.map, ⟨0, 0⟩, .mapping [(1, 2)]⟩,
    ⟨.str, ⟨0, 0⟩, .scalar "rows"⟩,
    ⟨.seq, ⟨0, 6⟩, .sequence [3, 4]⟩,
    ⟨.int, ⟨0, 7⟩, .scalar "1"⟩,
    ⟨.map, ⟨0, 10⟩, .mapping [(5, 6)]⟩,
    ⟨.str, ⟨0, 11⟩, .scalar "x"⟩,
    ⟨.int, ⟨0, 14⟩, .scalar "2"⟩]
  root := 0

/-- A graph is a tree if its numbered nodes are those of a tree. -/
theorem isTree_of_numbered
    (hroot : ∀ id < g.nodes.size, g.root ∉ (g.node id).content.below)
    (hnodup : ∀ id < g.nodes.size, (g.node id).content.below.Nodup)
    (hparent : ∀ a < g.nodes.size, ∀ b < g.nodes.size, ∀ c ∈ (g.node a).content.below,
      c ∈ (g.node b).content.below → a = b) :
    g.IsTree := by
  have hother {id : Nat} (hid : ¬ id < g.nodes.size) : (g.node id).content.below = [] := by
    rw [node_of_le (not_lt.mp hid)]
    rfl
  refine ⟨fun id => ?_, fun id => ?_, fun a b c ha hb => ?_⟩
  · by_cases hid : id < g.nodes.size
    · exact hroot id hid
    · simp [hother hid]
  · by_cases hid : id < g.nodes.size
    · exact hnodup id hid
    · simp [hother hid]
  · by_cases hlt : a < g.nodes.size
    · by_cases hlt' : b < g.nodes.size
      · exact hparent a hlt b hlt' c ha hb
      · simp [hother hlt'] at hb
    · simp [hother hlt] at ha

/-- With a limit of one step the entry of the mapping inside is too deep. -/
theorem positions_are_exact_nested :
    (0 : Int) ≤ 1 ∧ nestedGraph.IsUnshared ∧
      (∀ l, (∃ place, (l, place) ∈ nestedGraph.positions 1) ↔
        (l.length : Int) ≤ 1 + 1 ∧ ∃ n, nestedGraph.Reaches nestedGraph.root l n) ∧
      (nestedGraph.positions 1).map Prod.fst =
        [[], [.name "rows"], [.name "rows", .place 0], [.name "rows", .place 1]] := by
  have htree : nestedGraph.IsTree :=
    isTree_of_numbered (by decide) (by decide) (by decide)
  have hunshared : nestedGraph.IsUnshared := fun l m n hl hm => htree.location_unique hl hm
  exact ⟨by decide, hunshared, (positions_are_exact nestedGraph (by decide)).2.2 hunshared,
    by decide⟩

end Wireframe.Yaml.Graph
