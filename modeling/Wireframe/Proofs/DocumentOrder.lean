import Mathlib.Tactic
import Wireframe.Proofs.FindingOrder
import Wireframe.Proofs.PlacedDiagnostics

/-!
# Order of diagnostics

The nodes of a text without aliases stand in the order of the tree: a node starts no later than
what is below it, and what is below a node starts no later than what is below the nodes that are
written after it.  So the findings that come in the order of their nodes are reported in the
order of their places.  They come in that order where the document is arranged in the order in
which the rules look at it, and in others they need not.
-/

namespace Wireframe

open Yaml

/-! ## Places of nodes -/

namespace Yaml.Graph

variable {g : Graph} {id n k : Nat} {s t : Step} {l m : Location}

/-- All that is reached from the first node starts no later than all that is reached from the
second. -/
def Precedes (g : Graph) (a b : Nat) : Prop :=
  ∀ l m n k, g.Reaches a l n → g.Reaches b m k → (g.node n).start ≤ (g.node k).start

/-- What is below the node stands behind its start, in its order. -/
def IsSpread (g : Graph) (id : Nat) : Prop :=
  ∃ first q, Draft.Spans g.nodes first (g.node id).start (g.node id).content.below q

theorem spans_reaches
    {first : Nat} {p q : Position} {ids : List Nat} (hspans : Draft.Spans g.nodes first p ids q)
    (hid : id ∈ ids) (hn : g.Reaches id l n) :
    p ≤ (g.node n).start ∧ (g.node n).start ≤ q ∧ g.IsSpread n := by
  induction hspans generalizing id l with
  | nil => cases hid
  | cons _ _ hstart hbelow hrest ihbelow ihrest =>
      rcases List.mem_cons.mp hid with rfl | hmem
      · cases hn with
        | here => exact ⟨hstart, hbelow.le.trans hrest.le, _, _, hbelow⟩
        | step hstep hlast =>
            obtain ⟨hlow, hhigh, hspread⟩ := ihbelow (mem_below_of_mem_steps hstep) hlast
            exact ⟨hstart.trans hlow, hhigh.trans hrest.le, hspread⟩
      · obtain ⟨hlow, hhigh, hspread⟩ := ihrest hmem hn
        exact ⟨(hstart.trans hbelow.le).trans hlow, hhigh, hspread⟩

theorem pairwise_precedes_of_spans
    {first : Nat} {p q : Position} {ids : List Nat} (hspans : Draft.Spans g.nodes first p ids q) :
    ids.Pairwise g.Precedes := by
  induction hspans with
  | nil => exact .nil
  | cons hfirst hsize hstart hbelow hrest _ ihrest =>
      refine List.pairwise_cons.mpr ⟨fun b hb l m n k hn hk => ?_, ihrest⟩
      have hhead := Draft.Spans.cons hfirst hsize hstart hbelow (.nil le_rfl)
      exact (spans_reaches hhead List.mem_cons_self hn).2.1.trans (spans_reaches hrest hb hk).1

namespace IsSpread

theorem step (hspread : g.IsSpread id) (hstep : (s, n) ∈ g.steps id) : g.IsSpread n := by
  obtain ⟨first, q, hspans⟩ := hspread
  exact (spans_reaches hspans (mem_below_of_mem_steps hstep) .here).2.2

theorem start_le (hspread : g.IsSpread id) (hn : g.Reaches id l n) :
    (g.node id).start ≤ (g.node n).start := by
  obtain ⟨first, q, hspans⟩ := hspread
  cases hn with
  | here => exact le_rfl
  | step hstep hrest => exact (spans_reaches hspans (mem_below_of_mem_steps hstep) hrest).1

theorem pairwise_precedes (hspread : g.IsSpread id) :
    (g.node id).content.below.Pairwise g.Precedes := by
  obtain ⟨first, q, hspans⟩ := hspread
  exact pairwise_precedes_of_spans hspans

/-- The values of a mapping stand in the order of its entries. -/
theorem precedes_of_entries
    (hspread : g.IsSpread id) {a b : Nat × Nat} (hpair : [a, b].Sublist (g.entries id)) :
    g.Precedes a.2 b.2 := by
  have hbelow : (g.node id).content.below = (g.entries id).flatMap fun e => [e.1, e.2] := by
    cases hcontent : (g.node id).content with
    | mapping entries => simp [Graph.entries, hcontent, Content.entries, Content.below]
    | _ =>
        rw [Graph.entries, hcontent] at hpair
        cases hpair
  have hordered := hspread.pairwise_precedes
  rw [hbelow, List.pairwise_flatMap] at hordered
  exact List.pairwise_pair.mp (hordered.2.sublist hpair) a.2 (by simp) b.2 (by simp)

/-- The items of a sequence stand in their order. -/
theorem precedes_of_items
    (hspread : g.IsSpread id) {items : List Nat}
    (hcontent : (g.node id).content = .sequence items) {i j : Nat} (hij : i < j)
    (hn : items[i]? = some n) (hk : items[j]? = some k) :
    g.Precedes n k := by
  have hordered := hspread.pairwise_precedes
  rw [hcontent] at hordered
  obtain ⟨hi, rfl⟩ := List.getElem?_eq_some_iff.mp hn
  obtain ⟨hj, rfl⟩ := List.getElem?_eq_some_iff.mp hk
  exact List.pairwise_iff_getElem.mp hordered i j hi hj hij

end IsSpread

end Yaml.Graph

/-- Without aliases, the nodes of a document stand in the order of its lexemes. -/
theorem Yaml.Reading.isSpread_of_graph
    {dialect : Dialect} {input : Input} {g : Graph}
    (hnoAlias : ∀ source, Source.ofInput input = .ok source →
      (Lexemes.ofSource source).HasNoAlias)
    (hgraph : Reading.graph dialect input = .ok (some g)) :
    g.IsSpread g.root := by
  obtain ⟨d, d', q, -, hnodes, hleaves⟩ := Reading.exists_leaves_of_graph hnoAlias hgraph
  have hspans := hleaves.spans
  rw [hnodes] at hspans
  exact (Graph.spans_reaches hspans List.mem_cons_self .here).2.2

/-! ## Order of the tree and of the graph -/

namespace Yaml

variable {g : Graph} {site : Site} {id n k : Nat}

/-- Steps that lead to parts in the order of the tree lead to nodes in the order of the graph. -/
theorem Graph.IsSpelt.precedes_of_earlier
    (hspelt : g.IsSpelt) (hfilled : Builder.Filled g Builder.Idle site)
    (hpending : site.pending = []) {tree : SharedTree}
    (hcontainers : site.containers = tree.containers)
    (hpart : site.part? id = some (.container id)) (hspread : g.IsSpread id) {fuel : Nat}
    {path : List (Option Nat)} {s t : Step}
    (hearlier : (tree.unfold fuel path (.container id)).Earlier s t) :
    ∃ n k, (s, n) ∈ g.steps id ∧ (t, k) ∈ g.steps id ∧ g.Precedes n k := by
  rcases hspelt.unfold_cases hfilled hpending hcontainers hpart fuel path with
    ⟨es, fuel', path', hmade, hunfold⟩ | ⟨items, parts, fuel', path', hitems, hmade, hunfold⟩ |
    ⟨i, hunfold⟩ | ⟨keys, hunfold⟩ <;>
    rw [hunfold] at hearlier
  · cases hearlier with
    | item hvalues => cases hvalues
    | entry hpair hs ht =>
        obtain ⟨xs, hxs, hparts⟩ := List.sublist_map_iff.mp hpair
        obtain ⟨ds, hds, hdone⟩ := exists_sublist_of_forall₂ hmade hxs
        obtain ⟨x, xs, rfl, rfl, hrest⟩ := List.map_eq_cons_iff.mp hparts.symm
        obtain ⟨y, ys, rfl, rfl, hnone⟩ := List.map_eq_cons_iff.mp hrest
        obtain rfl := List.map_eq_nil_iff.mp hnone
        obtain _ | ⟨hfirst, _ | ⟨hsecond, _ | _⟩⟩ := hdone
        cases hs
        cases ht
        exact ⟨_, _,
          hspelt.mem_steps_entry hfilled.own (hds.subset List.mem_cons_self) hfirst,
          hspelt.mem_steps_entry hfilled.own (hds.subset (by simp)) hsecond,
          hspread.precedes_of_entries hds⟩
  · cases hearlier with
    | item hvalues hij hj =>
        cases hvalues
        rw [List.length_map, ← hmade.length_eq] at hj
        have hi := hij.trans hj
        exact ⟨_, _,
          (mem_steps_sequence hitems).mpr ⟨_, List.getElem?_eq_getElem hi, rfl⟩,
          (mem_steps_sequence hitems).mpr ⟨_, List.getElem?_eq_getElem hj, rfl⟩,
          hspread.precedes_of_items hitems hij (List.getElem?_eq_getElem hi)
            (List.getElem?_eq_getElem hj)⟩
  · cases hearlier with
    | item hvalues => cases hvalues
  · cases hearlier with
    | item hvalues => cases hvalues

/-- What comes before something else in the tree does not start behind it. -/
theorem Graph.IsSpelt.start_le_of_before
    (hspelt : g.IsSpelt) (hfilled : Builder.Filled g Builder.Idle site)
    (hpending : site.pending = []) {tree : SharedTree}
    (hcontainers : site.containers = tree.containers) {part : Part}
    (hpart : site.part? id = some part) (hspread : g.IsSpread id) {fuel : Nat}
    {path : List (Option Nat)} {l m : Location}
    (hbefore : (tree.unfold fuel path part).Before l m) (hn : g.Reaches id l n)
    (hk : g.Reaches id m k) :
    (g.node n).start ≤ (g.node k).start := by
  generalize hv : tree.unfold fuel path part = v at hbefore
  -- Each step is the only one with its name, so it leads to the node that the location reaches.
  have hnode {id a b : Nat} {s : Step} (ha : (s, a) ∈ g.steps id) (hb : (s, b) ∈ g.steps id) :
      a = b := hspelt.distinct.node_unique (.step ha .here) (.step hb .here)
  have hcontainer {id : Nat} {part : Part} (hpart : site.part? id = some part) {fuel : Nat}
      {path : List (Option Nat)} :
      part = .container id ∨ ∃ x, tree.unfold fuel path part = .scalar x := by
    rcases hfilled.own id part hpart with rfl | ⟨x, rfl, -⟩
    · exact .inl rfl
    · exact .inr ⟨x, by rw [SharedTree.unfold]⟩
  induction hbefore generalizing id part fuel path with
  | around =>
      cases reaches_nil_iff.mp hn
      exact hspread.start_le hk
  | within hchild _ ih =>
      subst hv
      rcases hcontainer hpart with rfl | ⟨x, hscalar⟩
      · obtain ⟨mid, next, fuel, path, hstep, hmid, rfl⟩ :=
          hspelt.exists_step hfilled hpending hcontainers hpart hchild
        cases hn with
        | step hfirst hrest =>
            cases hk with
            | step hfirst' hrest' =>
                cases hnode hstep hfirst
                cases hnode hstep hfirst'
                exact ih hmid (hspread.step hstep) hrest hrest' rfl
      · rw [hscalar] at hchild
        cases hchild with
        | item hitems => cases hitems
  | across hearlier =>
      subst hv
      rcases hcontainer hpart with rfl | ⟨x, hscalar⟩
      · obtain ⟨a, b, ha, hb, hprecedes⟩ :=
          hspelt.precedes_of_earlier hfilled hpending hcontainers hpart hspread hearlier
        cases hn with
        | step hfirst hrest =>
            cases hk with
            | step hfirst' hrest' =>
                cases hnode ha hfirst
                cases hnode hb hfirst'
                exact hprecedes _ _ _ _ hrest hrest'
      · rw [hscalar] at hearlier
        cases hearlier with
        | item hitems => cases hitems

end Yaml

/-! ## Order of the report -/

/-- The place of a diagnostic in the text, if it has one. -/
def Diagnostic.place? (d : Diagnostic) : Option Position :=
  match d.line, d.column with
  | some line, some column => some ⟨line, column⟩
  | _, _ => none

theorem Finding.place?_diagnose (positions : Positions) (f : Finding) :
    (f.diagnose positions).place? = positions.placeOf? f.location := by
  unfold diagnose Diagnostic.located Diagnostic.place?
  cases positions.placeOf? f.location <;> rfl

namespace Verdict

/-- A report comes in the order of its places where the findings do. -/
theorem places_ordered_of_findings
    {settings : Settings} {reading : Yaml.Reading}
    (hordered : ∀ fs, reading.tree.toValue.findings settings = .ok fs → fs.Pairwise fun e f =>
      ∀ p q, reading.positions.placeOf? e.location = some p →
        reading.positions.placeOf? f.location = some q → p ≤ q)
    {ds : List Diagnostic} (hcheck : check settings reading = .ok ds) :
    (ds.filterMap Diagnostic.place?).Pairwise (· ≤ ·) := by
  rw [List.pairwise_filterMap]
  obtain ⟨fs, rfl, rfl | hfindings⟩ := exists_findings_of_check hcheck
  · exact List.pairwise_singleton _ _
  · refine List.pairwise_map.mpr ((hordered fs hfindings).imp fun {e f} hle p hp q hq => ?_)
    rw [Finding.place?_diagnose] at hp hq
    exact hle p q hp hq

/-- What is found in an arranged tree that is made of a graph is indexed in the order of the
findings. -/
theorem findings_places_ordered
    {settings : Settings} {g : Graph} {tree : SharedTree} (hspelt : g.IsSpelt)
    (htree : g.IsTree) (hspread : g.IsSpread g.root)
    (hbuild : SharedTree.ofGraph .strict g = .ok tree)
    (harranged : tree.toValue.OnEntries Entries.IsArranged) {fs : List Finding}
    (hfindings : tree.toValue.findings settings = .ok fs) :
    fs.Pairwise fun e f => ∀ p q,
      (g.positions settings.maxDepth).placeOf? e.location = some p →
        (g.positions settings.maxDepth).placeOf? f.location = some q → p ≤ q := by
  obtain ⟨site, -, hcontainers, hpart, hfills, hpending⟩ :=
    SharedTree.exists_site_of_ofGraph rfl hbuild
  have hplaced {f : Finding} (hf : f ∈ fs) :
      ∃ n, g.Reaches g.root f.location n ∧
        (g.positions settings.maxDepth).placeOf? f.location = some (g.node n).start := by
    obtain ⟨x, hx⟩ := Value.exists_at_of_mem_findings hfindings hf
    obtain ⟨n, hn⟩ := hspelt.exists_reaches hfills.filled hpending hcontainers hpart hx
    refine ⟨n, hn, Graph.placeOf?_positions htree hspelt.distinct hn ?_⟩
    exact (Value.length_le_of_mem_findings hfindings hf).imp_right fun hle => by omega
  refine (Value.findings_ordered harranged hfindings).imp_of_mem
    fun {e f} he hf hbefore p q hp hq => ?_
  obtain ⟨n, hn, hfirst⟩ := hplaced he
  obtain ⟨k, hk, hsecond⟩ := hplaced hf
  cases hfirst.symm.trans hp
  cases hsecond.symm.trans hq
  exact hspelt.start_le_of_before hfills.filled hpending hcontainers hpart hspread hbefore hn hk

/-- What is reported of a text without aliases and merge keys, whose keys are read as they are
written and which is arranged in the order of the rules, comes in the order of its places. -/
theorem places_ordered_of_isArranged
    {settings : Settings} {input : Input} {reading : Yaml.Reading}
    (hnoAlias : ∀ source, Source.ofInput input = .ok source →
      (Lexemes.ofSource source).HasNoAlias)
    (hspelt : ∀ g, Yaml.Reading.graph .strict input = .ok (some g) → g.IsSpelt)
    (hread : Yaml.Reading.ofInput .strict settings.maxDepth input = .ok reading)
    (harranged : reading.tree.toValue.OnEntries Entries.IsArranged) {ds : List Diagnostic}
    (hcheck : check settings reading = .ok ds) :
    (ds.filterMap Diagnostic.place?).Pairwise (· ≤ ·) := by
  refine places_ordered_of_findings (fun fs hfindings => ?_) hcheck
  rcases hgraph : Yaml.Reading.graph .strict input with e | _ | g
  · rw [Yaml.Reading.ofInput_of_error hgraph] at hread
    cases hread
  · rw [Yaml.Reading.ofInput_of_none hgraph] at hread
    cases hread
    exact List.pairwise_of_forall fun _ _ _ _ => nofun
  · rw [Yaml.Reading.ofInput_of_graph hgraph] at hread
    cases hbuild : SharedTree.ofGraph .strict g with
    | error e =>
        rw [hbuild] at hread
        cases hread
    | ok tree =>
        rw [hbuild] at hread
        cases hread
        exact findings_places_ordered (hspelt g hgraph)
          (Yaml.Reading.isTree_of_graph hnoAlias hgraph)
          (Yaml.Reading.isSpread_of_graph hnoAlias hgraph) hbuild harranged hfindings

/-- A screen without a title. -/
def untitledHome : String := "view: \x7bhome: \x7b\x7d\x7d\n"

/-- A number where a collection of components belongs. -/
def numberedComponents : String := "common_components: 3\n"

def untitledHomeGraph : Graph where
  nodes := #[
    ⟨.map, ⟨0, 0⟩, .mapping [(1, 2), (5, 6)]⟩,
    ⟨.str, ⟨0, 0⟩, .scalar "view"⟩,
    ⟨.map, ⟨0, 6⟩, .mapping [(3, 4)]⟩,
    ⟨.str, ⟨0, 7⟩, .scalar "home"⟩,
    ⟨.map, ⟨0, 13⟩, .mapping []⟩,
    ⟨.str, ⟨1, 0⟩, .scalar "common_components"⟩,
    ⟨.int, ⟨1, 19⟩, .scalar "3"⟩]
  root := 0

theorem isSpelt_untitledHome : untitledHomeGraph.IsSpelt where
  unmerged := Graph.forall_entries (by decide +kernel)
  keys := by
    have hentries := Graph.forall_entries (g := untitledHomeGraph)
      (P := fun e => (untitledHomeGraph.node e.1).tag = .str ∧
        ∃ text ∈ ["view", "home", "common_components"],
          (untitledHomeGraph.node e.1).content = .scalar text) (by decide +kernel)
    intro id e he
    obtain ⟨htag, text, -, htext⟩ := hentries id e he
    refine ⟨text, htext, fun x hx => ?_⟩
    rw [hx.eq_text htag htext]
    rfl
  distinct := Graph.forall_entryLists .nil (by decide +kernel)
  noPairs id := by
    by_cases hid : id < 7
    · revert id
      decide +kernel
    · rw [Graph.node_of_le (Nat.not_lt.mp hid)]
      exact ⟨nofun, nofun⟩

/-- The screens are written before the components, and both are reported in this order. -/
theorem places_ordered_untitledHome :
    ∃ reading ds,
      Yaml.Reading.ofInput .strict Settings.default.maxDepth
          (.text (untitledHome ++ numberedComponents).toList) = .ok reading ∧
        check .default reading = .ok ds ∧
        ds.filterMap Diagnostic.place? = [⟨0, 13⟩, ⟨1, 19⟩] ∧
        (ds.filterMap Diagnostic.place?).Pairwise (· ≤ ·) := by
  obtain ⟨reading, hread, hfound⟩ : ∃ reading,
      Yaml.Reading.ofInput .strict Settings.default.maxDepth
          (.text (untitledHome ++ numberedComponents).toList) = .ok reading ∧
        decide (reading.tree.toValue.OnEntries Entries.IsArranged ∧
          ((check .default reading).toOption.any fun ds =>
            ds.filterMap Diagnostic.place? = [⟨0, 13⟩, ⟨1, 19⟩]) = true) = true :=
    exists_eq_ok_of_any (by decide +kernel)
  obtain ⟨harranged, hchecked⟩ := of_decide_eq_true hfound
  obtain ⟨ds, hcheck, hplaces⟩ := exists_eq_ok_of_any hchecked
  have hgraph : Yaml.Reading.graph .strict
      (.text (untitledHome ++ numberedComponents).toList) = .ok (some untitledHomeGraph) :=
    eq_ok_of_toOption (by decide +kernel)
  obtain ⟨source, hsource, hnoAlias⟩ : ∃ source,
      Source.ofInput (.text (untitledHome ++ numberedComponents).toList) = .ok source ∧
        decide (Lexemes.ofSource source).HasNoAlias = true :=
    exists_eq_ok_of_any (by decide +kernel)
  refine ⟨reading, ds, hread, hcheck, of_decide_eq_true hplaces,
    places_ordered_of_isArranged (fun other hother => ?_) (fun g hg => ?_) hread harranged
      hcheck⟩
  · cases hsource.symm.trans hother
    exact of_decide_eq_true hnoAlias
  · cases hgraph.symm.trans hg
    exact isSpelt_untitledHome

/-- The components are written before the screens, and are reported after them. -/
theorem exists_places_not_ordered :
    ∃ source reading ds,
      Source.ofInput (.text (numberedComponents ++ untitledHome).toList) = .ok source ∧
      (Lexemes.ofSource source).HasNoAlias ∧
      Yaml.Reading.ofInput .strict Settings.default.maxDepth
          (.text (numberedComponents ++ untitledHome).toList) = .ok reading ∧
        check .default reading = .ok ds ∧
        ds.map (fun d => (d.path, d.place?)) =
          [("view.home", some ⟨1, 13⟩), ("common_components", some ⟨0, 19⟩)] ∧
        ¬ (ds.filterMap Diagnostic.place?).Pairwise (· ≤ ·) := by
  obtain ⟨source, hsource, hnoAlias⟩ : ∃ source,
      Source.ofInput (.text (numberedComponents ++ untitledHome).toList) = .ok source ∧
        decide (Lexemes.ofSource source).HasNoAlias = true :=
    exists_eq_ok_of_any (by decide +kernel)
  obtain ⟨reading, hread, hfound⟩ : ∃ reading,
      Yaml.Reading.ofInput .strict Settings.default.maxDepth
          (.text (numberedComponents ++ untitledHome).toList) = .ok reading ∧
        ((check .default reading).toOption.any fun ds =>
          ds.map (fun d => (d.path, d.place?)) =
            [("view.home", some ⟨1, 13⟩), ("common_components", some ⟨0, 19⟩)]) = true :=
    exists_eq_ok_of_any (by decide +kernel)
  obtain ⟨ds, hcheck, hplaced⟩ := exists_eq_ok_of_any hfound
  have hreport := of_decide_eq_true hplaced
  refine ⟨source, reading, ds, hsource, of_decide_eq_true hnoAlias, hread, hcheck, hreport, ?_⟩
  have hplaces : ds.filterMap Diagnostic.place? = [⟨1, 13⟩, ⟨0, 19⟩] := by
    have hsecond := congrArg (List.filterMap Prod.snd) hreport
    rwa [List.filterMap_map] at hsecond
  rw [hplaces, List.pairwise_pair, Position.le_iff]
  decide

end Verdict

end Wireframe
