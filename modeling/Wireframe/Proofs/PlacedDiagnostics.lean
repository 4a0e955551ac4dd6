import Mathlib.Tactic
import Wireframe.Proofs.FindingLocations
import Wireframe.Proofs.IndexedNodes
import Wireframe.Proofs.KeptEntries

/-!
# Places of diagnostics

A text without aliases and merge keys, whose keys are read as they are written, is made into a
tree with the locations of its node graph.  No finding is located more than one step deeper
than the containers may be nested, so the index has the node of every finding.
-/

namespace Wireframe

open Yaml

/-! ## Depth of findings -/

namespace Value

variable {v w x : Value} {step : Step} {l : Location} {limit : Int}

/-- What a location leads to is in a container, one step above. -/
theorem At.exists_container
    (hat : v.At Step.Spells (l ++ [step]) x) :
    ∃ y, v.At Step.Spells l y ∧ y.IsContainer := by
  induction l generalizing v with
  | nil =>
      cases hat with
      | child hchild _ => exact ⟨v, .root, hchild.isContainer⟩
  | cons s l ih =>
      cases hat with
      | child hchild hrest =>
          obtain ⟨y, hy, hcontainer⟩ := ih hrest
          exact ⟨y, .child hchild hy, hcontainer⟩

/-- A finding is located at the root, or no deeper than containers may be nested. -/
theorem length_le_of_mem_findings
    {settings : Settings} {tree : Value} {fs : List Finding}
    (hfindings : tree.findings settings = .ok fs) {f : Finding} (hf : f ∈ fs) :
    f.location = [] ∨ (f.location.length : Int) ≤ settings.maxDepth := by
  rcases findings_eq_ok_iff.mp hfindings with ⟨-, rfl⟩ | ⟨-, ⟨location, hdeep, rfl⟩ | ⟨hnone, rfl⟩⟩
  · exact .inl (congrArg Finding.location (List.mem_singleton.mp hf))
  · rw [List.mem_singleton.mp hf]
    exact length_le_of_tooDeep? hdeep
  · obtain ⟨x, hx, -⟩ := Rules.exists_at_of_mem_root hf
    rcases List.eq_nil_or_concat f.location with hnil | ⟨l, s, hsnoc⟩
    · exact .inl hnil
    · rw [List.concat_eq_append] at hsnoc
      rw [hsnoc] at hx ⊢
      obtain ⟨y, hy, hcontainer⟩ := hx.exists_container
      have hdepth := (tooDeep?_eq_none_iff.mp hnone).2 l y hy hcontainer
      rw [List.length_append, List.length_singleton]
      simp only [List.length_nil] at hdepth
      omega

end Value

/-! ## Locations of the tree and of the graph -/

namespace Yaml

/-- Every key is a scalar that is written as it is read, no two keys of a mapping are written
alike, and no node is made into pairs. -/
structure Graph.IsSpelt (g : Graph) : Prop where
  unmerged : ∀ id, g.Unmerged (g.entries id)
  keys : ∀ id, ∀ e ∈ g.entries id, ∃ text, (g.node e.1).content = .scalar text ∧
    ∀ x, g.IsKey e.1 x → (Key.scalar x).render = text
  distinct : g.HasDistinctKeys
  noPairs : ∀ id, (g.node id).tag ≠ .omap ∧ (g.node id).tag ≠ .pairs

variable {g : Graph} {site : Site} {id : Nat}

/-- What an entry of a mapping is made into is reached by the text of its key. -/
theorem Graph.IsSpelt.mem_steps_entry
    (hspelt : g.IsSpelt) (hown : ∀ id part, site.part? id = some part → g.IsPart id part)
    {e : Nat × Nat} (he : e ∈ g.entries id) {x : Key × Part} (hmade : Builder.IsMadeOf site e x) :
    (.name x.1.render, e.2) ∈ g.steps id := by
  obtain ⟨k, hk, hkey⟩ := hmade.key
  obtain ⟨text, htext, hrender⟩ := hspelt.keys id e he
  have hread : g.IsKey e.1 k := by
    rcases hown e.1 _ hk with hcontainer | ⟨y, hy, hread⟩
    · cases hcontainer
    · cases hy
      exact hread
  cases hcontent : (g.node id).content with
  | mapping entries =>
      have hentries : g.entries id = entries := by simp [Graph.entries, hcontent, Content.entries]
      refine (mem_steps_mapping hcontent).mpr ⟨e, hentries ▸ he, text, htext,
        hspelt.unmerged id e he, ?_, rfl⟩
      rw [hkey, hrender k hread]
  | scalar text =>
      simp [Graph.entries, hcontent, Content.entries] at he
  | sequence items =>
      simp [Graph.entries, hcontent, Content.entries] at he

/-- A node of a container is unfolded to a mapping with what its entries are made into, to a
list with what its items are made into, or to a value without parts. -/
theorem Graph.IsSpelt.unfold_cases
    (hspelt : g.IsSpelt) (hfilled : Builder.Filled g Builder.Idle site)
    (hpending : site.pending = []) {tree : SharedTree}
    (hcontainers : site.containers = tree.containers)
    (hpart : site.part? id = some (.container id)) (fuel : Nat) (path : List (Option Nat)) :
    (∃ es fuel' path', List.Forall₂ (Builder.IsMadeOf site) (g.entries id) es ∧
      tree.unfold fuel path (.container id) =
        .map (es.map fun e => (e.1, tree.unfold fuel' path' e.2))) ∨
      (∃ items parts fuel' path', (g.node id).content = .sequence items ∧
        List.Forall₂ (fun item part => site.part? item = some part) items parts ∧
        tree.unfold fuel path (.container id) = .list (parts.map (tree.unfold fuel' path'))) ∨
      (∃ i, tree.unfold fuel path (.container id) = .back i) ∨
      ∃ keys, tree.unfold fuel path (.container id) = .set keys := by
  have hmade : site.made.getD id none = some (.container id) := by
    by_cases hid : id < site.made.size
    · rwa [Site.part?_of_lt hid] at hpart
    · rw [Site.part?_of_le (by omega)] at hpart
      cases hpart
  have hcontents := hfilled.contents id hmade (by simp [hpending]) not_false
  have hknown := hfilled.known id hpart
  rw [hcontainers] at hcontents
  change Builder.HasContents g site id (tree.container id) at hcontents
  obtain ⟨homap, hpairs⟩ := hspelt.noPairs id
  cases fuel with
  | zero => exact .inr (.inr (.inl ⟨0, rfl⟩))
  | succ fuel =>
      rw [SharedTree.unfold]
      split
      next i _ => exact .inr (.inr (.inl ⟨i + 1, rfl⟩))
      next =>
        cases htag : (g.node id).tag with
        | map =>
            obtain ⟨es, hes, hentries⟩ := hcontents.map htag
            exact .inl ⟨es, _, _, hentries.written (hspelt.unmerged id), by rw [hes]⟩
        | seq =>
            obtain ⟨items, parts, hitems, hparts, hmadeOf⟩ := hcontents.seq htag
            exact .inr (.inl ⟨items, parts, _, _, hitems, hmadeOf, by rw [hparts]⟩)
        | set =>
            obtain ⟨keys, hkeys⟩ := hcontents.set.mpr htag
            exact .inr (.inr (.inr ⟨keys, by rw [hkeys]⟩))
        | omap => exact absurd htag homap
        | pairs => exact absurd htag hpairs
        | _ =>
            rw [htag] at hknown
            cases hknown

/-- A step into what is unfolded of a node is a step of the graph, to a node that the next
part is made of. -/
theorem Graph.IsSpelt.exists_step
    (hspelt : g.IsSpelt) (hfilled : Builder.Filled g Builder.Idle site)
    (hpending : site.pending = []) {tree : SharedTree}
    (hcontainers : site.containers = tree.containers)
    (hpart : site.part? id = some (.container id)) {fuel : Nat} {path : List (Option Nat)}
    {step : Step} {w : Value}
    (hchild : Value.Child Step.Spells (tree.unfold fuel path (.container id)) step w) :
    ∃ n part fuel path, (step, n) ∈ g.steps id ∧ site.part? n = some part ∧
      w = tree.unfold fuel path part := by
  rcases hspelt.unfold_cases hfilled hpending hcontainers hpart fuel path with
    ⟨es, fuel', path', hmade, hunfold⟩ | ⟨items, parts, fuel', path', hitems, hmade, hunfold⟩ |
    ⟨i, hunfold⟩ | ⟨keys, hunfold⟩ <;>
    rw [hunfold] at hchild
  · cases hchild with
    | item hitems => cases hitems
    | entry hmem hspells =>
        obtain ⟨x, hx, heq⟩ := List.mem_map.mp hmem
        cases heq
        cases hspells
        obtain ⟨e, he, hmadeOf⟩ := exists_of_mem_right hmade hx
        exact ⟨e.2, x.2, _, _, hspelt.mem_steps_entry hfilled.own he hmadeOf, hmadeOf.value, rfl⟩
  · cases hchild with
    | @item _ values _ i hvalues hget =>
        cases hvalues
        rw [List.getElem?_map, Option.map_eq_some_iff] at hget
        obtain ⟨part, hget, rfl⟩ := hget
        obtain ⟨n, hitem, hn⟩ := exists_getElem?_of_forall₂ hmade hget
        exact ⟨n, part, _, _, (mem_steps_sequence hitems).mpr ⟨i, hitem, rfl⟩, hn, rfl⟩
  · cases hchild with
    | item hitems => cases hitems
  · cases hchild with
    | item hitems => cases hitems

/-- Every location of the tree that is unfolded is one of the graph. -/
theorem Graph.IsSpelt.exists_reaches
    (hspelt : g.IsSpelt) (hfilled : Builder.Filled g Builder.Idle site)
    (hpending : site.pending = []) {tree : SharedTree}
    (hcontainers : site.containers = tree.containers) {part : Part}
    (hpart : site.part? id = some part) {fuel : Nat} {path : List (Option Nat)} {l : Location}
    {x : Value} (hat : (tree.unfold fuel path part).At Step.Spells l x) :
    ∃ n, g.Reaches id l n := by
  induction l generalizing id part fuel path with
  | nil => exact ⟨id, .here⟩
  | cons step l ih =>
      cases hat with
      | child hchild hrest =>
          rcases hfilled.own id part hpart with rfl | ⟨y, rfl, -⟩
          · obtain ⟨n, next, fuel, path, hstep, hn, rfl⟩ :=
              hspelt.exists_step hfilled hpending hcontainers hpart hchild
            obtain ⟨last, hlast⟩ := ih hn hrest
            exact ⟨last, .step hstep hlast⟩
          · rw [SharedTree.unfold] at hchild
            cases hchild with
            | item hitems => cases hitems

end Yaml

namespace Verdict

/-- What is reported of a text without aliases and merge keys, whose keys are written as they
are read, is placed at the start of the only node at its location. -/
theorem placed_of_mem_check
    {settings : Settings} {input : Input} {g : Graph} {reading : Yaml.Reading}
    (hnoAlias : ∀ source, Source.ofInput input = .ok source →
      (Lexemes.ofSource source).HasNoAlias)
    (hgraph : Yaml.Reading.graph .strict input = .ok (some g)) (hspelt : g.IsSpelt)
    (hread : Yaml.Reading.ofInput .strict settings.maxDepth input = .ok reading)
    {ds : List Diagnostic} (hcheck : check settings reading = .ok ds) {d : Diagnostic}
    (hd : d ∈ ds) :
    ∃ (f : Finding) (n : Nat), d = f.diagnose reading.positions ∧
      (∃ x, reading.tree.toValue.At Step.Spells f.location x) ∧
      g.Reaches g.root f.location n ∧ (∀ m, g.Reaches g.root f.location m → m = n) ∧
      d.line = some (g.node n).start.line ∧ d.column = some (g.node n).start.column := by
  have htree := Yaml.Reading.isTree_of_graph hnoAlias hgraph
  have hfound : ∃ f : Finding, d = f.diagnose reading.positions ∧
      (∃ x, reading.tree.toValue.At Step.Spells f.location x) ∧
      (f.location = [] ∨ (f.location.length : Int) ≤ settings.maxDepth) := by
    obtain ⟨fs, rfl, hfs⟩ := exists_findings_of_check hcheck
    obtain ⟨f, hf, rfl⟩ := List.mem_map.mp hd
    rcases hfs with rfl | hfindings
    · have hroot := congrArg Finding.location (List.mem_singleton.mp hf)
      exact ⟨f, rfl, hroot ▸ ⟨_, .root⟩, .inl hroot⟩
    · exact ⟨f, rfl, Value.exists_at_of_mem_findings hfindings hf,
        Value.length_le_of_mem_findings hfindings hf⟩
  obtain ⟨f, rfl, ⟨x, hx⟩, hlength⟩ := hfound
  rw [Yaml.Reading.ofInput_of_graph hgraph] at hread
  cases hbuild : SharedTree.ofGraph .strict g with
  | error e =>
      rw [hbuild] at hread
      cases hread
  | ok tree =>
      rw [hbuild] at hread
      cases hread
      obtain ⟨site, -, hcontainers, hpart, hfills, hpending⟩ :=
        SharedTree.exists_site_of_ofGraph rfl hbuild
      obtain ⟨n, hn⟩ := hspelt.exists_reaches hfills.filled hpending hcontainers hpart hx
      have hlimit : f.location = [] ∨ (f.location.length : Int) ≤ settings.maxDepth + 1 :=
        hlength.imp_right fun hle => by omega
      have hplace := Graph.placeOf?_positions htree hspelt.distinct hn hlimit
      refine ⟨f, n, rfl, ⟨x, hx⟩, hn, fun m hm => hspelt.distinct.node_unique hm hn, ?_, ?_⟩
      · exact congrArg (Option.map Position.line) hplace
      · exact congrArg (Option.map Position.column) hplace

/-- A screen without a title, under a key. -/
def untitledScreen (key : String) : Input :=
  .text ("view: \x7b" ++ key ++ ": \x7b\x7d\x7d\n").toList

def untitledScreenGraph (tag : Tag) (key : String) : Graph where
  nodes := #[
    ⟨.map, ⟨0, 0⟩, .mapping [(1, 2)]⟩,
    ⟨.str, ⟨0, 0⟩, .scalar "view"⟩,
    ⟨.map, ⟨0, 6⟩, .mapping [(3, 4)]⟩,
    ⟨tag, ⟨0, 7⟩, .scalar key⟩,
    ⟨.map, ⟨0, key.length + 9⟩, .mapping []⟩]
  root := 0

theorem graph_numberedScreen :
    Yaml.Reading.graph .strict (untitledScreen "1") =
      .ok (some (untitledScreenGraph .int "1")) := by
  apply eq_ok_of_toOption
  decide +kernel

theorem hasNoAlias_numberedScreen {source : Source}
    (hsource : Source.ofInput (untitledScreen "1") = .ok source) :
    (Lexemes.ofSource source).HasNoAlias := by
  have hnone : ((Source.ofInput (untitledScreen "1")).toOption.any fun source =>
      (Lexemes.ofSource source).HasNoAlias) = true := by
    decide +kernel
  rw [hsource] at hnone
  exact of_decide_eq_true hnone

theorem isSpelt_numberedScreen : (untitledScreenGraph .int "1").IsSpelt where
  unmerged := Graph.forall_entries (by decide +kernel)
  keys := by
    have hentries := Graph.forall_entries (g := untitledScreenGraph .int "1")
      (P := fun e => e = (1, 2) ∨ e = (3, 4)) (by decide +kernel)
    intro id e he
    rcases hentries id e he with rfl | rfl
    · refine ⟨"view", rfl, fun x hx => ?_⟩
      rw [hx.eq_text rfl rfl]
      rfl
    · refine ⟨"1", rfl, fun x hx => ?_⟩
      obtain ⟨read, hread, hx⟩ := hx.exists_read nofun rfl
      cases hread
      have hone : ((integerOfText "1").map Scalar.integer).mapError Failure.misfit =
          .ok (.integer 1) := eq_ok_of_toOption (by decide +kernel)
      cases hone.symm.trans hx
      decide +kernel
  distinct := Graph.forall_entryLists .nil (by decide +kernel)
  noPairs id := by
    by_cases hid : id < 5
    · revert id
      decide +kernel
    · rw [Graph.node_of_le (Nat.not_lt.mp hid)]
      exact ⟨nofun, nofun⟩

/-- The report about a screen under a number is placed where the screen starts. -/
theorem placed_of_mem_check_numberedScreen :
    ∃ reading ds d,
      Yaml.Reading.ofInput .strict Settings.default.maxDepth (untitledScreen "1") = .ok reading ∧
        check .default reading = .ok ds ∧ d ∈ ds ∧ d.path = "view.1" ∧ d.line.isSome ∧
          d.column.isSome := by
  obtain ⟨reading, hread, hchecked⟩ : ∃ reading,
      Yaml.Reading.ofInput .strict Settings.default.maxDepth (untitledScreen "1") = .ok reading ∧
        ((check .default reading).toOption.any fun ds => ds.any fun d => d.path == "view.1") =
          true :=
    exists_eq_ok_of_any (by decide +kernel)
  obtain ⟨ds, hcheck, hfound⟩ := exists_eq_ok_of_any hchecked
  obtain ⟨d, hd, hpath⟩ := List.any_eq_true.mp hfound
  obtain ⟨-, n, -, -, -, -, hline, hcolumn⟩ :=
    placed_of_mem_check (fun _ => hasNoAlias_numberedScreen) graph_numberedScreen
      isSpelt_numberedScreen hread hcheck hd
  exact ⟨reading, ds, d, hread, hcheck, hd, of_decide_eq_true hpath, by simp [hline],
    by simp [hcolumn]⟩

/-- The report about a screen under a truth value has no place: the index has the key as it
is written, and the report as it is read. -/
theorem exists_unplaced_truthScreen :
    ∃ source reading, Source.ofInput (untitledScreen "true") = .ok source ∧
      (Lexemes.ofSource source).HasNoAlias ∧
      Yaml.Reading.graph .strict (untitledScreen "true") =
        .ok (some (untitledScreenGraph .bool "true")) ∧
      (∀ id, (untitledScreenGraph .bool "true").Unmerged
        ((untitledScreenGraph .bool "true").entries id)) ∧
      Yaml.Reading.ofInput .strict Settings.default.maxDepth (untitledScreen "true") =
        .ok reading ∧
      ∃ ds, check .default reading = .ok ds ∧
        ∃ d ∈ ds, d.path = "view.True" ∧ d.line = none ∧ d.column = none := by
  obtain ⟨source, hsource, hnoAlias⟩ : ∃ source, Source.ofInput (untitledScreen "true") =
      .ok source ∧ decide (Lexemes.ofSource source).HasNoAlias = true :=
    exists_eq_ok_of_any (by decide +kernel)
  obtain ⟨reading, hread, hchecked⟩ : ∃ reading,
      Yaml.Reading.ofInput .strict Settings.default.maxDepth (untitledScreen "true") =
        .ok reading ∧ ((check .default reading).toOption.any fun ds => ds.any fun d =>
          d.path = "view.True" ∧ d.line = none ∧ d.column = none) = true :=
    exists_eq_ok_of_any (by decide +kernel)
  obtain ⟨ds, hcheck, hfound⟩ := exists_eq_ok_of_any hchecked
  exact ⟨source, reading, hsource, of_decide_eq_true hnoAlias,
    eq_ok_of_toOption (by decide +kernel), Graph.forall_entries (by decide +kernel), hread,
    ds, hcheck, by simpa using hfound⟩

end Verdict

end Wireframe
