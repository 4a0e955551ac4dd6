import Mathlib.Tactic
import Wireframe.Proofs.FlatGraphs
import Wireframe.Proofs.KeyOrder

/-!
# Names in trees that are read

An entry takes the place of one with the same key, so the keys of a mapping that is filled are
different, and different keys of text are different names.  Nothing but the filling changes a
container, whatever the order of work and the dialect.  So no mapping in a tree that is read has
two entries of the same name.
-/

namespace Wireframe

theorem Entries.HasDistinctKeys.hasDistinctNames
    {es : Entries} (hdistinct : HasDistinctKeys es) : es.HasDistinctNames := by
  have hkeys : (es.map Prod.fst).Pairwise fun k l => Key.same k l = false :=
    List.pairwise_map.mpr hdistinct
  have htext {k : Key} {name : String} (hk : k.text? = some name) : k = .text name := by
    unfold Key.text? at hk
    split at hk <;> cases hk
    rfl
  refine List.Pairwise.filterMap _ (fun k l hdiffer name hk other hl hsame => ?_) hkeys
  rw [htext hk, htext hl, hsame, Key.same_self] at hdiffer
  cases hdiffer

namespace Yaml

/-- The keys of a container that is a mapping are different. -/
def Container.HasDistinctKeys : Container → Prop
  | .map es => Entries.HasDistinctKeys es
  | _ => True

namespace Builder

/-- The mappings that have been filled so far have different keys. -/
def KeysApart (s : Site) : Prop := ∀ id, (s.containers.getD id (.list [])).HasDistinctKeys

/-- A builder gives such results only, and it keeps keys apart. -/
def Yields {α : Type} (P : α → Prop) (x : Builder α) : Prop :=
  ∀ s, KeysApart s → Leads x s (fun a s' => P a ∧ KeysApart s') fun _ => True

/-- A builder keeps keys apart, whatever it gives. -/
abbrev KeepsApart {α : Type} (x : Builder α) : Prop := Yields (fun _ => True) x

section Steps

variable {α β : Type} {P : α → Prop} {Q : β → Prop} {x : Builder β} {next : β → Builder α}

theorem yields_pure {a : α} (ha : P a) : Yields P (pure a) := fun _ hs => ⟨ha, hs⟩

theorem keepsApart_pure (a : α) : KeepsApart (pure a : Builder α) := yields_pure trivial

theorem yields_throw (f : Failure) : Yields P (throw f) := fun _ _ => trivial

theorem yields_complain
    (activity : Option Activity) (complaint : Complaint) (position : Position) :
    Yields P (Failure.complain activity complaint position) :=
  yields_throw _

theorem Yields.bind (hx : Yields Q x) (hnext : ∀ b, Q b → Yields P (next b)) :
    Yields P (x >>= next) :=
  fun s hs => (hx s hs).bind fun b s' hs' => hnext b hs'.1 s' hs'.2

theorem KeepsApart.bind (hx : KeepsApart x) (hnext : ∀ b, Yields P (next b)) :
    Yields P (x >>= next) :=
  Yields.bind hx fun b _ => hnext b

theorem Looks.keepsApart (hx : Looks x) : KeepsApart x := by
  intro s hs
  have hself := hx s s rfl
  unfold Leads
  cases hrun : x s with
  | error f => trivial
  | ok r =>
      rw [hrun] at hself
      have hstate : r.2 = s := congrArg Prod.snd (Except.ok.inj hself)
      exact ⟨trivial, hstate ▸ hs⟩

/-- A change of the site that leaves its containers as they are. -/
theorem keepsApart_modify {f : Site → Site} (hf : ∀ s, (f s).containers = s.containers) :
    KeepsApart (modify f : Builder PUnit) := by
  intro s hs
  rw [leads_modify]
  refine ⟨trivial, fun id => ?_⟩
  rw [hf]
  exact hs id

theorem yields_get {next : Site → Builder α} (hnext : ∀ s, Yields P (next s)) :
    Yields P (get >>= next) :=
  fun s hs => hnext s s hs

theorem keepsApart_node (id : Nat) : KeepsApart (node id) := (looks_node id).keepsApart

theorem keepsApart_entries (id : Nat) : KeepsApart (entries id) :=
  (keepsApart_node id).bind fun _ => keepsApart_pure _

theorem keepsApart_setContainer
    (id : Nat) {c : Container} (hc : c.HasDistinctKeys) : KeepsApart (setContainer id c) := by
  intro s hs
  rw [setContainer, leads_modify]
  refine ⟨trivial, fun other => ?_⟩
  rw [Array.getD_eq_getD_getElem?, Array.getElem?_setIfInBounds]
  split_ifs
  · exact hc
  · trivial
  · rw [← Array.getD_eq_getD_getElem?]
    exact hs other

end Steps

/-! ## Freeing mappings of their merge keys -/

theorem keepsApart_splitMerge (es : List (Nat × Nat)) : KeepsApart (splitMerge es) := by
  induction es with
  | nil => exact keepsApart_pure _
  | cons e rest ih =>
      unfold splitMerge
      refine (keepsApart_node e.1).bind fun n => ?_
      split_ifs
      · exact keepsApart_pure _
      · refine ih.bind fun found => ?_
        split <;> exact keepsApart_pure _

theorem keepsApart_freeValueKeys (es : List (Nat × Nat)) : KeepsApart (freeValueKeys es) := by
  induction es with
  | nil => exact keepsApart_pure _
  | cons e rest ih =>
      unfold freeValueKeys
      refine (keepsApart_node e.1).bind fun n => ?_
      dsimp only
      split_ifs
      · exact (keepsApart_modify (by intro s; rfl)).bind fun _ => ih
      · exact ih

theorem keepsApart_settle (id : Nat) (merged : List (Nat × Nat)) :
    KeepsApart (settle id merged) := by
  unfold settle
  refine (keepsApart_entries id).bind fun own => ?_
  refine (keepsApart_freeValueKeys own).bind fun _ => ?_
  split_ifs
  · exact keepsApart_modify fun _ => rfl
  · exact keepsApart_pure _

section Merging

variable {flatten : Nat → Builder Unit}

theorem keepsApart_mergeItems
    (hflatten : ∀ id, KeepsApart (flatten id)) (items : List Nat) :
    KeepsApart (mergeItems flatten items) := by
  induction items with
  | nil => exact keepsApart_pure _
  | cons item items ih =>
      unfold mergeItems
      refine (keepsApart_node item).bind fun n => ?_
      split
      · refine (hflatten item).bind fun _ => (keepsApart_entries item).bind fun _ => ?_
        exact ih.bind fun _ => keepsApart_pure _
      · exact (keepsApart_node item).bind fun _ => yields_complain _ _ _

theorem keepsApart_brought (hflatten : ∀ id, KeepsApart (flatten id)) (source : Nat) :
    KeepsApart (brought flatten source) := by
  unfold brought
  refine (keepsApart_node source).bind fun n => ?_
  split
  · exact (hflatten source).bind fun _ => keepsApart_entries source
  · exact keepsApart_mergeItems hflatten _
  · exact yields_complain _ _ _

end Merging

theorem keepsApart_takeMerges (fuel id : Nat) : KeepsApart (takeMerges fuel id) := by
  induction fuel generalizing id with
  | zero => exact yields_throw _
  | succ fuel ih =>
      unfold takeMerges
      refine (keepsApart_entries id).bind fun es => (keepsApart_splitMerge es).bind fun found => ?_
      split
      · exact keepsApart_pure _
      · refine (keepsApart_modify (by intro s; rfl)).bind fun _ => ?_
        have hflatten (x : Nat) : KeepsApart (do settle x (← takeMerges fuel x)) :=
          (ih x).bind fun more => keepsApart_settle x more
        exact (keepsApart_brought hflatten _).bind fun _ => (ih id).bind fun _ => keepsApart_pure _

theorem keepsApart_flatten (id : Nat) : KeepsApart (flatten id) :=
  yields_get fun _ => (keepsApart_takeMerges _ id).bind fun more => keepsApart_settle id more

/-! ## Filling containers -/

section Contents

variable {make makeKey : Nat → Builder Part}

theorem keepsApart_makeAll (hmake : ∀ id, KeepsApart (make id)) (ids : List Nat) :
    KeepsApart (makeAll make ids) := by
  induction ids with
  | nil => exact keepsApart_pure _
  | cons id ids ih =>
      exact (hmake id).bind fun _ => ih.bind fun _ => keepsApart_pure _

theorem keepsApart_makePairs
    (hmake : ∀ id, KeepsApart (make id)) (activity : Activity) (start : Position)
    (items : List Nat) : KeepsApart (makePairs make activity start items) := by
  induction items with
  | nil => exact keepsApart_pure _
  | cons item items ih =>
      unfold makePairs
      refine (keepsApart_node item).bind fun n => ?_
      split
      · refine (hmake _).bind fun _ => (hmake _).bind fun _ => ?_
        exact ih.bind fun _ => keepsApart_pure _
      · exact yields_complain _ _ _
      · exact yields_complain _ _ _

theorem keepsApart_isSet (part : Part) : KeepsApart (isSet part) := by
  unfold isSet
  split
  · refine yields_get fun s => ?_
    split <;> exact keepsApart_pure _
  · exact keepsApart_pure _

theorem keepsApart_checkKeys
    (hmake : ∀ id, KeepsApart (make id)) (seen : List Key) (es : List (Nat × Nat)) :
    KeepsApart (checkKeys make seen es) := by
  induction es generalizing seen with
  | nil => exact keepsApart_pure _
  | cons e rest ih =>
      unfold checkKeys
      refine (keepsApart_node e.1).bind fun n => ?_
      split_ifs
      · exact ih seen
      · refine (hmake e.1).bind fun part => ?_
        split
        · dsimp only
          split_ifs
          · exact yields_throw _
          · exact ih _
        · refine (keepsApart_isSet part).bind fun found => ?_
          split_ifs
          · exact yields_throw _
          · exact ih seen

theorem yields_makeEntries
    (hmake : ∀ id, KeepsApart (make id)) {done : List (Key × Part)}
    (hdone : Entries.HasDistinctKeys done) (es : List (Nat × Nat)) :
    Yields Entries.HasDistinctKeys (makeEntries make done es) := by
  induction es generalizing done with
  | nil => exact yields_pure hdone
  | cons e rest ih =>
      unfold makeEntries
      refine (hmake e.1).bind fun part => ?_
      split
      · refine (hmake e.2).bind fun value => ?_
        exact ih (Entries.hasDistinctKeys_insert hdone _ value)
      · exact (keepsApart_node e.1).bind fun _ => yields_complain _ _ _

theorem yields_mappingEntries
    (dialect : Dialect) (hmake : ∀ id, KeepsApart (make id))
    (hmakeKey : ∀ id, KeepsApart (makeKey id)) (id : Nat) :
    Yields Entries.HasDistinctKeys (mappingEntries dialect make makeKey id) := by
  have hentries : Yields Entries.HasDistinctKeys (do
      flatten id
      makeEntries make [] (← entries id)) :=
    (keepsApart_flatten id).bind fun _ => (keepsApart_entries id).bind fun es =>
      yields_makeEntries hmake List.Pairwise.nil es
  unfold mappingEntries
  refine (keepsApart_node id).bind fun n => ?_
  split
  · dsimp only
    split_ifs
    · exact (keepsApart_checkKeys hmakeKey [] _).bind fun _ => hentries
    · exact hentries
  · exact yields_complain _ _ _

theorem yields_contents
    (dialect : Dialect) (hmake : ∀ id, KeepsApart (make id))
    (hmakeKey : ∀ id, KeepsApart (makeKey id)) (id : Nat) :
    Yields Container.HasDistinctKeys (contents dialect make makeKey id) := by
  have hentries := yields_mappingEntries dialect hmake hmakeKey id
  unfold contents
  refine (keepsApart_node id).bind fun n => ?_
  split
  · exact hentries.bind fun es hes => yields_pure hes
  · exact hentries.bind fun es _ => yields_pure trivial
  · exact (keepsApart_makeAll hmake _).bind fun _ => yields_pure trivial
  · exact yields_complain _ _ _
  · exact (keepsApart_makePairs hmake _ _ _).bind fun _ => yields_pure trivial
  · exact yields_complain _ _ _

end Contents

theorem hasDistinctKeys_of_emptyContainer?
    {tag : Tag} {c : Container} (hc : emptyContainer? tag = some c) : c.HasDistinctKeys := by
  cases tag <;> cases hc <;> first | trivial | exact List.Pairwise.nil

/-- A container is empty when it is made and has different keys when it is filled, at once or
later. -/
theorem keepsApart_make (dialect : Dialect) (fuel : Nat) (deep : Bool) (id : Nat) :
    KeepsApart (make dialect fuel deep id) := by
  induction fuel generalizing deep id with
  | zero => exact yields_throw _
  | succ fuel ih =>
      unfold make
      refine yields_get fun s => ?_
      split
      · exact keepsApart_pure _
      refine (keepsApart_node id).bind fun n => yields_get fun s => ?_
      dsimp only
      split
      · exact Yields.bind (Q := fun _ => False) (yields_complain _ _ _) fun _ => False.elim
      refine (keepsApart_modify (by intro s; rfl)).bind fun _ => ?_
      refine (looks_scalar? id).keepsApart.bind fun found => ?_
      have hleave (part : Part) : KeepsApart (do
          modify fun s => { s with
            made := s.made.setIfInBounds id (some part), opened := s.opened.erase id }
          return part) :=
        (keepsApart_modify (by intro s; rfl)).bind fun _ => keepsApart_pure _
      split
      next x => exact (keepsApart_pure _).bind hleave
      next c hc =>
        refine (keepsApart_setContainer id (hasDistinctKeys_of_emptyContainer? hc)).bind fun _ => ?_
        split_ifs
        · refine (yields_contents dialect (ih true) (ih true) id).bind fun filled hfilled => ?_
          refine (keepsApart_setContainer id hfilled).bind fun _ => ?_
          exact (keepsApart_pure _).bind hleave
        · refine (keepsApart_modify (by intro s; rfl)).bind fun _ => ?_
          exact (keepsApart_pure _).bind hleave
      next => exact KeepsApart.bind (yields_complain _ _ _) hleave

theorem keepsApart_fillAll (dialect : Dialect) (bound fuel : Nat) :
    KeepsApart (fillAll dialect bound fuel) := by
  induction fuel with
  | zero => exact keepsApart_pure _
  | succ fuel ih =>
      unfold fillAll
      refine yields_get fun s => ?_
      split
      · exact keepsApart_pure _
      next id rest _ =>
        refine (keepsApart_modify (by intro s; rfl)).bind fun _ => ?_
        refine (yields_contents dialect (keepsApart_make dialect bound false)
          (keepsApart_make dialect bound true) id).bind fun filled hfilled => ?_
        exact (keepsApart_setContainer id hfilled).bind fun _ => ih

theorem keepsApart_build (dialect : Dialect) (root : Nat) : KeepsApart (build dialect root) :=
  yields_get fun _ => (keepsApart_make dialect _ false root).bind fun _ =>
    (keepsApart_fillAll dialect _ _).bind fun _ => keepsApart_pure _

end Builder

/-! ## Trees that are read -/

/-- However far a tree is unfolded, its mappings have the entries that were filled in. -/
theorem SharedTree.hasDistinctNames_unfold
    {t : SharedTree} (hapart : ∀ id, (t.container id).HasDistinctKeys) (fuel : Nat)
    (path : List (Option Nat)) (part : Part) : (t.unfold fuel path part).HasDistinctNames := by
  have hleaf {v : Value} := @Value.hasDistinctNames_of_leaf v
  induction fuel generalizing path part with
  | zero => cases part <;> exact hleaf rfl rfl
  | succ fuel ih =>
      cases part with
      | scalar x => exact hleaf rfl rfl
      | pair a b =>
          have hitems : ∀ x ∈ [t.unfold fuel (none :: path) a, t.unfold fuel (none :: path) b],
              x.HasDistinctNames := by
            simp only [List.forall_mem_cons]
            exact ⟨ih _ a, ih _ b, List.forall_mem_nil _⟩
          rw [unfold]
          exact Value.hasDistinctNames_of_not_map rfl hitems
      | container id =>
          rw [unfold]
          cases path.idxOf? (some id) with
          | some i => exact hleaf rfl rfl
          | none =>
              have hown := hapart id
              cases hcontainer : t.container id with
              | list items =>
                  refine Value.hasDistinctNames_of_not_map rfl ?_
                  exact List.forall_mem_map.mpr fun x _ => ih _ x
              | set keys => exact hleaf rfl rfl
              | map es =>
                  rw [hcontainer] at hown
                  refine Value.hasDistinctNames_map ?_ (List.forall_mem_map.mpr fun e _ => ih _ e.2)
                  refine Entries.HasDistinctKeys.hasDistinctNames ?_
                  exact List.pairwise_map.mpr hown

theorem SharedTree.hasDistinctNames_of_ofGraph
    {dialect : Dialect} {g : Graph} {tree : SharedTree}
    (htree : SharedTree.ofGraph dialect g = .ok tree) : tree.toValue.HasDistinctNames := by
  have hstart : Builder.KeysApart (Site.start g) := by
    intro id
    unfold Site.start
    rw [Array.getD_eq_getD_getElem?, Array.getElem?_replicate]
    split_ifs <;> trivial
  have hleads := Builder.keepsApart_build dialect g.root _ hstart
  rw [SharedTree.ofGraph_eq] at htree
  unfold Builder.Leads at hleads
  cases hbuild : Builder.build dialect g.root (Site.start g) with
  | error f =>
      rw [hbuild] at htree
      cases htree
  | ok r =>
      rw [hbuild] at htree hleads
      cases htree
      have hapart (id : Nat) : (container ⟨r.1, r.2.containers⟩ id).HasDistinctKeys := hleads.2 id
      exact hasDistinctNames_unfold hapart _ _ _

/-- In a tree that is read, no mapping has two entries of the same name. -/
theorem Reading.hasDistinctNames_of_ofInput
    {dialect : Dialect} {limit : Int} {input : Input} {reading : Reading}
    (hread : Reading.ofInput dialect limit input = .ok reading) :
    reading.tree.toValue.HasDistinctNames := by
  cases hgraph : Reading.graph dialect input with
  | error f =>
      rw [Reading.ofInput_of_error hgraph] at hread
      cases hread
  | ok found =>
      cases found with
      | none =>
          rw [Reading.ofInput_of_none hgraph] at hread
          cases hread
          exact Value.hasDistinctNames_of_leaf rfl rfl
      | some g =>
          rw [Reading.ofInput_of_graph hgraph] at hread
          cases htree : SharedTree.ofGraph dialect g with
          | error f =>
              rw [htree] at hread
              cases hread
          | ok tree =>
              rw [htree] at hread
              cases hread
              exact SharedTree.hasDistinctNames_of_ofGraph htree

end Yaml

end Wireframe
