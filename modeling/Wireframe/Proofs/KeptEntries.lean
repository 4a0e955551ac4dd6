import Mathlib.Data.Finset.Card
import Mathlib.Tactic
import Wireframe.Proofs.FilledMappings

/-!
# Entries that are kept

Making a node leaves a site filled, and so does filling a node that waits.  A node has one turn
only, so at last nothing waits, and every mapping that was made keeps what is written in it.
-/

namespace Wireframe.Yaml

namespace Builder

variable {g : Graph} {busy : Nat → Prop} {s s' : Site} {id : Nat}

/-! ## Making and filling -/

theorem part?_leave
    (s : Site) (id : Nat) (part : Part) (other : Nat) :
    (leave s id part).part? other =
      if other = id ∧ id < s.made.size then some part else s.part? other := by
  have hsize : (leave s id part).made.size = s.made.size := by simp [leave]
  by_cases hother : other < s.made.size
  · rw [Site.part?_of_lt (hsize ▸ hother), made_leave, Site.part?_of_lt hother]
  · rw [Site.part?_of_le (by omega), Site.part?_of_le (by omega), if_neg]
    rintro ⟨rfl, hid⟩
    exact hother hid

theorem filled_enter
    (hfilled : Filled g busy s) {id : Nat} (hmade : s.made.getD id none = none) :
    Filled g busy (enter s id) := by
  have hgrows : Grows s (enter s id) := fun _ _ h => h
  refine ⟨hfilled.size, hfilled.own, hfilled.known, ?_, hfilled.sets, ?_⟩
  · intro other hother
    rcases List.mem_cons.mp hother with rfl | hother
    · exact hmade
    · exact hfilled.unmade other hother
  · intro other hother hwaits hbusy
    exact (hfilled.contents other hother hwaits hbusy).grow hgrows

theorem filled_wait
    (hfilled : Filled g busy s) (id : Nat) :
    Filled g busy { s with pending := s.pending ++ [id] } := by
  have hgrows : Grows s { s with pending := s.pending ++ [id] } := fun _ _ h => h
  refine { hfilled with contents := ?_ }
  intro other hmade hwaits hbusy
  have hbefore : other ∉ s.pending := fun h => hwaits (List.mem_append_left _ h)
  exact (hfilled.contents other hmade hbefore hbusy).grow hgrows

theorem getD_setIfInBounds_of_ne
    (containers : Array Container) {id other : Nat} (hother : other ≠ id) (c : Container) :
    (containers.setIfInBounds id c).getD other (.list []) = containers.getD other (.list []) := by
  simp [Array.getD_eq_getD_getElem?, Ne.symm hother]

theorem getD_setIfInBounds_self
    {containers : Array Container} {id : Nat} (hid : id < containers.size) (c : Container) :
    (containers.setIfInBounds id c).getD id (.list []) = c := by
  simp [Array.getD_eq_getD_getElem?, hid]

/-- Changing the container of a node keeps a site filled, unless the node counts as filled and
the container is not what it is filled with. -/
theorem filled_setContainer
    {other : Nat → Prop} (hsound : Sound g s) (hfilled : Filled g busy s) {id : Nat}
    {c : Container}
    (hbusy : ∀ x, x ≠ id → busy x → other x)
    (hset : ∀ keys, c = .set keys → (g.node id).tag = .set)
    (hc : s.made.getD id none = some (.container id) → id ∉ s.pending → ¬ other id →
      HasContents g s id c) :
    Filled g other { s with containers := s.containers.setIfInBounds id c } := by
  have hgrows : Grows s { s with containers := s.containers.setIfInBounds id c } :=
    fun _ _ h => h
  refine ⟨by simpa using hfilled.size, hfilled.own, hfilled.known, hfilled.unmade, ?_, ?_⟩
  · intro x keys hkeys
    by_cases hx : x = id
    · subst hx
      by_cases hcontainer : x < s.containers.size
      · exact hset keys ((getD_setIfInBounds_self hcontainer c).symm.trans hkeys)
      · have hnone : (s.containers.setIfInBounds x c).getD x (.list []) = .list [] := by
          simp [Array.getD_eq_getD_getElem?, hcontainer]
        cases hnone.symm.trans hkeys
    · exact hfilled.sets x keys ((getD_setIfInBounds_of_ne _ hx c).symm.trans hkeys)
  · intro x hmade hwaits hother
    by_cases hx : x = id
    · subst hx
      have hsize : x < s.made.size := Site.lt_size_of_made (by simp [hmade])
      have hcontainer : x < s.containers.size := by
        rw [hfilled.size, ← hsound.size]
        exact hsize
      rw [getD_setIfInBounds_self hcontainer c]
      exact (hc hmade hwaits hother).grow hgrows
    · rw [getD_setIfInBounds_of_ne _ hx c]
      exact (hfilled.contents x hmade hwaits fun h => hother (hbusy x hx h)).grow hgrows

/-- A node has been made, and its container is filled if it does not have to wait. -/
theorem fills_leave
    {id : Nat} {part : Part} (hproceeds : Proceeds g s (leave s' id part))
    (hsize : s'.made.size = g.nodes.size) (hfilled : Filled g busy s')
    (hnew : s.made.getD id none = none)
    (hopened : s'.opened = id :: s.opened) (hid : id ∉ s.opened) (hgrows : Grows s s')
    (hkept : ∀ other, Turned s other →
      s'.containers.getD other (.list []) = s.containers.getD other (.list []))
    (hpart : g.IsPart id part)
    (hknown : part = .container id → (emptyContainer? (g.node id).tag).isSome)
    (hbound : g.nodes.size ≤ id → part = .scalar .null)
    (hcontents : part = .container id → id ∉ s'.pending →
      HasContents g s' id (s'.containers.getD id (.list []))) :
    Fills g busy s (leave s' id part) ∧ (leave s' id part).part? id = some part := by
  have hunmade : s'.made.getD id none = none :=
    hfilled.unmade id (by rw [hopened]; exact List.mem_cons_self)
  have hself : (leave s' id part).part? id = some part := by
    rw [part?_leave]
    split_ifs with hin
    · rfl
    · have hle : s'.made.size ≤ id := by
        by_contra hlt
        exact hin ⟨rfl, by omega⟩
      rw [Site.part?_of_le hle, hbound (hsize ▸ hle)]
  have hleft : Grows s' (leave s' id part) := by
    intro other p hp
    rw [part?_leave]
    split_ifs with hsame
    · rw [hsame.1, Site.part?_of_lt hsame.2, hunmade] at hp
      cases hp
    · exact hp
  refine ⟨⟨hproceeds, ⟨?_, ?_, ?_, ?_, hfilled.sets, ?_⟩, ?_, hkept⟩, hself⟩
  · exact hfilled.size
  · intro other p hp
    by_cases hsame : other = id
    · subst hsame
      cases hself.symm.trans hp
      exact hpart
    · rw [part?_leave, if_neg fun h => hsame h.1] at hp
      exact hfilled.own other p hp
  · intro other hp
    by_cases hsame : other = id
    · subst hsame
      exact hknown (Option.some.inj (hself.symm.trans hp))
    · rw [part?_leave, if_neg fun h => hsame h.1] at hp
      exact hfilled.known other hp
  · intro other hother
    have hold : other ∈ s.opened := by simpa [leave, hopened] using hother
    rw [made_leave, if_neg]
    · exact hfilled.unmade other (by rw [hopened]; exact List.mem_cons_of_mem _ hold)
    · rintro ⟨rfl, -⟩
      exact hid hold
  · intro other hmade hwaits hbusy
    by_cases hsame : other = id
    · subst hsame
      have hown : part = .container other :=
        Option.some.inj (hself.symm.trans (Site.part?_of_made hmade))
      exact (hcontents hown hwaits).grow hleft
    · rw [made_leave, if_neg fun h => hsame h.1] at hmade
      exact (hfilled.contents other hmade hwaits hbusy).grow hleft
  · exact fun other p hp => hleft other p (hgrows other p hp)

theorem not_turned (hmade : s.made.getD id none = none) (hopened : id ∉ s.opened) :
    ¬ Turned s id :=
  fun h => h.2.elim (fun hne => hne hmade) hopened

theorem fills_scalar
    (hsound : Sound g s) (hfilled : Filled g busy s) (hmade : s.made.getD id none = none)
    (hopened : id ∉ s.opened) {x : Scalar} (hkey : g.IsKey id x) :
    Fills g busy s (leave (enter s id) id (.scalar x)) ∧
      (leave (enter s id) id (.scalar x)).part? id = some (.scalar x) := by
  have hentered := sound_enter hsound fun h => hsound.waiting id h hmade
  have hpart (y : Scalar) (hy : Part.scalar x = .scalar y) : g.IsKey id y := by
    cases hy
    exact hkey
  have hproceeds :=
    proceeds_leave (proceeds_self hentered) (not_turned hmade hopened) hpart
  exact fills_leave hproceeds hentered.size (filled_enter hfilled hmade) hmade rfl hopened
    (fun _ _ h => h) (fun _ _ => rfl) (.inr ⟨x, rfl, hkey⟩) nofun
    (fun hsize => congrArg Part.scalar (hkey.eq_null hsize)) nofun

/-- A container that is made empty and filled later. -/
theorem fills_waiting
    (hsound : Sound g s) (hfilled : Filled g busy s) (hmade : s.made.getD id none = none)
    (hopened : id ∉ s.opened) (hid : id < s.nodes.size) {c : Container}
    (hset : ∀ keys, c = .set keys → (g.node id).tag = .set)
    (hknown : (emptyContainer? (g.node id).tag).isSome) {last : Site}
    (hlast : last = { enter s id with
      containers := s.containers.setIfInBounds id c, pending := s.pending ++ [id] }) :
    Fills g busy s (leave last id (.container id)) ∧
      (leave last id (.container id)).part? id = some (.container id) := by
  subst hlast
  have hentered := sound_enter hsound fun h => hsound.waiting id h hmade
  have hempty := filled_setContainer (c := c) hentered (filled_enter hfilled hmade)
    (fun _ _ h => h) hset fun hown => nomatch hmade.symm.trans hown
  have hproceeds := proceeds_wait hsound hid hmade hopened (s.containers.setIfInBounds id c)
  have hbound (hsize : g.nodes.size ≤ id) : Part.container id = .scalar .null := by
    have hnodes := hsound.evolved.size
    omega
  refine fills_leave hproceeds hsound.size (filled_wait hempty id) hmade rfl hopened
    (fun _ _ h => h) ?_ (.inl rfl) (fun _ => hknown) hbound fun _ hwaits => ?_
  · intro other hturned
    apply getD_setIfInBounds_of_ne
    rintro rfl
    exact not_turned hmade hopened hturned
  · exact absurd (List.mem_append_right _ (List.mem_singleton.mpr rfl)) hwaits

/-- A container that is filled while it is made. -/
theorem fills_filled
    (hsound : Sound g s) (hmade : s.made.getD id none = none)
    (hopened : id ∉ s.opened) (hid : id < s.nodes.size) {c filled : Container}
    (hfills : Fills g busy { enter s id with
      containers := s.containers.setIfInBounds id c } s')
    (hcontents : HasContents g s' id filled)
    (hknown : (emptyContainer? (g.node id).tag).isSome) {last : Site}
    (hlast : last = { s' with containers := s'.containers.setIfInBounds id filled }) :
    Fills g busy s (leave last id (.container id)) ∧
      (leave last id (.container id)).part? id = some (.container id) := by
  subst hlast
  have hentered := sound_enter hsound fun h => hsound.waiting id h hmade
  have hproceeds := proceeds_containers hentered (s.containers.setIfInBounds id c)
  have hall := (hproceeds.trans hfills.proceeds).trans
    (proceeds_containers hfills.sound (s'.containers.setIfInBounds id filled))
  have hopen : s'.opened = id :: s.opened := hfills.proceeds.opened
  have hunmade : s'.made.getD id none = none :=
    hfills.filled.unmade id (by rw [hopen]; exact List.mem_cons_self)
  have hlast := filled_setContainer (c := filled) hfills.sound hfills.filled
    (fun _ _ h => h) (fun keys hkeys => hcontents.set.mp ⟨keys, hkeys⟩)
    fun hown => nomatch hunmade.symm.trans hown
  have hpart (y : Scalar) (hy : Part.container id = .scalar y) : g.IsKey id y := by cases hy
  have hbound (hsize : g.nodes.size ≤ id) : Part.container id = .scalar .null := by
    have hnodes := hsound.evolved.size
    omega
  refine fills_leave (proceeds_leave hall (not_turned hmade hopened) hpart) hall.sound.size hlast
    hmade hopen hopened hfills.grows ?_ (.inl rfl) (fun _ => hknown) hbound fun _ _ => ?_
  · intro other hturned
    have hne : other ≠ id := by
      rintro rfl
      exact not_turned hmade hopened hturned
    have hstill := hproceeds.turned other (turned_enter id hturned)
    calc (s'.containers.setIfInBounds id filled).getD other (.list [])
        = s'.containers.getD other (.list []) := getD_setIfInBounds_of_ne _ hne filled
      _ = (s.containers.setIfInBounds id c).getD other (.list []) := hfills.kept other hstill
      _ = s.containers.getD other (.list []) := getD_setIfInBounds_of_ne _ hne c
  · have hsize : id < s'.containers.size := by
      rw [hfills.filled.size, ← hsound.evolved.size]
      exact hid
    rw [getD_setIfInBounds_self hsize filled]
    exact hcontents.grow fun _ _ h => h

theorem tag_of_emptyContainer?
    {tag : Tag} {keys : List Key} (hempty : emptyContainer? tag = some (.set keys)) :
    tag = .set := by
  cases tag <;> first | rfl | cases hempty

theorem tag_eq_of_emptyContainer?
    {tag : Tag} (htag : g.HasTag id tag) (hcontainer : (emptyContainer? tag).isSome) :
    tag = (g.node id).tag := by
  rcases htag with heq | ⟨-, rfl⟩
  · exact heq
  · cases hcontainer

theorem makesParts_make
    {dialect : Dialect} (hunique : dialect.uniqueKeys = true) (fuel : Nat) (deep : Bool) :
    MakesParts g busy (make dialect fuel deep) := by
  induction fuel generalizing deep with
  | zero =>
      intro id s _ _
      exact nofun
  | succ fuel ih =>
      intro id s hsound hfilled
      refine leads_make_succ hsound.evolved
        (fun part hpart => ⟨fills_self hsound hfilled, Site.part?_of_made hpart⟩)
        (fun f hf m hm => .unfit (hf.unfit m hm)) (isTold_trouble _) (isTold_trouble _)
        fun hmade hopened => ⟨fun x hkey => ?_, fun c hcontainer => ?_⟩
      · exact fills_scalar hsound hfilled hmade hopened hkey
      have hid := lt_size_of_emptyContainer? hcontainer
      have htag : (nodeAt s.nodes id).tag = (g.node id).tag :=
        tag_eq_of_emptyContainer? (hsound.evolved.node id).tag
          (Option.isSome_iff_exists.mpr ⟨c, hcontainer⟩)
      rw [htag] at hcontainer
      have hset (keys : List Key) (hc : c = .set keys) : (g.node id).tag = .set :=
        tag_of_emptyContainer? (hc ▸ hcontainer)
      have hknown := Option.isSome_iff_exists.mpr ⟨c, hcontainer⟩
      refine ⟨fun _ => ?_, fun _ => ?_⟩
      · have hentered := sound_enter hsound fun h => hsound.waiting id h hmade
        have hproceeds := proceeds_containers hentered (s.containers.setIfInBounds id c)
        have hturned : Turned (enter s id) id :=
          ⟨fun h => hsound.waiting id h hmade, .inr List.mem_cons_self⟩
        -- The container is empty so far, and nothing says that it is filled.
        have hempty := filled_setContainer (c := c) hentered (filled_enter hfilled hmade)
          (fun _ _ h => h) hset fun hown => nomatch hmade.symm.trans hown
        refine (fills_contents hunique (ih true) (ih true) hproceeds.sound hempty
          (hproceeds.turned id hturned)).imp fun filled s₂ hs₂ => ?_
        exact fills_filled hsound hmade hopened hid hs₂.1 hs₂.2 hknown rfl
      · exact fills_waiting hsound hfilled hmade hopened hid hset hknown rfl

/-! ## Filling what waits -/

/-- The nodes that have not had their turn. -/
noncomputable def unturned (g : Graph) (s : Site) : Finset Nat := by
  classical exact (Finset.range g.nodes.size).filter fun id => ¬ Turned s id

theorem mem_unturned
    {id : Nat} :
    id ∈ unturned g s ↔ id < g.nodes.size ∧ ¬ Turned s id := by
  simp [unturned]

theorem card_unturned_lt
    (hturned : ∀ id, Turned s id → Turned s' id) {id : Nat} (hid : id < g.nodes.size)
    (hbefore : ¬ Turned s id) (hafter : Turned s' id) :
    (unturned g s').card < (unturned g s).card := by
  refine Finset.card_lt_card (Finset.ssubset_iff_of_subset ?_ |>.mpr ⟨id, ?_, ?_⟩)
  · intro other hother
    rw [mem_unturned] at hother ⊢
    exact ⟨hother.1, fun h => hother.2 (hturned other h)⟩
  · exact mem_unturned.mpr ⟨hid, hbefore⟩
  · exact fun h => (mem_unturned.mp h).2 hafter

/-- Nothing is being filled. -/
def Idle (_ : Nat) : Prop := False

/-- The node that is taken counts as the one that is being filled. -/
theorem filled_pop
    (hfilled : Filled g Idle s) {rest : List Nat} (hpending : s.pending = id :: rest) :
    Filled g (· = id) { s with pending := rest } := by
  have hgrows : Grows s { s with pending := rest } := fun _ _ h => h
  refine { hfilled with contents := ?_ }
  intro other hmade hrest hother
  have hbefore : other ∉ s.pending := by
    rw [hpending, List.mem_cons]
    exact fun h => h.elim hother hrest
  exact (hfilled.contents other hmade hbefore not_false).grow hgrows

/-- Every node waits once at most, so in the end nothing waits. -/
theorem fills_fillAll
    {dialect : Dialect} (hunique : dialect.uniqueKeys = true) (bound fuel : Nat)
    (hsound : Sound g s) (hfilled : Filled g Idle s) (hfuel : (unturned g s).card < fuel) :
    Leads (fillAll dialect bound fuel) s (fun _ s' => Fills g Idle s s' ∧ s'.pending = [])
      (IsTold g) := by
  induction fuel generalizing s with
  | zero => omega
  | succ fuel ih =>
      unfold fillAll
      rw [leads_bind, leads_get]
      split
      next hpending => exact ⟨fills_self hsound hfilled, hpending⟩
      next id rest hpending =>
        have hmem : id ∈ s.pending := by
          rw [hpending]
          exact List.mem_cons_self
        have hwaits : ¬ Turned s id := fun h => h.1 hmem
        have hid : id < g.nodes.size := by
          rw [← hsound.size]
          exact Site.lt_size_of_made (hsound.waiting id hmem)
        obtain ⟨hpop, hturned⟩ := proceeds_pop hsound hpending
        have hbusy := filled_pop hfilled hpending
        rw [leads_bind, leads_modify]
        refine (fills_contents hunique (makesParts_make hunique bound false)
          (makesParts_make hunique bound true) hpop.sound hbusy hturned).bind
            fun filled s₁ hs₁ => ?_
        obtain ⟨hfills, hcontents⟩ := hs₁
        have hlast : Filled g Idle
            { s₁ with containers := s₁.containers.setIfInBounds id filled } :=
          filled_setContainer hfills.sound hfills.filled (fun _ hne h => absurd h hne)
            (fun keys hkeys => hcontents.set.mp ⟨keys, hkeys⟩) fun _ _ _ => hcontents
        have hall := (hpop.trans hfills.proceeds).trans
          (proceeds_containers hfills.sound (s₁.containers.setIfInBounds id filled))
        rw [leads_bind, setContainer, leads_modify]
        have hfirst : Fills g Idle s
            { s₁ with containers := s₁.containers.setIfInBounds id filled } := by
          refine ⟨hall, hlast, hfills.grows, fun other hother => ?_⟩
          have hne : other ≠ id := fun hsame => hwaits (hsame ▸ hother)
          exact (getD_setIfInBounds_of_ne _ hne filled).trans
            (hfills.kept other (hpop.turned other hother))
        have hcard := card_unturned_lt hall.turned hid hwaits
          (hfills.proceeds.turned id hturned)
        refine (ih hall.sound hlast (by omega)).imp fun _ s₂ hs₂ => ?_
        exact ⟨hfirst.trans hs₂.1, hs₂.2⟩

theorem filled_start
    (g : Graph) :
    Filled g Idle (Site.start g) := by
  have hmade (id : Nat) : (Site.start g).made.getD id none = none := by
    unfold Site.start
    rw [Array.getD_eq_getD_getElem?, Array.getElem?_replicate]
    split_ifs <;> rfl
  have hsize : (Site.start g).made.size = g.nodes.size := by simp [Site.start]
  have hempty (id : Nat) : (Site.start g).containers.getD id (.list []) = .list [] := by
    unfold Site.start
    rw [Array.getD_eq_getD_getElem?, Array.getElem?_replicate]
    split_ifs <;> rfl
  have hnull (id : Nat) (part : Part) (hpart : (Site.start g).part? id = some part) :
      part = .scalar .null ∧ g.nodes.size ≤ id := by
    by_cases hid : id < g.nodes.size
    · rw [Site.part?_of_lt (hsize ▸ hid), hmade] at hpart
      cases hpart
    · rw [Site.part?_of_le (by omega)] at hpart
      cases hpart
      exact ⟨rfl, by omega⟩
  refine ⟨by simp [Site.start], fun id part hpart => ?_, fun id hpart => ?_,
    fun _ h => absurd h List.not_mem_nil, fun id keys h => ?_,
    fun id h => nomatch (hmade id).symm.trans h⟩
  · obtain ⟨rfl, hid⟩ := hnull id part hpart
    exact .inr ⟨.null, rfl, Graph.isKey_null hid⟩
  · cases (hnull id _ hpart).1
  · cases (hempty id).symm.trans h

theorem fills_build
    {dialect : Dialect} (hunique : dialect.uniqueKeys = true) (root : Nat) (hsound : Sound g s)
    (hfilled : Filled g Idle s) :
    Leads (build dialect root) s (fun part s' => Fills g Idle s s' ∧ s'.part? root = some part ∧
      s'.pending = []) (IsTold g) := by
  unfold build
  rw [leads_bind, leads_get]
  refine (makesParts_make hunique _ false root s hsound hfilled).bind fun part s₁ hs₁ => ?_
  obtain ⟨hfills, hpart⟩ := hs₁
  have hcard : (unturned g s₁).card < s.nodes.size + 1 := by
    have hle : (unturned g s₁).card ≤ (Finset.range g.nodes.size).card :=
      Finset.card_le_card fun id hid => Finset.mem_range.mpr (mem_unturned.mp hid).1
    rw [Finset.card_range, ← hsound.evolved.size] at hle
    omega
  refine (fills_fillAll hunique _ _ hfills.sound hfills.filled hcard).bind fun _ s₂ hs₂ => ?_
  exact ⟨hfills.trans hs₂.1, hs₂.1.grows _ _ hpart, hs₂.2⟩

end Builder

theorem SharedTree.ofGraph_eq (dialect : Dialect) (g : Graph) :
    SharedTree.ofGraph dialect g =
      match Builder.build dialect g.root (Site.start g) with
      | .ok (root, s) => .ok ⟨root, s.containers⟩
      | .error f => .error f := by
  unfold SharedTree.ofGraph
  change Except.bind (Builder.build dialect g.root (Site.start g)) _ = _
  cases Builder.build dialect g.root (Site.start g) <;> rfl

/-- A tree that was built of a graph is what a site holds when everything is filled. -/
theorem SharedTree.exists_site_of_ofGraph
    {dialect : Dialect} (hunique : dialect.uniqueKeys = true) {g : Graph} {tree : SharedTree}
    (htree : SharedTree.ofGraph dialect g = .ok tree) :
    ∃ site, Builder.build dialect g.root (Site.start g) = .ok (tree.root, site) ∧
      site.containers = tree.containers ∧ site.part? g.root = some tree.root ∧
        Builder.Fills g Builder.Idle (Site.start g) site ∧ site.pending = [] := by
  have hsound : Builder.Sound g (Site.start g) := Builder.sound_start g _
  have hleads := Builder.fills_build hunique g.root hsound (Builder.filled_start g)
  rw [SharedTree.ofGraph_eq] at htree
  unfold Builder.Leads at hleads
  cases hbuild : Builder.build dialect g.root (Site.start g) with
  | error f =>
      rw [hbuild] at htree
      cases htree
  | ok r =>
      rw [hbuild] at htree hleads
      cases htree
      exact ⟨r.2, rfl, rfl, hleads.2.1, hleads.1, hleads.2.2⟩

/-- A document that is read keeps what is written in it.  Every mapping that is made has an
entry for each written entry, in written order and under different keys, unless it has merge
keys; then every other entry that is written in it is there with its own value. -/
theorem Reading.keeps_entries
    {limit : Int} {input : Input} {g : Graph} {reading : Reading}
    (hgraph : Reading.graph .strict input = .ok (some g))
    (hread : Reading.ofInput .strict limit input = .ok reading) :
    ∃ site, Builder.build .strict g.root (Site.start g) = .ok (reading.tree.root, site) ∧
      site.part? g.root = some reading.tree.root ∧
      (∀ id part, site.part? id = some part → g.IsPart id part) ∧
      ∀ id, site.part? id ≠ none → (g.node id).tag = .map →
        ∃ es, reading.tree.container id = .map es ∧ Builder.IsFilled g site id es := by
  rw [Reading.ofInput_of_graph hgraph] at hread
  cases htree : SharedTree.ofGraph .strict g with
  | error f =>
      rw [htree] at hread
      cases hread
  | ok tree =>
      rw [htree] at hread
      cases hread
      obtain ⟨site, hbuild, hcontainers, hroot, hfills, hpending⟩ :=
        SharedTree.exists_site_of_ofGraph rfl htree
      refine ⟨site, hbuild, hroot, hfills.filled.own, fun id hpart htag => ?_⟩
      have hsize : id < site.made.size := by
        rw [hfills.sound.size]
        by_contra hle
        rw [Graph.node_of_le (by omega)] at htag
        cases htag
      rw [Site.part?_of_lt hsize] at hpart
      have hwaits : id ∉ site.pending := by
        rw [hpending]
        exact List.not_mem_nil
      rw [SharedTree.container, ← hcontainers]
      exact hfills.filled.filled id hpart htag hwaits not_false

/-- A mapping that is merged, and one that merges it and overrides a key. -/
def merging : Input :=
  .text "base: &a {x: 1}
top: {<<: *a, x: 2, 1: 3}
".toList

def mergingGraph : Graph where
  nodes := #[
    ⟨.map, ⟨0, 0⟩, .mapping [(1, 2), (5, 6)]⟩,
    ⟨.str, ⟨0, 0⟩, .scalar "base"⟩,
    ⟨.map, ⟨0, 6⟩, .mapping [(3, 4)]⟩,
    ⟨.str, ⟨0, 10⟩, .scalar "x"⟩,
    ⟨.int, ⟨0, 13⟩, .scalar "1"⟩,
    ⟨.str, ⟨1, 0⟩, .scalar "top"⟩,
    ⟨.map, ⟨1, 5⟩, .mapping [(7, 2), (8, 9), (10, 11)]⟩,
    ⟨.merge, ⟨1, 6⟩, .scalar "<<"⟩,
    ⟨.str, ⟨1, 14⟩, .scalar "x"⟩,
    ⟨.int, ⟨1, 17⟩, .scalar "2"⟩,
    ⟨.int, ⟨1, 20⟩, .scalar "1"⟩,
    ⟨.int, ⟨1, 23⟩, .scalar "3"⟩]
  root := 0

theorem graph_merging : Reading.graph .strict merging = .ok (some mergingGraph) := by
  apply eq_ok_of_toOption
  decide +kernel

theorem exists_reading_merging :
    ∃ reading, Reading.ofInput .strict 32 merging = .ok reading :=
  exists_eq_ok_of_isOk (by decide +kernel)

/-- The mapping under `top` keeps the key that it overrides. -/
theorem keeps_entries_merging :
    ∃ reading site es, Reading.graph .strict merging = .ok (some mergingGraph) ∧
      Reading.ofInput .strict 32 merging = .ok reading ∧
        Builder.build .strict 0 (Site.start mergingGraph) = .ok (reading.tree.root, site) ∧
          reading.tree.container 6 = .map es ∧ Builder.IsFilled mergingGraph site 6 es := by
  obtain ⟨reading, hread⟩ := exists_reading_merging
  obtain ⟨site, hbuild, hroot, -, hfilled⟩ := Reading.keeps_entries graph_merging hread
  have hunmerged : mergingGraph.Unmerged (mergingGraph.entries 0) := by
    unfold Graph.Unmerged
    decide
  have hstart : site.part? 0 ≠ none := by
    change site.part? mergingGraph.root ≠ none
    rw [hroot]
    simp
  obtain ⟨top, -, htop⟩ := hfilled 0 hstart rfl
  have hmember : (5, 6) ∈ mergingGraph.entries 0 := by decide
  obtain ⟨x, -, hx⟩ := exists_of_mem_left (htop.written hunmerged) hmember
  have hmade : site.part? 6 ≠ none := by
    rw [hx.value]
    simp
  obtain ⟨es, hcontainer, hes⟩ := hfilled 6 hmade rfl
  exact ⟨reading, site, es, graph_merging, hread, hbuild, hcontainer, hes⟩

end Wireframe.Yaml
