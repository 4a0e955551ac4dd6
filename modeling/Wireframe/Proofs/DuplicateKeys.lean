import Mathlib.Tactic
import Wireframe.Proofs.Sites
import Wireframe.Yaml.Reading

/-!
# Duplicate keys

A key is reported as written twice only where two keys that are written in one mapping are
equal, or in a mapping with merge keys of its own that is merged into another one.  Such a
mapping may be freed of its merge keys before its own keys are looked over, and then the keys
that it overrides are taken for keys that it repeats.
-/

namespace Wireframe.Yaml

/-- Why a key may be reported as written twice. -/
def Graph.HasCause (g : Graph) : Prop := ∃ id, g.HasTwins (g.entries id) ∨ g.IsCaught id

namespace Builder

variable {g : Graph} {mayChange : Nat → Prop} {s s' : Site}

/-! ## Keys -/

theorem leads_scalarText
    (hevolved : Evolved g mayChange s.nodes) (fuel id : Nat) :
    Leads (scalarText fuel id) s (fun text s' => s' = s ∧ g.HasText id text) Harmless := by
  induction fuel generalizing id with
  | zero => exact rfl
  | succ fuel ih =>
      have hnode := hevolved.node id
      unfold scalarText
      rw [leads_bind, leads_node]
      split
      next text hscalar => exact ⟨rfl, .scalar ((hnode.scalar text).mp hscalar)⟩
      next => exact rfl
      next es hmapping =>
        rw [leads_bind, leads_get]
        dsimp only
        split
        next key value hfind =>
          have hmem := List.mem_of_find?_eq_some hfind
          have hvalue : (nodeAt s.nodes key).tag = .value := by
            simpa [nodeAt] using List.find?_some hfind
          have htag : g.HasTag key .value := hvalue ▸ (hevolved.node key).tag
          have hholds : g.Holds id es := by
            have hholds := hnode.holds
            rwa [hmapping] at hholds
          refine (ih value).imp fun text s' hs' => ?_
          exact ⟨hs'.1, .under hholds hmem htag.eq_value hs'.2⟩
        next => exact rfl

theorem decodeFrom_ne_duplicateKey
    (group : Base64.Group) (text : List Char) (key : String) :
    Base64.decodeFrom group text ≠ .error (.duplicateKey key) := by
  induction text generalizing group with
  | nil =>
      unfold Base64.decodeFrom Base64.Group.finish
      split_ifs <;> simp
  | cons c rest ih =>
      unfold Base64.decodeFrom
      split_ifs
      · exact ih group
      · simp
      · exact ih _
      · split
        · exact ih group
        · split
          · exact ih _
          next b group' _ =>
            have hrest := ih group'
            cases hdecode : Base64.decodeFrom group' rest with
            | ok bytes => simp [Except.map]
            | error c => simpa [Except.map, hdecode] using hrest

theorem isDuplicateKey_of_mapError
    {α : Type} {outcome : Except Misfit α} {f : Failure}
    (hfail : outcome.mapError Failure.misfit = .error f) :
    f.isDuplicateKey = false := by
  cases outcome with
  | ok a => cases hfail
  | error m =>
      cases hfail
      rfl

/-- Reading the text of a scalar reports no duplicate key. -/
theorem isDuplicateKey_of_reading?
    {start : Position} {tag : Tag} {read : String → Except Failure Scalar}
    (hread : reading? start tag = some read) {text : String} {f : Failure}
    (hfail : read text = .error f) :
    f.isDuplicateKey = false := by
  cases tag with
  | binary =>
      cases hread
      simp only at hfail
      split at hfail
      · cases hfail
      next c hdecode =>
        cases hfail
        have hne (key : String) : c ≠ .duplicateKey key := by
          rintro rfl
          unfold Base64.decode at hdecode
          simp only at hdecode
          split_ifs at hdecode
          · exact decodeFrom_ne_duplicateKey _ _ _ hdecode
          · cases hdecode
        unfold Failure.isDuplicateKey
        split
        next key _ heq =>
          cases heq
          exact absurd rfl (hne key)
        next => rfl
  | null =>
      cases hread
      cases hfail
  | str =>
      cases hread
      cases hfail
  | bool | int | float | timestamp =>
      cases hread
      exact isDuplicateKey_of_mapError hfail
  | _ => cases hread

/-- A failure of a node that is read as a scalar.  Only an unfit node is a misfit. -/
structure IsScalarFailure (g : Graph) (id : Nat) (f : Failure) : Prop where
  noDuplicate : f.isDuplicateKey = false
  unfit : ∀ m, f = .misfit m → g.IsUnfit id m

theorem Harmless.noDuplicate {f : Failure} (hf : Harmless f) : f.isDuplicateKey = false :=
  (Bool.or_eq_false_iff.mp hf).1

theorem Harmless.noMisfit {f : Failure} (hf : Harmless f) (m : Misfit) : f ≠ .misfit m := by
  rintro rfl
  exact Bool.noConfusion (Bool.or_eq_false_iff.mp hf).2

theorem leads_scalar?
    (hevolved : Evolved g mayChange s.nodes) (id : Nat) :
    Leads (scalar? id) s (fun found s' => s' = s ∧ ∀ x, found = some x → g.IsKey id x)
      (IsScalarFailure g id) := by
  have hnode := hevolved.node id
  unfold scalar?
  rw [leads_bind, leads_node]
  split
  next => exact ⟨rfl, by simp⟩
  next read hread =>
    rw [leads_bind, leads_get]
    have htexts := (leads_scalarText hevolved (s.nodes.size + 1) id).mono (fun _ _ h => h)
      fun f hf => (⟨hf.noDuplicate, fun m hm => absurd hm (hf.noMisfit m)⟩ : IsScalarFailure g id f)
    refine htexts.bind fun text s' hs' => ?_
    obtain ⟨rfl, htext⟩ := hs'
    have hreads : reading? (g.node id).start (nodeAt s'.nodes id).tag = some read :=
      hnode.start ▸ hread
    split_ifs with hdate
    · refine ⟨rfl, fun m hm => ?_⟩
      cases hm
      obtain ⟨htag, hscalar⟩ := Bool.and_eq_true_iff.mp hdate
      refine ⟨_, read, text, hnode.tag, hreads, htext, .inr ⟨rfl, of_decide_eq_true htag, ?_⟩⟩
      exact hnode.isScalar_eq ▸ by simpa using hscalar
    · split
      next x hx =>
        refine ⟨rfl, fun y hy => ?_⟩
        cases hy
        exact ⟨_, read, text, hnode.tag, hreads, htext, hx⟩
      next f hf =>
        refine ⟨isDuplicateKey_of_reading? hread hf, fun m hm => ?_⟩
        subst hm
        exact ⟨_, read, text, hnode.tag, hreads, htext, .inl hf⟩

/-! ## Causes -/

/-- A duplicate key has a cause. -/
def Explained (g : Graph) (f : Failure) : Prop := f.isDuplicateKey = true → g.HasCause

theorem explained_of_noDuplicate {f : Failure} (hf : f.isDuplicateKey = false) : Explained g f := by
  intro hduplicate
  rw [hf] at hduplicate
  cases hduplicate

theorem Harmless.explained {f : Failure} (hf : Harmless f) : Explained g f :=
  explained_of_noDuplicate hf.noDuplicate

theorem Leads.explained
    {α : Type} {x : Builder α} {post : α → Site → Prop} (hleads : Leads x s post Harmless) :
    Leads x s post (Explained g) :=
  hleads.mono (fun _ _ hpost => hpost) fun _ hf => hf.explained

/-! ## Containers -/

section Contents

variable {make makeKey : Nat → Builder Part}

/-- A builder makes nodes one at a time. -/
def Makes (g : Graph) (make : Nat → Builder Part) : Prop :=
  ∀ id s, Sound g s → Leads (make id) s
    (fun part s' => Proceeds g s s' ∧ ∀ x, part = .scalar x → g.IsKey id x) (Explained g)

theorem leads_makeAll
    (hmake : Makes g make) (ids : List Nat) (hsound : Sound g s) :
    Leads (makeAll make ids) s (fun _ s' => Proceeds g s s') (Explained g) := by
  induction ids generalizing s with
  | nil => exact proceeds_self hsound
  | cons id ids ih =>
      unfold makeAll
      refine (hmake id s hsound).bind fun part s' hs' => ?_
      refine (ih hs'.1.sound).bind fun parts s'' hs'' => ?_
      exact hs'.1.trans hs''

theorem leads_makeEntries
    (hmake : Makes g make) (es : List (Nat × Nat)) (done : List (Key × Part))
    (hsound : Sound g s) :
    Leads (makeEntries make done es) s (fun _ s' => Proceeds g s s') (Explained g) := by
  induction es generalizing s done with
  | nil => exact proceeds_self hsound
  | cons e rest ih =>
      obtain ⟨id, value⟩ := e
      unfold makeEntries
      refine (hmake id s hsound).bind fun part s' hs' => ?_
      split
      · refine (hmake value s' hs'.1.sound).bind fun part s'' hs'' => ?_
        refine (ih _ hs''.1.sound).imp fun _ s₃ hs₃ => ?_
        exact (hs'.1.trans hs''.1).trans hs₃
      · rw [leads_bind, leads_node]
        exact Harmless.explained rfl

theorem leads_makePairs
    (hmake : Makes g make) (activity : Activity) (start : Position) (items : List Nat)
    (hsound : Sound g s) :
    Leads (makePairs make activity start items) s (fun _ s' => Proceeds g s s') (Explained g) := by
  induction items generalizing s with
  | nil => exact proceeds_self hsound
  | cons item items ih =>
      unfold makePairs
      rw [leads_bind, leads_node]
      split
      next key value hcontent =>
        refine (hmake key s hsound).bind fun _ s₁ hs₁ => ?_
        refine (hmake value s₁ hs₁.1.sound).bind fun _ s₂ hs₂ => ?_
        refine (ih hs₂.1.sound).bind fun _ s₃ hs₃ => ?_
        exact (hs₁.1.trans hs₂.1).trans hs₃
      next => exact Harmless.explained rfl
      next => exact Harmless.explained rfl

theorem leads_isSet
    {fail : Failure → Prop} (part : Part) :
    Leads (isSet part) s (fun isSet s' => s' = s ∧ (isSet = true →
      ∃ id keys, part = .container id ∧ s.containers.getD id (.list []) = .set keys)) fail := by
  unfold isSet
  split
  next id =>
    rw [leads_bind, leads_get]
    split
    next keys hset => exact ⟨rfl, fun _ => ⟨id, keys, rfl, hset⟩⟩
    next => exact ⟨rfl, nofun⟩
  next => exact ⟨rfl, nofun⟩

/-- A key is refused where it is equal to one before it in the list that is looked over. -/
theorem leads_checkKeys
    (hmake : Makes g make) {es : List (Nat × Nat)} (hcause : g.HasTwins es → g.HasCause)
    {seen : List Key} {before rest : List (Nat × Nat)} (hes : es = before ++ rest)
    (hseen : ∀ k ∈ seen, ∃ e ∈ before, (g.node e.1).tag ≠ .merge ∧
      ∃ x, k = .scalar x ∧ g.IsKey e.1 x)
    (hsound : Sound g s) :
    Leads (checkKeys make seen rest) s (fun _ s' => Proceeds g s s') (Explained g) := by
  -- The induction carries the entries that were looked over, with the scalars of their keys.
  induction rest generalizing s seen before with
  | nil => exact proceeds_self hsound
  | cons e rest ih =>
      obtain ⟨id, value⟩ := e
      have hnext : es = (before ++ [(id, value)]) ++ rest := by simp [hes]
      have hseenNext : ∀ k ∈ seen, ∃ e ∈ before ++ [(id, value)], (g.node e.1).tag ≠ .merge ∧
          ∃ x, k = .scalar x ∧ g.IsKey e.1 x := by
        intro k hk
        obtain ⟨e, he, hrest⟩ := hseen k hk
        exact ⟨e, List.mem_append_left _ he, hrest⟩
      have htag := ((hsound.evolved.node id).tag).eq_merge_iff
      unfold checkKeys
      rw [leads_bind, leads_node]
      split_ifs with hmerge
      · exact ih hnext hseenNext hsound
      · have hkey : (g.node id).tag ≠ .merge := fun h => hmerge (htag.mpr h)
        refine (hmake id s hsound).bind fun part s' hs' => ?_
        obtain ⟨hproceeds, hscalar⟩ := hs'
        split
        next x =>
          have hx := hscalar x rfl
          dsimp only
          split_ifs with hany
          · intro _
            obtain ⟨k, hk, hsame⟩ := List.any_eq_true.mp hany
            obtain ⟨e, he, hne, y, rfl, hy⟩ := hseen k hk
            refine hcause ⟨e, (id, value), ?_, hne, hkey, y, x, hy, hx, hsame⟩
            rw [hes]
            exact (List.singleton_sublist.mpr he).append
              (List.singleton_sublist.mpr List.mem_cons_self)
          · refine (ih hnext ?_ hproceeds.sound).imp fun _ s'' hs'' => ?_
            · intro k hk
              rcases List.mem_cons.mp hk with rfl | hk
              · exact ⟨(id, value), by simp, hkey, x, rfl, hx⟩
              · exact hseenNext k hk
            · exact hproceeds.trans hs''
        next =>
          refine (leads_isSet part).bind fun isSet s'' hs'' => ?_
          obtain ⟨rfl, -⟩ := hs''
          split_ifs
          · exact explained_of_noDuplicate rfl
          · refine (ih hnext hseenNext hproceeds.sound).imp fun _ s'' hs'' => ?_
            exact hproceeds.trans hs''

/-- The keys that are looked over are those that are written, unless the node is merged into
another one. -/
theorem leads_mappingEntries
    (dialect : Dialect) (hmake : Makes g make) (hmakeKey : Makes g makeKey) {id : Nat}
    (hsound : Sound g s) (hturned : Turned s id)
    (hfresh : held s id = g.entries id ∨ IsMerged g id) :
    Leads (mappingEntries dialect make makeKey id) s (fun _ s' => Proceeds g s s')
      (Explained g) := by
  have hrest (s₁ : Site) (hs₁ : Proceeds g s s₁) :
      Leads (do flatten id; makeEntries make [] (← entries id)) s₁ (fun _ s' => Proceeds g s s')
        (Explained g) := by
    have hmay : ∀ other id, g.Merges other id → other ≠ id → IsMerged g id ∨ Turned s₁ id :=
      fun other _ hmerges hother => .inl ⟨other, hother, hmerges⟩
    refine (leads_flatten hmay (.inr (hs₁.turned id hturned)) hs₁.sound.evolved).explained.bind
      fun _ s₂ hs₂ => ?_
    have hnext := hs₁.trans (hs₁.sound.advance hs₂.1)
    rw [leads_bind, leads_entries]
    refine (leads_makeEntries hmake _ [] hnext.sound).imp fun _ s₃ hs₃ => ?_
    exact hnext.trans hs₃
  unfold mappingEntries
  rw [leads_bind, leads_node]
  split
  next written hwritten =>
    have hheld : held s id = written := congrArg Content.entries hwritten
    have hcause : g.HasTwins written → g.HasCause := by
      intro htwins
      rcases hfresh with hlocal | ⟨other, hother, hmerges⟩
      · exact ⟨id, .inl (hlocal ▸ hheld ▸ htwins)⟩
      · have hholds := (hsound.evolved.node id).holds
        exact ⟨id, htwins.cause (hheld ▸ hholds) hother hmerges⟩
    split_ifs
    · have hbefore : written = [] ++ written := rfl
      refine (leads_checkKeys hmakeKey hcause hbefore (by simp) hsound).bind fun _ s₁ hs₁ => ?_
      exact hrest s₁ hs₁
    · exact hrest s (proceeds_self hsound)
  next => exact Harmless.explained rfl

theorem leads_contents
    (dialect : Dialect) (hmake : Makes g make) (hmakeKey : Makes g makeKey) {id : Nat}
    (hsound : Sound g s) (hturned : Turned s id)
    (hfresh : held s id = g.entries id ∨ IsMerged g id) :
    Leads (contents dialect make makeKey id) s (fun _ s' => Proceeds g s s') (Explained g) := by
  have hentries := leads_mappingEntries dialect hmake hmakeKey hsound hturned hfresh
  unfold contents
  rw [leads_bind, leads_node]
  split
  · exact hentries.bind fun _ _ hs' => hs'
  · exact hentries.bind fun _ _ hs' => hs'
  · exact (leads_makeAll hmake _ hsound).bind fun _ _ hs' => hs'
  · exact Harmless.explained rfl
  · exact (leads_makePairs hmake _ _ _ hsound).bind fun _ _ hs' => hs'
  · exact Harmless.explained rfl

end Contents

/-! ## Making and filling -/

theorem lt_size_of_emptyContainer?
    {nodes : Array Node} {id : Nat} {c : Container}
    (hc : emptyContainer? (nodeAt nodes id).tag = some c) :
    id < nodes.size := by
  refine lt_size_of_ne fun hdefault => ?_
  rw [hdefault] at hc
  cases hc

/-- A node that is made is not made again.  At its turn a scalar is made at once, and a container
is made empty; it is filled at once or waits. -/
theorem leads_make_succ
    {dialect : Dialect} {fuel : Nat} {deep : Bool} {id : Nat} {post : Part → Site → Prop}
    {fail : Failure → Prop} (hevolved : Evolved g mayChange s.nodes)
    (hmade : ∀ part, s.made.getD id none = some part → post part s)
    (hscalar : ∀ f, IsScalarFailure g id f → fail f)
    (hrecursive : fail (.trouble ⟨none, .recursiveNode, (nodeAt s.nodes id).start⟩))
    (hunknown : fail (.trouble
      ⟨none, .unknownTag (nodeAt s.nodes id).tag.name, (nodeAt s.nodes id).start⟩))
    (hturn : s.made.getD id none = none → id ∉ s.opened →
      (∀ x, g.IsKey id x → post (.scalar x) (leave (enter s id) id (.scalar x))) ∧
      ∀ c, emptyContainer? (nodeAt s.nodes id).tag = some c →
        (deep = true → Leads (contents dialect (make dialect fuel true) (make dialect fuel true) id)
          { enter s id with containers := s.containers.setIfInBounds id c }
          (fun filled s' => post (.container id)
            (leave { s' with containers := s'.containers.setIfInBounds id filled } id
              (.container id))) fail) ∧
        (deep = false → post (.container id) (leave { enter s id with
          containers := s.containers.setIfInBounds id c, pending := s.pending ++ [id] } id
            (.container id)))) :
    Leads (make dialect (fuel + 1) deep id) s post fail := by
  unfold make
  rw [leads_bind, leads_get]
  split
  next part hpart => exact hmade part hpart
  next hunmade =>
    have hnone : s.made.getD id none = none := by
      cases hpart : s.made.getD id none with
      | none => rfl
      | some part => exact absurd hpart (hunmade part)
    rw [leads_bind, leads_node, leads_bind, leads_get]
    dsimp only
    by_cases hopened : id ∈ s.opened
    · rw [if_pos (List.contains_iff_mem.mpr hopened)]
      exact hrecursive
    obtain ⟨hmakes, hcontainer⟩ := hturn hnone hopened
    rw [if_neg (mt List.contains_iff_mem.mp hopened), leads_bind, leads_modify]
    change Leads _ (enter s id) _ _
    have hreads := (leads_scalar? (s := enter s id) hevolved id).mono (fun _ _ h => h) hscalar
    refine hreads.bind fun found s₁ hs₁ => ?_
    obtain ⟨rfl, hfound⟩ := hs₁
    split
    next x =>
      rw [leads_bind, leads_pure, leads_bind, leads_modify, leads_pure]
      exact hmakes x (hfound x rfl)
    next c hc =>
      obtain ⟨hfilled, hwaits⟩ := hcontainer c hc
      rw [leads_bind, setContainer, leads_modify]
      split_ifs with hdeep
      · refine (hfilled hdeep).bind fun filled s₂ hs₂ => ?_
        rw [leads_bind, setContainer, leads_modify, leads_bind, leads_pure, leads_bind,
          leads_modify, leads_pure]
        exact hs₂
      · rw [leads_bind, leads_modify, leads_bind, leads_pure, leads_bind, leads_modify, leads_pure]
        exact hwaits (Bool.eq_false_iff.mpr hdeep)
    next => exact hunknown

theorem leads_make
    (dialect : Dialect) (fuel : Nat) (deep : Bool) :
    Makes g (make dialect fuel deep) := by
  induction fuel generalizing deep with
  | zero =>
      intro id s _
      exact Harmless.explained rfl
  | succ fuel ih =>
      intro id s hsound
      -- A node that is being made already holds itself below a key, which is no duplicate.
      refine leads_make_succ hsound.evolved
        (fun part hpart => ⟨proceeds_self hsound, fun x hx => hsound.scalars id x (hx ▸ hpart)⟩)
        (fun f hf => explained_of_noDuplicate hf.noDuplicate) (Harmless.explained rfl)
        (Harmless.explained rfl) fun hnone hopened => ?_
      -- This is the turn of the node, so only merging can have changed its entries so far.
      have hturn : ¬ Turned s id := fun h => h.2.elim (fun hne => hne hnone) hopened
      have hpending : id ∉ s.pending := fun h => hsound.waiting id h hnone
      have hentered := sound_enter hsound hpending
      refine ⟨fun x hkey => ?_, fun c hcontainer => ⟨fun _ => ?_, fun _ => ?_⟩⟩
      · have hpart (y : Scalar) (hy : Part.scalar x = .scalar y) : g.IsKey id y :=
          Part.scalar.inj hy ▸ hkey
        exact ⟨proceeds_leave (proceeds_self hentered) hturn hpart, hpart⟩
      · have hempty := proceeds_containers hentered (s.containers.setIfInBounds id c)
        have hturned : Turned (enter s id) id := ⟨hpending, .inr List.mem_cons_self⟩
        refine (leads_contents dialect (ih true) (ih true) hempty.sound
          (hempty.turned id hturned) (hsound.fresh hturn)).imp fun filled s₂ hs₂ => ?_
        have hfull := (hempty.trans hs₂).trans
          (proceeds_containers hs₂.sound (s₂.containers.setIfInBounds id filled))
        exact ⟨proceeds_leave hfull hturn nofun, nofun⟩
      · have hid := lt_size_of_emptyContainer? hcontainer
        exact ⟨proceeds_wait hsound hid hnone hopened _, nofun⟩

theorem leads_fillAll
    (dialect : Dialect) (bound fuel : Nat) (hsound : Sound g s) :
    Leads (fillAll dialect bound fuel) s (fun _ s' => Proceeds g s s') (Explained g) := by
  induction fuel generalizing s with
  | zero => exact proceeds_self hsound
  | succ fuel ih =>
      unfold fillAll
      rw [leads_bind, leads_get]
      split
      next => exact proceeds_self hsound
      next id rest hpending =>
        have hwaits : ¬ Turned s id := by
          intro hturned
          apply hturned.1
          rw [hpending]
          exact List.mem_cons_self
        obtain ⟨hpop, hturned⟩ := proceeds_pop hsound hpending
        rw [leads_bind, leads_modify]
        refine (leads_contents dialect (leads_make dialect bound false)
          (leads_make dialect bound true) hpop.sound hturned (hsound.fresh hwaits)).bind
          fun filled s₁ hs₁ => ?_
        have hnext := (hpop.trans hs₁).trans
          (proceeds_containers hs₁.sound (s₁.containers.setIfInBounds id filled))
        rw [leads_bind, setContainer, leads_modify]
        exact (ih hnext.sound).imp fun _ s₂ hs₂ => hnext.trans hs₂

theorem leads_build
    (dialect : Dialect) (root : Nat) (hsound : Sound g s) :
    Leads (build dialect root) s (fun _ s' => Proceeds g s s') (Explained g) := by
  unfold build
  rw [leads_bind, leads_get]
  refine (leads_make dialect _ false root s hsound).bind fun part s₁ hs₁ => ?_
  refine (leads_fillAll dialect _ _ hs₁.1.sound).bind fun _ s₂ hs₂ => ?_
  exact hs₁.1.trans hs₂

end Builder

theorem SharedTree.hasCause_of_isDuplicateKey
    {dialect : Dialect} {g : Graph} {f : Failure}
    (hfail : SharedTree.ofGraph dialect g = .error f) (hkey : f.isDuplicateKey = true) :
    g.HasCause := by
  have hleads := Builder.leads_build dialect g.root
    (Builder.sound_start g (Array.replicate g.nodes.size (.list [])))
  unfold Builder.Leads at hleads
  unfold SharedTree.ofGraph StateT.run at hfail
  dsimp only at hfail
  split at hleads
  next part s hbuild =>
    rw [hbuild] at hfail
    cases hfail
  next e hbuild =>
    rw [hbuild] at hfail
    cases hfail
    exact hleads hkey

namespace Reading

variable {dialect : Dialect} {limit : Int} {input : Input}

theorem ofInput_of_graph
    {g : Graph} (hgraph : graph dialect input = .ok (some g)) :
    ofInput dialect limit input =
      (SharedTree.ofGraph dialect g).map fun tree => ⟨tree, g.positions limit⟩ := by
  unfold ofInput
  rw [hgraph]
  change (SharedTree.ofGraph dialect g).bind _ = _
  cases SharedTree.ofGraph dialect g <;> rfl

theorem ofInput_of_none (hgraph : graph dialect input = .ok none) :
    ofInput dialect limit input = .ok empty := by
  unfold ofInput
  rw [hgraph]
  rfl

theorem ofInput_of_error
    {f : Failure} (hgraph : graph dialect input = .error f) :
    ofInput dialect limit input = .error f := by
  unfold ofInput
  rw [hgraph]
  rfl

end Reading

/-- Where a duplicate key is reported, two equal keys are written in one mapping, or a mapping
with merge keys of its own is merged into another one. -/
theorem Reading.twins_or_isCaught
    {dialect : Dialect} {limit : Int} {input : Input} {g : Graph} {f : Failure}
    (hgraph : Reading.graph dialect input = .ok (some g))
    (hfail : Reading.ofInput dialect limit input = .error f) (hkey : f.isDuplicateKey = true) :
    ∃ id, g.HasTwins (g.entries id) ∨ g.IsCaught id := by
  rw [Reading.ofInput_of_graph hgraph] at hfail
  cases htree : SharedTree.ofGraph dialect g with
  | ok tree =>
      rw [htree] at hfail
      cases hfail
  | error e =>
      rw [htree] at hfail
      cases hfail
      exact SharedTree.hasCause_of_isDuplicateKey htree hkey

/-- The mapping `inner` overrides a key that it merges, and is merged itself by `top`, which is
filled before `inner` is. -/
def overriding : Input :=
  .text ("base: &a \x7bx: 1\x7d\ndeep:\n  inner: &b \x7b<<: *a, x: 2\x7d\n" ++
    "top: \x7b<<: *b\x7d\n").toList

def overridingGraph : Graph where
  nodes := #[
    ⟨.map, ⟨0, 0⟩, .mapping [(1, 2), (5, 6), (12, 13)]⟩,
    ⟨.str, ⟨0, 0⟩, .scalar "base"⟩,
    ⟨.map, ⟨0, 6⟩, .mapping [(3, 4)]⟩,
    ⟨.str, ⟨0, 10⟩, .scalar "x"⟩,
    ⟨.int, ⟨0, 13⟩, .scalar "1"⟩,
    ⟨.str, ⟨1, 0⟩, .scalar "deep"⟩,
    ⟨.map, ⟨2, 2⟩, .mapping [(7, 8)]⟩,
    ⟨.str, ⟨2, 2⟩, .scalar "inner"⟩,
    ⟨.map, ⟨2, 9⟩, .mapping [(9, 2), (10, 11)]⟩,
    ⟨.merge, ⟨2, 13⟩, .scalar "<<"⟩,
    ⟨.str, ⟨2, 21⟩, .scalar "x"⟩,
    ⟨.int, ⟨2, 24⟩, .scalar "2"⟩,
    ⟨.str, ⟨3, 0⟩, .scalar "top"⟩,
    ⟨.map, ⟨3, 5⟩, .mapping [(14, 8)]⟩,
    ⟨.merge, ⟨3, 6⟩, .scalar "<<"⟩]
  root := 0

theorem graph_overriding : Reading.graph .strict overriding = .ok (some overridingGraph) := by
  apply eq_ok_of_toOption
  decide +kernel

theorem exists_failure_overriding :
    ∃ f, Reading.ofInput .strict 32 overriding = .error f ∧ f.isDuplicateKey = true := by
  have hfails : (match Reading.ofInput .strict 32 overriding with
      | .ok _ => false
      | .error f => f.isDuplicateKey) = true := by
    decide +kernel
  split at hfails
  next => cases hfails
  next f hread => exact ⟨f, hread, hfails⟩

theorem twins_or_isCaught_overriding :
    ∃ f, Reading.graph .strict overriding = .ok (some overridingGraph) ∧
      Reading.ofInput .strict 32 overriding = .error f ∧ f.isDuplicateKey = true ∧
        ∃ id, overridingGraph.HasTwins (overridingGraph.entries id) ∨
          overridingGraph.IsCaught id := by
  obtain ⟨f, hfail, hkey⟩ := exists_failure_overriding
  exact ⟨f, graph_overriding, hfail, hkey, Reading.twins_or_isCaught graph_overriding hfail hkey⟩

/-- A duplicate key is reported although no two equal keys are written in one mapping. -/
theorem exists_duplicateKey_without_twins :
    ∃ g f, Reading.graph .strict overriding = .ok (some g) ∧
      Reading.ofInput .strict 32 overriding = .error f ∧ f.isDuplicateKey = true ∧
        ∀ id, ¬ g.HasTwins (g.entries id) := by
  obtain ⟨f, hfail, hkey⟩ := exists_failure_overriding
  refine ⟨overridingGraph, f, graph_overriding, hfail, hkey, fun id => ?_⟩
  by_cases hid : id < overridingGraph.nodes.size
  · have hkeys : ∀ id < 15, ∀ e ∈ overridingGraph.entries id,
        (overridingGraph.node e.1).tag ≠ .merge →
          (overridingGraph.node e.1).tag = .str ∧
            (overridingGraph.node e.1).content.isScalar = true := by
      decide +kernel
    have hdistinct : ∀ id < 15, (overridingGraph.entries id).Pairwise fun a b =>
        (overridingGraph.node a.1).content ≠ (overridingGraph.node b.1).content := by
      decide +kernel
    exact Graph.not_hasTwins_of_pairwise (hkeys id hid) (hdistinct id hid)
  · rw [Graph.entries_eq_nil (by omega)]
    rintro ⟨first, second, hpair, -⟩
    cases hpair

end Wireframe.Yaml
