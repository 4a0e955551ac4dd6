import Mathlib.Tactic
import Wireframe.Proofs.MergeKeys

/-!
# Flattening mappings

Freeing a mapping of its merge keys changes nothing but nodes, and only those of the mapping
and of what is merged into another mapping.  Whatever is brought in has no merge keys left.
-/

namespace Wireframe.Yaml

namespace Builder

/-- Nothing but nodes has changed, and they have evolved from the graph. -/
structure Advances (g : Graph) (mayChange : Nat → Prop) (s s' : Site) : Prop where
  evolved : Evolved g mayChange s'.nodes
  frame : s' = { s with nodes := s'.nodes }

/-- A failure that reports no duplicate key and is no misfit. -/
def Harmless (f : Failure) : Prop := (f.isDuplicateKey || f.isMisfit) = false

/-- The entries of a node at a site. -/
def held (s : Site) (id : Nat) : List (Nat × Nat) := (nodeAt s.nodes id).content.entries

variable {g : Graph} {mayChange : Nat → Prop} {s s' s'' : Site}

theorem advances_self (hevolved : Evolved g mayChange s.nodes) : Advances g mayChange s s :=
  ⟨hevolved, rfl⟩

theorem Advances.trans
    (hfirst : Advances g mayChange s s') (hnext : Advances g mayChange s' s'') :
    Advances g mayChange s s'' := by
  refine ⟨hnext.evolved, ?_⟩
  rw [hnext.frame, hfirst.frame]

theorem leads_setEntries
    (hevolved : Evolved g mayChange s.nodes) {id : Nat} {es : List (Nat × Nat)}
    (hmapping : ∃ es, (g.node id).content = .mapping es) (hholds : g.Holds id es)
    (hmay : mayChange id) :
    Leads (setEntries id es) s (fun _ s' => Advances g mayChange s s' ∧ held s' id = es)
      Harmless := by
  obtain ⟨hid, hnext⟩ := hevolved.setEntries hmapping hholds hmay
  have hset : nodeAt (s.nodes.modify id fun n => { n with content := .mapping es }) id =
      { nodeAt s.nodes id with content := .mapping es } := by
    rw [nodeAt_modify hid, if_pos rfl]
  rw [setEntries, leads_modify]
  exact ⟨⟨hnext, rfl⟩, congrArg (fun n => n.content.entries) hset⟩

/-- The first merge key is taken out of the entries, if there is any. -/
theorem leads_splitMerge
    (hevolved : Evolved g mayChange s.nodes) (es : List (Nat × Nat)) :
    Leads (splitMerge es) s (fun found s' => s' = s ∧ match found with
        | none => g.Unmerged es
        | some (source, others) => ∃ xs e ys, es = xs ++ e :: ys ∧
            (g.node e.1).tag = .merge ∧ e.2 = source ∧ others = xs ++ ys)
      Harmless := by
  induction es with
  | nil => exact ⟨rfl, by intro e he; cases he⟩
  | cons e rest ih =>
      obtain ⟨key, value⟩ := e
      have htag := ((hevolved.node key).tag).eq_merge_iff
      unfold splitMerge
      rw [leads_bind, leads_node]
      split_ifs with hmerge
      · exact ⟨rfl, [], (key, value), rest, rfl, htag.mp hmerge, rfl, rfl⟩
      · refine ih.bind fun found s' hfound => ?_
        obtain ⟨rfl, hfound⟩ := hfound
        cases found with
        | none =>
            refine ⟨rfl, ?_⟩
            intro e he
            rcases List.mem_cons.mp he with rfl | hmem
            · exact fun h => hmerge (htag.mpr h)
            · exact hfound e hmem
        | some r =>
            obtain ⟨source, others⟩ := r
            obtain ⟨xs, e, ys, rfl, hkey, hsource, rfl⟩ := hfound
            exact ⟨rfl, (key, value) :: xs, e, ys, rfl, hkey, hsource, rfl⟩

theorem leads_freeValueKeys
    (hevolved : Evolved g mayChange s.nodes) (es : List (Nat × Nat)) :
    Leads (freeValueKeys es) s (fun _ s' => Advances g mayChange s s' ∧
        ∀ id, (nodeAt s'.nodes id).content = (nodeAt s.nodes id).content)
      Harmless := by
  induction es generalizing s with
  | nil => exact ⟨advances_self hevolved, fun _ => rfl⟩
  | cons e rest ih =>
      obtain ⟨key, value⟩ := e
      unfold freeValueKeys
      rw [leads_bind, leads_node]
      split_ifs with hvalue
      · rw [leads_bind, setTag, leads_modify]
        obtain ⟨hnext, hcontent⟩ := hevolved.setTag hvalue
        refine (ih hnext).imp fun _ s' hs' => ?_
        obtain ⟨hadvances, hsame⟩ := hs'
        refine ⟨⟨hadvances.evolved, by rw [hadvances.frame]⟩, fun id => ?_⟩
        rw [hsame id, hcontent id]
      · exact ih hevolved

theorem leads_settle
    (hevolved : Evolved g mayChange s.nodes) {id : Nat} {more : List (Nat × Nat)}
    (hown : g.Unmerged (held s id)) (hmore : g.Unmerged more) (hbrings : g.Brings id more)
    (hmay : mayChange id) (hmapping : more ≠ [] → ∃ es, (g.node id).content = .mapping es) :
    Leads (settle id more) s (fun _ s' => Advances g mayChange s s' ∧ g.Unmerged (held s' id))
      Harmless := by
  unfold settle
  rw [leads_bind, leads_entries]
  refine (leads_freeValueKeys hevolved _).bind fun _ s' hs' => ?_
  obtain ⟨hadvances, hsame⟩ := hs'
  have hheld : held s' id = held s id := congrArg Content.entries (hsame id)
  cases more with
  | nil => exact ⟨hadvances, hheld ▸ hown⟩
  | cons e rest =>
      have hholds := hbrings _ (hevolved.node id).holds
      refine (leads_setEntries hadvances.evolved (hmapping (by simp)) hholds hmay).imp
        fun _ s'' hs'' => ?_
      obtain ⟨hlast, hset⟩ := hs''
      exact ⟨hadvances.trans hlast, hset ▸ hmore.append hown⟩

/-- A builder frees a mapping of its merge keys. -/
def Flattens (g : Graph) (mayChange : Nat → Prop) (flatten : Nat → Builder Unit) (id : Nat) :
    Prop :=
  ∀ s, Evolved g mayChange s.nodes →
    Leads (flatten id) s (fun _ s' => Advances g mayChange s s' ∧ g.Unmerged (held s' id))
      Harmless

/-- What is brought into a mapping has no merge keys and may stand in front of it. -/
structure IsBrought (g : Graph) (id : Nat) (more : List (Nat × Nat)) : Prop where
  unmerged : g.Unmerged more
  brings : g.Brings id more

theorem IsBrought.append
    {id : Nat} {more others : List (Nat × Nat)} (hmore : IsBrought g id more)
    (hothers : IsBrought g id others) :
    IsBrought g id (more ++ others) :=
  ⟨hmore.unmerged.append hothers.unmerged, hmore.brings.append hothers.brings⟩

section Sources

variable {flatten : Nat → Builder Unit} {id : Nat}

theorem leads_source
    (hevolved : Evolved g mayChange s.nodes) {source : Nat}
    (hflatten : Flattens g mayChange flatten source) (hmerges : g.Merges id source) :
    Leads (do flatten source; entries source) s
      (fun more s' => Advances g mayChange s s' ∧ IsBrought g id more) Harmless := by
  refine (hflatten s hevolved).bind fun _ s' hs' => ?_
  obtain ⟨hadvances, hunmerged⟩ := hs'
  rw [leads_entries]
  exact ⟨hadvances, hunmerged,
    hmerges.brings (hadvances.evolved.node source).holds hunmerged⟩

theorem leads_mergeItems
    (hevolved : Evolved g mayChange s.nodes) {items : List Nat}
    (hflatten : ∀ x ∈ items, Flattens g mayChange flatten x)
    (hmerges : ∀ x ∈ items, g.Merges id x) :
    Leads (mergeItems flatten items) s
      (fun more s' => Advances g mayChange s s' ∧ IsBrought g id more) Harmless := by
  induction items generalizing s with
  | nil =>
      refine ⟨advances_self hevolved, ?_, Graph.brings_nil id⟩
      intro e he
      cases he
  | cons x xs ih =>
      unfold mergeItems
      rw [leads_bind, leads_node]
      split
      next es hmapping =>
        refine (hflatten x List.mem_cons_self s hevolved).bind fun _ s' hs' => ?_
        obtain ⟨hadvances, hunmerged⟩ := hs'
        have hfirst : IsBrought g id (held s' x) := ⟨hunmerged,
          (hmerges x List.mem_cons_self).brings (hadvances.evolved.node x).holds hunmerged⟩
        rw [leads_bind, leads_entries]
        refine (ih hadvances.evolved (fun y hy => hflatten y (List.mem_cons_of_mem _ hy))
          fun y hy => hmerges y (List.mem_cons_of_mem _ hy)).bind fun more s'' hs'' => ?_
        exact ⟨hadvances.trans hs''.1, hs''.2.append hfirst⟩
      next => exact rfl

theorem leads_brought
    (hevolved : Evolved g mayChange s.nodes) {e : Nat × Nat} (he : e ∈ g.entries id)
    (hmerge : (g.node e.1).tag = .merge)
    (hflatten : ∀ x, g.Merges id x → Flattens g mayChange flatten x) :
    Leads (brought flatten e.2) s
      (fun more s' => Advances g mayChange s s' ∧ IsBrought g id more) Harmless := by
  unfold brought
  rw [leads_bind, leads_node]
  split
  next es hmapping =>
    have hmerges : g.Merges id e.2 := ⟨e, he, hmerge, .inl rfl⟩
    exact leads_source hevolved (hflatten _ hmerges) hmerges
  next items hsequence =>
    have hitems := ((hevolved.node e.2).sequence items).mp hsequence
    have hmerges : ∀ x ∈ items, g.Merges id x := fun x hx =>
      ⟨e, he, hmerge, .inr ⟨items, hitems, hx⟩⟩
    exact leads_mergeItems hevolved (fun x hx => hflatten x (hmerges x hx)) hmerges
  next => exact rfl

end Sources

theorem leads_takeMerges
    (hmay : ∀ other id, g.Merges other id → other ≠ id → mayChange id) (fuel : Nat) {id : Nat}
    (hid : mayChange id) (hevolved : Evolved g mayChange s.nodes) :
    Leads (takeMerges fuel id) s
      (fun more s' => Advances g mayChange s s' ∧ g.Unmerged (held s' id) ∧
        IsBrought g id more ∧ (more ≠ [] → ∃ es, (g.node id).content = .mapping es))
      Harmless := by
  induction fuel generalizing s id with
  | zero => exact rfl
  | succ fuel ih =>
      unfold takeMerges
      rw [leads_bind, leads_entries]
      refine (leads_splitMerge hevolved _).bind fun found s' hfound => ?_
      obtain ⟨rfl, hfound⟩ := hfound
      cases found with
      | none =>
          refine ⟨advances_self hevolved, hfound, ⟨?_, Graph.brings_nil id⟩, fun h => absurd rfl h⟩
          intro e he
          cases he
      | some r =>
          obtain ⟨source, others⟩ := r
          obtain ⟨xs, e, ys, heq, hmerge, rfl, rfl⟩ := hfound
          have hnode := hevolved.node id
          have hholds : g.Holds id (xs ++ e :: ys) := heq ▸ hnode.holds
          have he : e ∈ g.entries id := hholds.mem_entries (by simp) hmerge
          have hmapping : ∃ es, (g.node id).content = .mapping es := by
            unfold Graph.entries Content.entries at he
            split at he
            next es hes => exact ⟨es, hes⟩
            next => cases he
          refine (leads_setEntries hevolved hmapping (.dropped hholds hmerge) hid).bind
            fun _ s₁ hs₁ => ?_
          -- A source is freed of its merge keys in turn, and it may be the mapping itself.
          have hflatten : ∀ x, g.Merges id x → Flattens g mayChange
              (fun x => do settle x (← takeMerges fuel x)) x := by
            intro x hx s₂ hs₂
            have hmayx : mayChange x := by
              by_cases hsame : id = x
              · exact hsame ▸ hid
              · exact hmay id x hx hsame
            refine (ih hmayx hs₂).bind fun more s₃ hs₃ => ?_
            obtain ⟨hadvances, hown, hmore, hmap⟩ := hs₃
            refine (leads_settle hadvances.evolved hown hmore.unmerged hmore.brings hmayx hmap).imp
              fun _ s₄ hs₄ => ?_
            exact ⟨hadvances.trans hs₄.1, hs₄.2⟩
          refine (leads_brought hs₁.1.evolved he hmerge hflatten).bind fun first s₂ hs₂ => ?_
          refine (ih hid hs₂.1.evolved).bind fun rest s₃ hs₃ => ?_
          obtain ⟨hadvances, hown, hmore, -⟩ := hs₃
          exact ⟨(hs₁.1.trans hs₂.1).trans hadvances, hown, hs₂.2.append hmore, fun _ => hmapping⟩

theorem leads_flatten
    (hmay : ∀ other id, g.Merges other id → other ≠ id → mayChange id) {id : Nat}
    (hid : mayChange id) (hevolved : Evolved g mayChange s.nodes) :
    Leads (flatten id) s (fun _ s' => Advances g mayChange s s' ∧ g.Unmerged (held s' id))
      Harmless := by
  unfold flatten
  rw [leads_bind, leads_get]
  refine (leads_takeMerges hmay _ hid hevolved).bind fun more s' hs' => ?_
  obtain ⟨hadvances, hown, hmore, hmapping⟩ := hs'
  refine (leads_settle hadvances.evolved hown hmore.unmerged hmore.brings hid hmapping).imp
    fun _ s'' hs'' => ?_
  exact ⟨hadvances.trans hs''.1, hs''.2⟩

end Builder

end Wireframe.Yaml
