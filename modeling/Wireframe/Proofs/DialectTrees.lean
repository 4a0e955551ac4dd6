import Mathlib.Tactic
import Wireframe.Proofs.Dialects
import Wireframe.Proofs.FlatGraphs

/-!
# Trees in two dialects

One dialect makes the keys of a mapping before it looks at anything else, to refuse those that
are written twice.  Where no mapping has merge keys, equals signs or equal keys, this makes
scalars early and nothing else.  So the two builders go side by side, with the same containers
at every step, and the strict one is ahead by scalars that the other one makes later.
-/

namespace Wireframe.Yaml

namespace Builder

variable {g : Graph} {s s' t t' : Site}

/-! ## Two builders side by side -/

/-- The first site is ahead of the second by scalars.  Nothing that is being made is one. -/
structure Ahead (g : Graph) (s t : Site) : Prop where
  honest : Honest g s
  nodes : t.nodes = s.nodes
  containers : t.containers = s.containers
  opened : t.opened = s.opened
  pending : t.pending = s.pending
  size : t.made.size = s.made.size
  made : ∀ id, t.made.getD id none = s.made.getD id none ∨
    t.made.getD id none = none ∧ ∃ x, g.scalarOf id = .ok (some x)
  busy : ∀ id ∈ s.opened, g.scalarOf id = .ok none

/-- From two sites, two builders lead to the same result or fail. -/
def Agree {α : Type} (x x' : Builder α) (s t : Site) (post : α → Site → Site → Prop) : Prop :=
  match x s, x' t with
  | .ok (a, s'), .ok (a', t') => a = a' ∧ post a s' t'
  | .error _, .error _ => True
  | _, _ => False

section Agree

variable {α β : Type} {x x' : Builder α} {post : α → Site → Site → Prop}

theorem agree_pure {a : α} (hpost : post a s t) : Agree (pure a) (pure a) s t post := ⟨rfl, hpost⟩

theorem Agree.mono
    {post' : α → Site → Site → Prop} (hagree : Agree x x' s t post)
    (hpost : ∀ a s' t', post a s' t' → post' a s' t') :
    Agree x x' s t post' := by
  unfold Agree at *
  split at hagree
  next a s' a' t' hx hx' => exact ⟨hagree.1, hpost a s' t' hagree.2⟩
  next => trivial
  next => exact hagree.elim

theorem Agree.bind
    {y y' : Builder β} {next next' : β → Builder α} {mid : β → Site → Site → Prop}
    (hagree : Agree y y' s t mid)
    (hnext : ∀ b s' t', mid b s' t' → Agree (next b) (next' b) s' t' post) :
    Agree (y >>= next) (y' >>= next') s t post := by
  unfold Agree at hagree
  split at hagree
  next b s' b' t' hy hy' =>
    obtain ⟨rfl, hmid⟩ := hagree
    have hrest := hnext b s' t' hmid
    unfold Agree at hrest ⊢
    rw [bind_of_eq hy, bind_of_eq hy']
    exact hrest
  next f f' hy hy' =>
    unfold Agree
    rw [bind_of_error hy, bind_of_error hy']
    trivial
  next => exact hagree.elim

/-- Neither builder leads anywhere. -/
theorem agree_of_fail
    (hx : Leads x s (fun _ _ => False) fun _ => True)
    (hx' : Leads x' t (fun _ _ => False) fun _ => True) :
    Agree x x' s t post := by
  unfold Leads at hx hx'
  unfold Agree
  cases hs : x s with
  | ok r =>
      rw [hs] at hx
      exact hx.elim
  | error f =>
      cases ht : x' t with
      | ok r =>
          rw [ht] at hx'
          exact hx'.elim
      | error f' => trivial

/-- Only the first builder does anything, and it does not fail. -/
theorem agree_left
    {y : Builder β} {next : β → Builder α}
    (hy : Leads y s (fun b s' => Agree (next b) x' s' t post) fun _ => False) :
    Agree (y >>= next) x' s t post := by
  unfold Leads at hy
  cases hs : y s with
  | ok r =>
      rw [hs] at hy
      unfold Agree at hy ⊢
      rw [bind_of_eq hs]
      exact hy
  | error f =>
      rw [hs] at hy
      exact hy.elim

theorem agree_complain
    (activity : Option Activity) (complaint : Complaint) (position : Position) :
    Agree (Failure.complain activity complaint position : Builder α)
      (Failure.complain activity complaint position) s t post :=
  trivial

end Agree

/-- Two builders make the same of a node, and the first stays ahead. -/
def MakesAlike (g : Graph) (make make' : Nat → Builder Part) : Prop :=
  ∀ id s t, Ahead g s t → Agree (make id) (make' id) s t fun _ s' t' => Ahead g s' t'

/-- A builder makes scalars, and nothing else changes. -/
def MakesScalars (g : Graph) (make : Nat → Builder Part) : Prop :=
  ∀ id s t x, Ahead g s t → g.scalarOf id = .ok (some x) →
    Leads (make id) s (fun part s' => part = .scalar x ∧ Ahead g s' t) fun _ => False

/-- A builder makes nothing. -/
def MakesNothing (make : Nat → Builder Part) : Prop :=
  ∀ id s, Leads (make id) s (fun _ _ => False) fun _ => True

theorem Ahead.other (hahead : Ahead g s t) : Honest g t where
  nodes := hahead.nodes.trans hahead.honest.nodes
  made id part hpart := by
    rcases hahead.made id with heq | ⟨hnone, -⟩
    · exact hahead.honest.made id part (heq ▸ hpart)
    · rw [hnone] at hpart
      cases hpart

theorem agree_node
    (hahead : Ahead g s t) (id : Nat) :
    Agree (node id) (node id) s t fun _ s' t' => Ahead g s' t' := by
  refine ⟨?_, hahead⟩
  rw [hahead.nodes]

section Contents

variable {make makeKey make' makeKey' : Nat → Builder Part}

theorem agree_makeAll
    (hmake : MakesAlike g make make') (ids : List Nat) (hahead : Ahead g s t) :
    Agree (makeAll make ids) (makeAll make' ids) s t fun _ s' t' => Ahead g s' t' := by
  induction ids generalizing s t with
  | nil => exact agree_pure hahead
  | cons id ids ih =>
      unfold makeAll
      refine (hmake id s t hahead).bind fun part s₁ t₁ h₁ => ?_
      exact (ih h₁).bind fun parts s₂ t₂ h₂ => agree_pure h₂

theorem agree_makePairs
    (hmake : MakesAlike g make make') (activity : Activity) (start : Position) (items : List Nat)
    (hahead : Ahead g s t) :
    Agree (makePairs make activity start items) (makePairs make' activity start items) s t
      fun _ s' t' => Ahead g s' t' := by
  induction items generalizing s t with
  | nil => exact agree_pure hahead
  | cons item items ih =>
      unfold makePairs
      refine (agree_node hahead item).bind fun n s₁ t₁ h₁ => ?_
      split
      next key value hcontent =>
        refine (hmake key s₁ t₁ h₁).bind fun _ s₂ t₂ h₂ => ?_
        refine (hmake value s₂ t₂ h₂).bind fun _ s₃ t₃ h₃ => ?_
        exact (ih h₃).bind fun _ s₄ t₄ h₄ => agree_pure h₄
      next => exact agree_complain _ _ _
      next => exact agree_complain _ _ _

theorem agree_makeEntries
    (hmake : MakesAlike g make make') (done : List (Key × Part)) (es : List (Nat × Nat))
    (hahead : Ahead g s t) :
    Agree (makeEntries make done es) (makeEntries make' done es) s t
      fun _ s' t' => Ahead g s' t' := by
  induction es generalizing s t done with
  | nil => exact agree_pure hahead
  | cons e rest ih =>
      unfold makeEntries
      refine (hmake e.1 s t hahead).bind fun part s₁ t₁ h₁ => ?_
      split
      next => exact (hmake e.2 s₁ t₁ h₁).bind fun value s₂ t₂ h₂ => ih _ h₂
      next => exact (agree_node h₁ _).bind fun n s₂ t₂ h₂ => agree_complain _ _ _

/-- Looking over keys that are scalars and different makes these scalars. -/
theorem leads_checkKeys_ahead
    (hmake : MakesScalars g make) {es : List (Nat × Nat)} (htwins : ¬ g.HasTwins es)
    (hunmerged : g.Unmerged es) {seen : List Key} {before rest : List (Nat × Nat)}
    (hes : es = before ++ rest)
    (hseen : ∀ k ∈ seen, ∃ e ∈ before, ∃ x, k = .scalar x ∧ g.scalarOf e.1 = .ok (some x))
    (hkeys : ∀ e ∈ rest, ∃ x, g.scalarOf e.1 = .ok (some x)) (hahead : Ahead g s t) :
    Leads (checkKeys make seen rest) s (fun _ s' => Ahead g s' t) fun _ => False := by
  -- The induction carries the entries that were looked over, with the scalars of their keys.
  induction rest generalizing s seen before with
  | nil => exact hahead
  | cons e rest ih =>
      obtain ⟨id, value⟩ := e
      obtain ⟨x, hx⟩ := hkeys (id, value) List.mem_cons_self
      have hkey : ¬ (nodeAt s.nodes id).tag = .merge := by
        rw [hahead.honest.nodes]
        exact hunmerged (id, value) (by simp [hes])
      unfold checkKeys
      rw [leads_bind, leads_node, if_neg hkey]
      refine (hmake id s t x hahead hx).bind fun part s' hs' => ?_
      obtain ⟨rfl, hnext⟩ := hs'
      dsimp only
      have hnew : ¬ seen.any (Key.scalar x).same = true := by
        intro hany
        obtain ⟨k, hk, hsame⟩ := List.any_eq_true.mp hany
        obtain ⟨e, he, y, rfl, hy⟩ := hseen k hk
        refine htwins ⟨e, (id, value), ?_, hunmerged e (by simp [hes, he]),
          hunmerged (id, value) (by simp [hes]), y, x, isKey_of_scalarOf hy,
          isKey_of_scalarOf hx, hsame⟩
        rw [hes]
        exact (List.singleton_sublist.mpr he).append
          (List.singleton_sublist.mpr List.mem_cons_self)
      rw [if_neg hnew]
      have hafter : es = (before ++ [(id, value)]) ++ rest := by simp [hes]
      refine ih hafter ?_ (fun e he => hkeys e (List.mem_cons_of_mem _ he)) hnext
      intro k hk
      rcases List.mem_cons.mp hk with rfl | hk
      · exact ⟨(id, value), by simp, x, rfl, hx⟩
      · obtain ⟨e, he, hrest⟩ := hseen k hk
        exact ⟨e, List.mem_append_left _ he, hrest⟩

theorem leads_makeEntries_of_nothing
    (hmake : MakesNothing make) (done : List (Key × Part)) {es : List (Nat × Nat)} (hes : es ≠ []) :
    Leads (makeEntries make done es) s (fun _ _ => False) fun _ => True := by
  cases es with
  | nil => exact absurd rfl hes
  | cons e rest =>
      unfold makeEntries
      exact (hmake e.1 s).bind fun _ _ h => h.elim

theorem leads_checkKeys_of_nothing
    (hmake : MakesNothing make) (seen : List Key) {es : List (Nat × Nat)} (hes : es ≠ [])
    (hs : s.nodes = g.nodes) (hunmerged : g.Unmerged es) :
    Leads (checkKeys make seen es) s (fun _ _ => False) fun _ => True := by
  cases es with
  | nil => exact absurd rfl hes
  | cons e rest =>
      have hkey : ¬ (nodeAt s.nodes e.1).tag = .merge := by
        rw [hs]
        exact hunmerged e List.mem_cons_self
      unfold checkKeys
      rw [leads_bind, leads_node, if_neg hkey]
      exact (hmake e.1 s).bind fun _ _ h => h.elim

/-- The entries of a mapping without its merge keys, of which it has none. -/
theorem agree_flattened
    (hflat : g.IsFlat) (hmake : MakesAlike g make make') {id : Nat}
    (hid : (g.node id).tag = .map ∨ (g.node id).tag = .set) (hahead : Ahead g s t) :
    Agree (do flatten id; makeEntries make [] (← entries id))
      (do flatten id; makeEntries make' [] (← entries id)) s t fun _ s' t' => Ahead g s' t' := by
  have hentries := agree_makeEntries hmake [] (g.entries id) hahead
  unfold Agree at hentries ⊢
  rw [bind_of_eq (flatten_eq hflat hahead.honest.nodes hid),
    bind_of_eq (entries_eq hahead.honest.nodes id),
    bind_of_eq (flatten_eq hflat hahead.other.nodes hid),
    bind_of_eq (entries_eq hahead.other.nodes id)]
  exact hentries

theorem agree_mappingEntries
    (hflat : g.IsFlat) (htwins : ∀ id, ¬ g.HasTwins (g.entries id))
    (hmake : MakesAlike g make make') (hhonest : MakesHonestly g make)
    (hhonest' : MakesHonestly g make') (hhonestKey : MakesHonestly g makeKey)
    (hhonestKey' : MakesHonestly g makeKey')
    (hkey : MakesScalars g makeKey ∨ MakesNothing makeKey ∧ MakesNothing make') {id : Nat}
    (hid : (g.node id).tag = .map ∨ (g.node id).tag = .set) (hahead : Ahead g s t) :
    Agree (mappingEntries .strict make makeKey id) (mappingEntries .standard make' makeKey' id) s t
      fun _ s' t' => Ahead g s' t' := by
  by_cases hscalars : ∀ e ∈ g.entries id, ∃ x, g.scalarOf e.1 = .ok (some x)
  swap
  · -- A key that is no scalar can be made, but it is refused.
    exact agree_of_fail
      ((honest_mappingEntries .strict hflat hhonest hhonestKey hid hahead.honest).imp
        fun _ _ h => hscalars h.2)
      ((honest_mappingEntries .standard hflat hhonest' hhonestKey' hid hahead.other).imp
        fun _ _ h => hscalars h.2)
  have hnode := node_eq hahead.honest.nodes id
  have hnode' := node_eq hahead.other.nodes id
  unfold mappingEntries Agree
  rw [bind_of_eq hnode, bind_of_eq hnode']
  change Agree _ _ s t _
  split
  next written hwritten =>
    have hentries : g.entries id = written := by simp [Graph.entries, hwritten, Content.entries]
    change Agree (do checkKeys makeKey [] written; flatten id; makeEntries make [] (← entries id))
      (do flatten id; makeEntries make' [] (← entries id)) s t _
    rw [← hentries]
    have hrest (s' : Site) (hs' : Ahead g s' t) := agree_flattened hflat hmake hid hs'
    rcases hkey with hscalar | ⟨hnothing, hnothing'⟩
    · have hseen : ∀ k ∈ ([] : List Key), ∃ e ∈ ([] : List (Nat × Nat)), ∃ x, k = .scalar x ∧
          g.scalarOf e.1 = .ok (some x) := by simp
      have hcheck := leads_checkKeys_ahead hscalar (htwins id) (hflat.unmerged id)
        (List.nil_append _).symm hseen hscalars hahead
      exact agree_left (hcheck.imp fun _ s' hs' => hrest s' hs')
    · by_cases hnone : g.entries id = []
      · rw [hnone]
        exact agree_left (hrest s hahead)
      · have hcheck := leads_checkKeys_of_nothing hnothing [] hnone hahead.honest.nodes
          (hflat.unmerged id)
        refine agree_of_fail (hcheck.bind fun _ _ h => h.elim) ?_
        unfold Leads
        rw [bind_of_eq (flatten_eq hflat hahead.other.nodes hid),
          bind_of_eq (entries_eq hahead.other.nodes id)]
        exact leads_makeEntries_of_nothing hnothing' [] hnone
  next => exact agree_complain _ _ _

theorem agree_contents
    (hflat : g.IsFlat) (htwins : ∀ id, ¬ g.HasTwins (g.entries id))
    (hmake : MakesAlike g make make') (hhonest : MakesHonestly g make)
    (hhonest' : MakesHonestly g make') (hhonestKey : MakesHonestly g makeKey)
    (hhonestKey' : MakesHonestly g makeKey')
    (hkey : MakesScalars g makeKey ∨ MakesNothing makeKey ∧ MakesNothing make') (id : Nat)
    (hahead : Ahead g s t) :
    Agree (contents .strict make makeKey id) (contents .standard make' makeKey' id) s t
      fun _ s' t' => Ahead g s' t' := by
  have hentries (hid : (g.node id).tag = .map ∨ (g.node id).tag = .set) :=
    agree_mappingEntries hflat htwins hmake hhonest hhonest' hhonestKey hhonestKey' hkey hid hahead
  have hnode := node_eq hahead.honest.nodes id
  have hnode' := node_eq hahead.other.nodes id
  unfold contents Agree
  rw [bind_of_eq hnode, bind_of_eq hnode']
  change Agree _ _ s t _
  split
  next h => exact (hentries (.inl h)).bind fun _ _ _ h' => agree_pure h'
  next h => exact (hentries (.inr h)).bind fun _ _ _ h' => agree_pure h'
  · exact (agree_makeAll hmake _ hahead).bind fun _ _ _ h' => agree_pure h'
  · exact agree_complain _ _ _
  · exact (agree_makePairs hmake _ _ _ hahead).bind fun _ _ _ h' => agree_pure h'
  · exact agree_complain _ _ _

end Contents

/-! ## Making and filling -/

theorem Ahead.enter
    (hahead : Ahead g s t) {id : Nat} (hid : g.scalarOf id = .ok none) :
    Ahead g (enter s id) (enter t id) where
  honest := hahead.honest.enter id
  nodes := hahead.nodes
  containers := hahead.containers
  opened := congrArg (id :: ·) hahead.opened
  pending := hahead.pending
  size := hahead.size
  made := hahead.made
  busy other hother := by
    rcases List.mem_cons.mp hother with rfl | hother
    · exact hid
    · exact hahead.busy other hother

theorem Ahead.put
    (hahead : Ahead g s t) (id : Nat) (c : Container) :
    Ahead g (put s id c) (put t id c) :=
  { hahead with
    honest := hahead.honest.put id c
    containers := congrArg (·.setIfInBounds id c) hahead.containers }

theorem Ahead.wait (hahead : Ahead g s t) (id : Nat) : Ahead g (wait s id) (wait t id) :=
  { hahead with
    honest := hahead.honest.wait id
    pending := congrArg (· ++ [id]) hahead.pending }

theorem Ahead.leave
    (hahead : Ahead g s t) {id : Nat} {part : Part} (hpart : g.scalarOf id = .ok part.scalar?) :
    Ahead g (leave s id part) (leave t id part) where
  honest := hahead.honest.leave hpart
  nodes := hahead.nodes
  containers := hahead.containers
  opened := congrArg (·.erase id) hahead.opened
  pending := hahead.pending
  size := by simpa using hahead.size
  made other := by
    rw [made_leave, made_leave, hahead.size]
    split_ifs
    · exact .inl rfl
    · exact hahead.made other
  busy other hother := hahead.busy other (List.mem_of_mem_erase hother)

theorem Ahead.scalar
    (hahead : Ahead g s t) {id : Nat} {x : Scalar} (hx : g.scalarOf id = .ok (some x)) :
    Ahead g (Builder.leave (Builder.enter s id) id (.scalar x))
      (Builder.leave (Builder.enter t id) id (.scalar x)) where
  honest := (hahead.honest.enter id).leave hx
  nodes := hahead.nodes
  containers := hahead.containers
  opened := by simpa using hahead.opened
  pending := hahead.pending
  size := by simpa using hahead.size
  made other := by
    rw [made_leave, made_leave, size_made_enter, size_made_enter, hahead.size]
    split_ifs
    · exact .inl rfl
    · exact hahead.made other
  busy other hother := hahead.busy other (by simpa using hother)

/-- The second builder catches up with a scalar that the first one has made. -/
theorem Ahead.catchUp
    (hahead : Ahead g s t) {id : Nat} {x : Scalar}
    (hmade : s.made.getD id none = some (.scalar x)) :
    Ahead g s (Builder.leave (Builder.enter t id) id (.scalar x)) where
  honest := hahead.honest
  nodes := hahead.nodes
  containers := hahead.containers
  opened := by simpa using hahead.opened
  pending := hahead.pending
  size := by simpa using hahead.size
  made other := by
    rw [made_leave]
    split_ifs with hsame
    · rw [hsame.1, hmade]
      exact .inl rfl
    · exact hahead.made other
  busy := hahead.busy

/-- The first builder makes a scalar that the second one has not made yet. -/
theorem Ahead.goAhead
    (hahead : Ahead g s t) {id : Nat} {x : Scalar} (hx : g.scalarOf id = .ok (some x))
    (hmade : t.made.getD id none = none) :
    Ahead g (Builder.leave (Builder.enter s id) id (.scalar x)) t where
  honest := (hahead.honest.enter id).leave hx
  nodes := hahead.nodes
  containers := hahead.containers
  opened := by simpa using hahead.opened
  pending := hahead.pending
  size := by simpa using hahead.size
  made other := by
    rw [made_leave]
    split_ifs with hsame
    · rw [hsame.1, hmade]
      exact .inr ⟨rfl, x, hx⟩
    · exact hahead.made other
  busy other hother := hahead.busy other (by simpa using hother)

theorem Ahead.not_opened
    (hahead : Ahead g s t) {id : Nat} {x : Scalar} (hx : g.scalarOf id = .ok (some x)) :
    ¬ s.opened.contains id = true := by
  intro hmem
  have hbusy := hahead.busy id (List.contains_iff_mem.mp hmem)
  rw [hx] at hbusy
  cases hbusy

theorem Ahead.eq_scalar
    (hahead : Ahead g s t) {id : Nat} {part : Part} (hmade : s.made.getD id none = some part)
    {x : Scalar} (hx : g.scalarOf id = .ok (some x)) :
    part = .scalar x := by
  have hpart := hahead.honest.made id part hmade
  rw [hx] at hpart
  exact Part.eq_scalar (Except.ok.inj hpart).symm

theorem makesScalars_make
    (dialect : Dialect) (fuel : Nat) (deep : Bool) :
    MakesScalars g (make dialect (fuel + 1) deep) := by
  intro id s t x hahead hx
  unfold Leads
  rw [make_eq hahead.honest.nodes]
  cases hmade : s.made.getD id none with
  | some part => exact ⟨hahead.eq_scalar hmade hx, hahead⟩
  | none =>
      have hunmade : t.made.getD id none = none := by
        rcases hahead.made id with heq | ⟨hnone, -⟩
        · rw [heq, hmade]
        · exact hnone
      dsimp only
      rw [if_neg (hahead.not_opened hx), hx]
      exact ⟨rfl, hahead.goAhead hx hunmade⟩

theorem makesNothing_make (dialect : Dialect) (deep : Bool) : MakesNothing (make dialect 0 deep) :=
  fun _ _ => trivial

/-- Builders that make nodes alike get the same contents: they are honest, and keys are made from
scalars or not at all. -/
theorem agree_contents_make
    (hflat : g.IsFlat) (htwins : ∀ id, ¬ g.HasTwins (g.entries id)) {fuel : Nat} {deep : Bool}
    (hmake : MakesAlike g (make .strict fuel deep) (make .standard fuel deep)) (id : Nat)
    (hahead : Ahead g s t) :
    Agree (contents .strict (make .strict fuel deep) (make .strict fuel true) id)
      (contents .standard (make .standard fuel deep) (make .standard fuel true) id) s t
      fun _ s' t' => Ahead g s' t' := by
  have hhonest (dialect : Dialect) (deep : Bool) :=
    makesHonestly_make (g := g) dialect hflat fuel deep
  have hkey : MakesScalars g (make .strict fuel true) ∨
      MakesNothing (make .strict fuel true) ∧ MakesNothing (make .standard fuel deep) := by
    cases fuel with
    | zero => exact .inr ⟨makesNothing_make _ _, makesNothing_make _ _⟩
    | succ fuel => exact .inl (makesScalars_make _ _ _)
  exact agree_contents hflat htwins hmake (hhonest _ _) (hhonest _ _) (hhonest _ _) (hhonest _ _)
    hkey id hahead

theorem makesAlike_make
    (hflat : g.IsFlat) (htwins : ∀ id, ¬ g.HasTwins (g.entries id)) (fuel : Nat) (deep : Bool) :
    MakesAlike g (make .strict fuel deep) (make .standard fuel deep) := by
  induction fuel generalizing deep with
  | zero =>
      intro id s t _
      trivial
  | succ fuel ih =>
      intro id s t hahead
      unfold Agree
      rw [make_eq hahead.honest.nodes, make_eq hahead.other.nodes, hahead.opened]
      cases hmade : s.made.getD id none with
      | some part =>
          rcases hahead.made id with heq | ⟨hnone, x, hx⟩
          · rw [heq, hmade]
            exact ⟨rfl, hahead⟩
          · have hpart := hahead.eq_scalar hmade hx
            subst hpart
            rw [hnone]
            dsimp only
            rw [if_neg (hahead.not_opened hx), hx]
            exact ⟨rfl, hahead.catchUp hmade⟩
      | none =>
          have hunmade : t.made.getD id none = none := by
            rcases hahead.made id with heq | ⟨hnone, -⟩
            · rw [heq, hmade]
            · exact hnone
          rw [hunmade]
          dsimp only
          by_cases hopened : s.opened.contains id = true
          · rw [if_pos hopened, if_pos hopened]
            trivial
          rw [if_neg hopened, if_neg hopened]
          cases hfound : g.scalarOf id with
          | error f => trivial
          | ok found =>
              cases found with
              | some x => exact ⟨rfl, hahead.scalar hfound⟩
              | none =>
                  have hpart : g.scalarOf id = .ok (Part.scalar? (.container id)) := hfound
                  cases emptyContainer? (g.node id).tag with
                  | none => trivial
                  | some c =>
                      have hempty := (hahead.enter hfound).put id c
                      dsimp only
                      cases deep with
                      | false => exact ⟨rfl, (hempty.wait id).leave hpart⟩
                      | true =>
                          have hcontents := agree_contents_make hflat htwins (ih true) id hempty
                          rw [if_pos rfl, if_pos rfl]
                          unfold Agree at hcontents
                          split at hcontents
                          next filled s₁ filled' t₁ hs₁ ht₁ =>
                            obtain ⟨rfl, hfilled⟩ := hcontents
                            rw [hs₁, ht₁]
                            exact ⟨rfl, (hfilled.put id filled).leave hpart⟩
                          next hs₁ ht₁ =>
                            rw [hs₁, ht₁]
                            trivial
                          next => exact hcontents.elim

theorem agree_fillAll
    (hflat : g.IsFlat) (htwins : ∀ id, ¬ g.HasTwins (g.entries id)) (bound fuel : Nat)
    (hahead : Ahead g s t) :
    Agree (fillAll .strict (bound + 1) fuel) (fillAll .standard (bound + 1) fuel) s t
      fun _ s' t' => Ahead g s' t' := by
  induction fuel generalizing s t with
  | zero => exact agree_pure hahead
  | succ fuel ih =>
      have hget (s : Site) : (get : Builder Site) s = .ok (s, s) := rfl
      unfold fillAll Agree
      rw [bind_of_eq (hget s), bind_of_eq (hget t), hahead.pending]
      cases hpending : s.pending with
      | nil => exact ⟨rfl, hahead⟩
      | cons id rest =>
          have hpop : Ahead g { s with pending := rest } { t with pending := rest } :=
            { hahead with
              honest := ⟨hahead.honest.nodes, hahead.honest.made⟩
              pending := rfl }
          change Agree
            (do
              setContainer id (← contents .strict (make .strict (bound + 1) false)
                (make .strict (bound + 1) true) id)
              fillAll .strict (bound + 1) fuel)
            (do
              setContainer id (← contents .standard (make .standard (bound + 1) false)
                (make .standard (bound + 1) true) id)
              fillAll .standard (bound + 1) fuel)
            { s with pending := rest } { t with pending := rest } _
          refine (agree_contents_make hflat htwins (makesAlike_make hflat htwins _ _) id hpop).bind
            fun filled s₁ t₁ h₁ => ?_
          have hput := h₁.put id filled
          exact ih hput

theorem ahead_start (g : Graph) : Ahead g (Site.start g) (Site.start g) where
  honest := ⟨rfl, fun id part hpart => by
    rw [Site.start, Array.getD_eq_getD_getElem?, Array.getElem?_replicate] at hpart
    split_ifs at hpart <;> cases hpart⟩
  nodes := rfl
  containers := rfl
  opened := rfl
  pending := rfl
  size := rfl
  made _ := .inl rfl
  busy _ hid := by cases hid

theorem agree_build
    (hflat : g.IsFlat) (htwins : ∀ id, ¬ g.HasTwins (g.entries id)) (root : Nat) :
    Agree (build .strict root) (build .standard root) (Site.start g) (Site.start g)
      fun _ s' t' => Ahead g s' t' := by
  have hget (s : Site) : (get : Builder Site) s = .ok (s, s) := rfl
  unfold build Agree
  rw [bind_of_eq (hget _), bind_of_eq (hget _)]
  change Agree _ _ (Site.start g) (Site.start g) _
  refine (makesAlike_make hflat htwins _ false root _ _ (ahead_start g)).bind
    fun part s₁ t₁ h₁ => ?_
  exact (agree_fillAll hflat htwins _ _ h₁).bind fun _ s₂ t₂ h₂ => agree_pure h₂

end Builder

theorem SharedTree.ofGraph_iff
    {g : Graph} (hflat : g.IsFlat) (htwins : ∀ id, ¬ g.HasTwins (g.entries id))
    (tree : SharedTree) :
    SharedTree.ofGraph .strict g = .ok tree ↔ SharedTree.ofGraph .standard g = .ok tree := by
  have hbuild := Builder.agree_build hflat htwins g.root
  unfold Builder.Agree at hbuild
  rw [SharedTree.ofGraph_eq, SharedTree.ofGraph_eq]
  split at hbuild
  next root s root' t hs ht =>
    obtain ⟨rfl, hahead⟩ := hbuild
    rw [hs, ht]
    simp only [hahead.containers]
  next hs ht =>
    rw [hs, ht]
    simp
  next => exact hbuild.elim

namespace Reading

variable {input : Input}

/-- An input without merge keys, equal keys, equals signs as keys and plain dates is read in
both dialects or in none, and as the same tree. -/
theorem strict_iff_standard
    (hdates : ∀ g g', graph .strict input = .ok (some g) →
      graph .standard input = .ok (some g') → g.DatesAgree g')
    (hflat : ∀ g, graph .strict input = .ok (some g) → g.IsFlat)
    (htwins : ∀ g, graph .strict input = .ok (some g) → ∀ id, ¬ g.HasTwins (g.entries id))
    (limit : Int) (reading : Reading) :
    ofInput .strict limit input = .ok reading ↔ ofInput .standard limit input = .ok reading := by
  have halike := graph_alike input
  split at halike
  next g g' hg hg' =>
    have heq := halike.eq (hdates g g' hg hg')
    subst heq
    have htree := SharedTree.ofGraph_iff (hflat g' hg) (htwins g' hg)
    have hread (dialect : Dialect) :
        ((SharedTree.ofGraph dialect g').map fun tree => (⟨tree, g'.positions limit⟩ : Reading)) =
            .ok reading ↔
          ∃ tree, SharedTree.ofGraph dialect g' = .ok tree ∧
            ⟨tree, g'.positions limit⟩ = reading := by
      cases SharedTree.ofGraph dialect g' <;> simp [Except.map]
    rw [ofInput_of_graph hg, ofInput_of_graph hg', hread, hread]
    exact exists_congr fun tree => and_congr_left' (htree tree)
  next hg hg' => rw [ofInput_of_none hg, ofInput_of_none hg']
  next f f' hg hg' => rw [ofInput_of_error hg, ofInput_of_error hg', halike.1]
  next => exact halike.elim

end Reading

/-- Keys that are tagged, quoted or plain.  One of them is the text of a date. -/
def quotedDate : Input := .text "!!str 1: a\n\"2001-01-01\": b\nc: 2001\n".toList

def quotedDateGraph : Graph where
  nodes := #[
    ⟨.map, ⟨0, 0⟩, .mapping [(1, 2), (3, 4), (5, 6)]⟩,
    ⟨.str, ⟨0, 0⟩, .scalar "1"⟩,
    ⟨.str, ⟨0, 9⟩, .scalar "a"⟩,
    ⟨.str, ⟨1, 0⟩, .scalar "2001-01-01"⟩,
    ⟨.str, ⟨1, 14⟩, .scalar "b"⟩,
    ⟨.str, ⟨2, 0⟩, .scalar "c"⟩,
    ⟨.int, ⟨2, 3⟩, .scalar "2001"⟩]
  root := 0

theorem graph_quotedDate (dialect : Dialect) (hdialect : dialect ∈ [.strict, .standard]) :
    Reading.graph dialect quotedDate = .ok (some quotedDateGraph) := by
  apply eq_ok_of_toOption
  revert dialect
  decide +kernel

theorem isFlat_quotedDate : quotedDateGraph.IsFlat where
  unmerged := Graph.forall_entries (by decide +kernel)
  noEquals id _ := Graph.forall_entries (by decide +kernel) id

theorem not_hasTwins_quotedDate (id : Nat) :
    ¬ quotedDateGraph.HasTwins (quotedDateGraph.entries id) :=
  Graph.not_hasTwins_of_pairwise (Graph.forall_entries (by decide +kernel) id)
    (Graph.forall_entryLists .nil (by decide +kernel) id)

theorem strict_iff_standard_quotedDate :
    ∃ reading, Reading.ofInput .strict 32 quotedDate = .ok reading ∧
      Reading.ofInput .standard 32 quotedDate = .ok reading := by
  have hgraph {g : Graph} {dialect : Dialect} (hdialect : dialect ∈ [.strict, .standard])
      (hg : Reading.graph dialect quotedDate = .ok (some g)) : g = quotedDateGraph := by
    rw [graph_quotedDate dialect hdialect] at hg
    cases hg
    rfl
  obtain ⟨reading, hread⟩ : ∃ reading, Reading.ofInput .strict 32 quotedDate = .ok reading :=
    exists_eq_ok_of_isOk (by decide +kernel)
  refine ⟨reading, hread, (Reading.strict_iff_standard ?_ ?_ ?_ 32 reading).mp hread⟩
  · intro g g' hg hg' id
    rw [hgraph (by simp) hg, hgraph (by simp) hg']
    exact fun h => h
  · exact fun g hg => hgraph (by simp) hg ▸ isFlat_quotedDate
  · exact fun g hg => hgraph (by simp) hg ▸ not_hasTwins_quotedDate

/-- A plain equals sign as a key. -/
def equalsKey : Input := .text "=: 1\n".toList

def equalsKeyGraph : Graph where
  nodes := #[
    ⟨.map, ⟨0, 0⟩, .mapping [(1, 2)]⟩,
    ⟨.value, ⟨0, 0⟩, .scalar "="⟩,
    ⟨.int, ⟨0, 3⟩, .scalar "1"⟩]
  root := 0

/-- The strict dialect makes the key before it would become text, and refuses it. -/
theorem exists_equals_key_refused :
    ∃ g, Reading.graph .strict equalsKey = .ok (some g) ∧
      Reading.graph .standard equalsKey = .ok (some g) ∧
        (∀ id, g.Unmerged (g.entries id)) ∧ (∀ id, ¬ g.HasTwins (g.entries id)) ∧
          Reading.ofInput .strict 32 equalsKey =
            .error (.trouble ⟨none, .unknownTag Tag.value.name, ⟨0, 0⟩⟩) ∧
          ∃ reading, Reading.ofInput .standard 32 equalsKey = .ok reading := by
  have hlength : ∀ id, (equalsKeyGraph.entries id).length < 2 :=
    Graph.forall_entryLists (P := fun es => es.length < 2) (by decide) (by decide +kernel)
  have htwins (id : Nat) : ¬ equalsKeyGraph.HasTwins (equalsKeyGraph.entries id) := by
    rintro ⟨first, second, hpair, -⟩
    exact absurd (hlength id) (Nat.not_lt.mpr hpair.length_le)
  exact ⟨equalsKeyGraph, eq_ok_of_toOption (by decide +kernel),
    eq_ok_of_toOption (by decide +kernel), Graph.forall_entries (by decide +kernel), htwins,
    eq_error_of_map (by decide +kernel), exists_eq_ok_of_isOk (by decide +kernel)⟩

end Wireframe.Yaml
