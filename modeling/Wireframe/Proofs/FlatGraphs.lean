import Mathlib.Tactic
import Wireframe.Proofs.KeptEntries

/-!
# Flat graphs

A graph is flat if no mapping of it has merge keys or equals signs as keys.  Building a flat
graph leaves the nodes as they are, so what is made of a node is what the node is read as, in
any order of work.
-/

namespace Wireframe.Yaml

/-- The scalar that a part is, if it is one. -/
def Part.scalar? : Part → Option Scalar
  | .scalar x => some x
  | _ => none

theorem Part.eq_scalar {part : Part} {x : Scalar} (hx : part.scalar? = some x) :
    part = .scalar x := by
  cases part <;> cases hx
  rfl

namespace Graph

/-- What a node is read as if it is a scalar, nothing if it is a container. -/
def scalarOf (g : Graph) (id : Nat) : Except Failure (Option Scalar) :=
  (Builder.scalar? id (Site.start g)).map Prod.fst

/-- Freeing mappings of their merge keys changes nothing. -/
structure IsFlat (g : Graph) : Prop where
  unmerged : ∀ id, g.Unmerged (g.entries id)
  noEquals : ∀ id, (g.node id).tag = .map ∨ (g.node id).tag = .set →
    ∀ e ∈ g.entries id, (g.node e.1).tag ≠ .value

end Graph

namespace Builder

variable {g : Graph} {s s' : Site}

/-! ## Reading scalars -/

theorem bind_of_eq
    {α β : Type} {x : Builder β} {b : β} (hx : x s = .ok (b, s')) (next : β → Builder α) :
    (x >>= next) s = next b s' := by
  change Except.bind (x s) (fun r => next r.1 r.2) = _
  rw [hx]
  rfl

theorem bind_of_error
    {α β : Type} {x : Builder β} {f : Failure} (hx : x s = .error f) (next : β → Builder α) :
    (x >>= next) s = .error f := by
  change Except.bind (x s) (fun r => next r.1 r.2) = _
  rw [hx]
  rfl

/-- What nodes tell, whatever else there is at a site. -/
def Looks {α : Type} (x : Builder α) : Prop :=
  ∀ s s' : Site, s'.nodes = s.nodes → x s' = (x s).map fun r => (r.1, s')

theorem looks_pure {α : Type} (a : α) : Looks (pure a : Builder α) := fun _ _ _ => rfl

theorem looks_throw {α : Type} (f : Failure) : Looks (throw f : Builder α) := fun _ _ _ => rfl

theorem Looks.bind
    {α β : Type} {x : Builder β} {next : β → Builder α} (hx : Looks x)
    (hnext : ∀ b, Looks (next b)) :
    Looks (x >>= next) := by
  intro s s' h
  have hself := hx s s rfl
  have hother := hx s s' h
  change Except.bind (x s') (fun r => next r.1 r.2) =
    (Except.bind (x s) fun r => next r.1 r.2).map fun r => (r.1, s')
  rw [hother]
  cases hs : x s with
  | error f => rfl
  | ok r =>
      rw [hs] at hself
      have hstate : r.2 = s := congrArg Prod.snd (Except.ok.inj hself)
      change next r.1 s' = (next r.1 r.2).map fun r => (r.1, s')
      rw [hstate]
      exact hnext r.1 s s' h

/-- A builder that looks at the nodes of a site. -/
theorem looks_get
    {α : Type} {next : Site → Builder α} (hnext : ∀ s, Looks (next s))
    (hsame : ∀ s s' : Site, s'.nodes = s.nodes → next s' = next s) :
    Looks (get >>= next) := by
  intro s s' h
  change next s' s' = (next s s).map fun r => (r.1, s')
  rw [hsame s s' h]
  exact hnext s s s' h

theorem looks_node (id : Nat) : Looks (node id) :=
  looks_get (fun _ => looks_pure _) fun s s' h => by rw [h]

theorem looks_complain
    {α : Type} (activity : Option Activity) (complaint : Complaint) (position : Position) :
    Looks (Failure.complain activity complaint position : Builder α) :=
  looks_throw _

theorem looks_scalarText (fuel id : Nat) : Looks (scalarText fuel id) := by
  induction fuel generalizing id with
  | zero => exact looks_throw _
  | succ fuel ih =>
      unfold scalarText
      refine (looks_node id).bind fun n => ?_
      dsimp only
      split
      next => exact looks_pure _
      next => exact looks_complain _ _ _
      next =>
        refine looks_get (fun s => ?_) fun s s' h => by rw [h]
        split
        next => exact ih _
        next => exact looks_complain _ _ _

theorem looks_scalar? (id : Nat) : Looks (scalar? id) := by
  unfold scalar?
  refine (looks_node id).bind fun n => ?_
  split
  next => exact looks_pure _
  next read hread =>
    refine looks_get (fun s => ?_) fun s s' h => by rw [h]
    refine (looks_scalarText _ id).bind fun text => ?_
    dsimp only
    split_ifs
    · exact looks_throw _
    · split
      · exact looks_pure _
      · exact looks_throw _

theorem scalar?_eq
    (hs : s.nodes = g.nodes) (id : Nat) :
    scalar? id s = (g.scalarOf id).map fun found => (found, s) := by
  rw [looks_scalar? id (Site.start g) s hs]
  unfold Graph.scalarOf
  cases scalar? id (Site.start g) <;> rfl

theorem isKey_of_scalarOf
    {id : Nat} {x : Scalar} (hx : g.scalarOf id = .ok (some x)) :
    g.IsKey id x := by
  have hleads := leads_scalar? (evolved_self g fun _ => True) (s := Site.start g) id
  unfold Leads at hleads
  rw [scalar?_eq rfl, hx] at hleads
  exact hleads.2 x rfl

/-! ## Flattening -/

theorem splitMerge_eq
    (hs : s.nodes = g.nodes) {es : List (Nat × Nat)} (hes : g.Unmerged es) :
    splitMerge es s = .ok (none, s) := by
  induction es with
  | nil => rfl
  | cons e rest ih =>
      obtain ⟨key, value⟩ := e
      have hkey : ¬ (nodeAt s.nodes key).tag = .merge := by
        rw [hs]
        exact hes (key, value) List.mem_cons_self
      have hnode : node key s = .ok (nodeAt s.nodes key, s) := rfl
      unfold splitMerge
      rw [bind_of_eq hnode, if_neg hkey,
        bind_of_eq (ih fun e he => hes e (List.mem_cons_of_mem _ he))]
      rfl

theorem freeValueKeys_eq
    (hs : s.nodes = g.nodes) {es : List (Nat × Nat)}
    (hes : ∀ e ∈ es, (g.node e.1).tag ≠ .value) :
    freeValueKeys es s = .ok ((), s) := by
  induction es with
  | nil => rfl
  | cons e rest ih =>
      obtain ⟨key, value⟩ := e
      have hkey : ¬ (nodeAt s.nodes key).tag = .value := by
        rw [hs]
        exact hes (key, value) List.mem_cons_self
      have hnode : node key s = .ok (nodeAt s.nodes key, s) := rfl
      unfold freeValueKeys
      rw [bind_of_eq hnode]
      simp only [if_neg hkey]
      exact ih fun e he => hes e (List.mem_cons_of_mem _ he)

theorem node_eq
    (hs : s.nodes = g.nodes) (id : Nat) :
    node id s = .ok (g.node id, s) := by
  change Except.ok (nodeAt s.nodes id, s) = _
  rw [hs]
  rfl

theorem entries_eq
    (hs : s.nodes = g.nodes) (id : Nat) :
    entries id s = .ok (g.entries id, s) := by
  change Except.ok ((nodeAt s.nodes id).content.entries, s) = _
  rw [hs]
  rfl

theorem flatten_eq
    (hflat : g.IsFlat) (hs : s.nodes = g.nodes) {id : Nat}
    (hid : (g.node id).tag = .map ∨ (g.node id).tag = .set) :
    flatten id s = .ok ((), s) := by
  have htake : takeMerges (entryCount s.nodes + 1) id s = .ok ([], s) := by
    unfold takeMerges
    rw [bind_of_eq (entries_eq hs id), bind_of_eq (splitMerge_eq hs (hflat.unmerged id))]
    rfl
  have hget : (get : Builder Site) s = .ok (s, s) := rfl
  unfold flatten
  rw [bind_of_eq hget, bind_of_eq htake]
  unfold settle
  rw [bind_of_eq (entries_eq hs id), bind_of_eq (freeValueKeys_eq hs (hflat.noEquals id hid))]
  rfl

/-! ## Honest sites -/

/-- Nothing has changed the nodes, and what was made of them is what they are read as. -/
structure Honest (g : Graph) (s : Site) : Prop where
  nodes : s.nodes = g.nodes
  made : ∀ id part, s.made.getD id none = some part → g.scalarOf id = .ok part.scalar?

/-- A builder makes of a node what the node is read as. -/
def MakesHonestly (g : Graph) (make : Nat → Builder Part) : Prop :=
  ∀ id s, Honest g s →
    Leads (make id) s (fun part s' => Honest g s' ∧ g.scalarOf id = .ok part.scalar?) fun _ => True

theorem Honest.enter (hs : Honest g s) (id : Nat) : Honest g (enter s id) := ⟨hs.nodes, hs.made⟩

theorem Honest.leave
    (hs : Honest g s) {id : Nat} {part : Part} (hpart : g.scalarOf id = .ok part.scalar?) :
    Honest g (leave s id part) where
  nodes := hs.nodes
  made other p hp := by
    rw [made_leave] at hp
    split_ifs at hp with hsame
    · cases hp
      exact hsame.1 ▸ hpart
    · exact hs.made other p hp

section Contents

variable {make makeKey : Nat → Builder Part}

theorem honest_makeAll
    (hmake : MakesHonestly g make) (ids : List Nat) (hs : Honest g s) :
    Leads (makeAll make ids) s (fun _ s' => Honest g s') fun _ => True := by
  induction ids generalizing s with
  | nil => exact hs
  | cons id ids ih =>
      unfold makeAll
      refine (hmake id s hs).bind fun part s' hs' => ?_
      exact (ih hs'.1).bind fun parts s'' hs'' => hs''

theorem honest_makePairs
    (hmake : MakesHonestly g make) (activity : Activity) (start : Position) (items : List Nat)
    (hs : Honest g s) :
    Leads (makePairs make activity start items) s (fun _ s' => Honest g s') fun _ => True := by
  induction items generalizing s with
  | nil => exact hs
  | cons item items ih =>
      unfold makePairs
      rw [leads_bind, leads_node]
      split
      next key value hcontent =>
        refine (hmake key s hs).bind fun _ s₁ hs₁ => ?_
        refine (hmake value s₁ hs₁.1).bind fun _ s₂ hs₂ => ?_
        exact (ih hs₂.1).bind fun _ s₃ hs₃ => hs₃
      next => trivial
      next => trivial

theorem honest_checkKeys
    (hmake : MakesHonestly g make) (seen : List Key) (es : List (Nat × Nat)) (hs : Honest g s) :
    Leads (checkKeys make seen es) s (fun _ s' => Honest g s') fun _ => True := by
  induction es generalizing s seen with
  | nil => exact hs
  | cons e rest ih =>
      unfold checkKeys
      rw [leads_bind, leads_node]
      split_ifs
      · exact ih seen hs
      · refine (hmake e.1 s hs).bind fun part s' hs' => ?_
        split
        next =>
          dsimp only
          split_ifs
          · trivial
          · exact ih _ hs'.1
        next =>
          refine (leads_isSet part).bind fun isSet s'' hs'' => ?_
          obtain ⟨rfl, -⟩ := hs''
          split_ifs
          · trivial
          · exact ih seen hs'.1

theorem honest_makeEntries
    (hmake : MakesHonestly g make) (done : List (Key × Part)) (es : List (Nat × Nat))
    (hs : Honest g s) :
    Leads (makeEntries make done es) s (fun _ s' => Honest g s') fun _ => True := by
  induction es generalizing s done with
  | nil => exact hs
  | cons e rest ih =>
      unfold makeEntries
      refine (hmake e.1 s hs).bind fun part s₁ hs₁ => ?_
      split
      next => exact (hmake e.2 s₁ hs₁.1).bind fun value s₂ hs₂ => ih _ hs₂.1
      next => trivial

/-- The entries of a mapping are not made if one of its keys is no scalar. -/
theorem leads_makeEntries_of_not_scalar
    (hmake : MakesHonestly g make) (done : List (Key × Part)) {es : List (Nat × Nat)}
    (hes : ∃ e ∈ es, ∀ x, g.scalarOf e.1 ≠ .ok (some x)) (hs : Honest g s) :
    Leads (makeEntries make done es) s (fun _ _ => False) fun _ => True := by
  induction es generalizing s done with
  | nil => simp at hes
  | cons e rest ih =>
      unfold makeEntries
      refine (hmake e.1 s hs).bind fun part s₁ hs₁ => ?_
      split
      next x =>
        have hrest : ∃ e ∈ rest, ∀ x, g.scalarOf e.1 ≠ .ok (some x) := by
          obtain ⟨bad, hbad, hnone⟩ := hes
          rcases List.mem_cons.mp hbad with rfl | hmem
          · exact absurd hs₁.2 (hnone x)
          · exact ⟨bad, hmem, hnone⟩
        exact (hmake e.2 s₁ hs₁.1).bind fun value s₂ hs₂ => ih _ hrest hs₂.1
      next => trivial

theorem honest_mappingEntries
    (dialect : Dialect) (hflat : g.IsFlat) (hmake : MakesHonestly g make)
    (hmakeKey : MakesHonestly g makeKey) {id : Nat}
    (hid : (g.node id).tag = .map ∨ (g.node id).tag = .set) (hs : Honest g s) :
    Leads (mappingEntries dialect make makeKey id) s
      (fun _ s' => Honest g s' ∧ ∀ e ∈ g.entries id, ∃ x, g.scalarOf e.1 = .ok (some x))
      fun _ => True := by
  have hrest (s₁ : Site) (hs₁ : Honest g s₁) :
      Leads (do flatten id; makeEntries make [] (← entries id)) s₁
        (fun _ s' => Honest g s' ∧ ∀ e ∈ g.entries id, ∃ x, g.scalarOf e.1 = .ok (some x))
        fun _ => True := by
    unfold Leads
    rw [bind_of_eq (flatten_eq hflat hs₁.nodes hid), bind_of_eq (entries_eq hs₁.nodes id)]
    change Leads (makeEntries make [] (g.entries id)) s₁ _ _
    by_cases hkeys : ∀ e ∈ g.entries id, ∃ x, g.scalarOf e.1 = .ok (some x)
    · exact (honest_makeEntries hmake [] _ hs₁).imp fun _ s' hs' => ⟨hs', hkeys⟩
    · push Not at hkeys
      exact (leads_makeEntries_of_not_scalar hmake [] hkeys hs₁).imp fun _ _ h => h.elim
  unfold mappingEntries
  rw [leads_bind, leads_node]
  split
  next written hwritten =>
    split_ifs
    · exact (honest_checkKeys hmakeKey [] written hs).bind fun _ s₁ hs₁ => hrest s₁ hs₁
    · exact hrest s hs
  next => trivial

theorem honest_contents
    (dialect : Dialect) (hflat : g.IsFlat) (hmake : MakesHonestly g make)
    (hmakeKey : MakesHonestly g makeKey) (id : Nat) (hs : Honest g s) :
    Leads (contents dialect make makeKey id) s (fun _ s' => Honest g s') fun _ => True := by
  have hentries (hid : (g.node id).tag = .map ∨ (g.node id).tag = .set) :=
    (honest_mappingEntries dialect hflat hmake hmakeKey hid hs).imp fun _ _ h => h.1
  have htag : (nodeAt s.nodes id).tag = (g.node id).tag := by
    rw [hs.nodes]
    rfl
  unfold contents
  rw [leads_bind, leads_node]
  split
  next h => exact (hentries (.inl (htag ▸ h))).bind fun _ _ hs' => hs'
  next h => exact (hentries (.inr (htag ▸ h))).bind fun _ _ hs' => hs'
  · exact (honest_makeAll hmake _ hs).bind fun _ _ hs' => hs'
  · trivial
  · exact (honest_makePairs hmake _ _ _ hs).bind fun _ _ hs' => hs'
  · trivial

end Contents

/-! ## Making -/

/-- The site with another container for a node. -/
def put (s : Site) (id : Nat) (c : Container) : Site :=
  { s with containers := s.containers.setIfInBounds id c }

/-- The site with another container that waits. -/
def wait (s : Site) (id : Nat) : Site := { s with pending := s.pending ++ [id] }

theorem Honest.put (hs : Honest g s) (id : Nat) (c : Container) : Honest g (put s id c) :=
  ⟨hs.nodes, hs.made⟩

theorem Honest.wait (hs : Honest g s) (id : Nat) : Honest g (wait s id) := ⟨hs.nodes, hs.made⟩

/-- What making a node does where the nodes are those of the graph. -/
theorem make_eq
    (hs : s.nodes = g.nodes) (dialect : Dialect) (fuel : Nat) (deep : Bool) (id : Nat) :
    make dialect (fuel + 1) deep id s =
      match s.made.getD id none with
      | some part => .ok (part, s)
      | none =>
        if s.opened.contains id then
          .error (.trouble ⟨none, .recursiveNode, (g.node id).start⟩)
        else
          match g.scalarOf id, emptyContainer? (g.node id).tag with
          | .error f, _ => .error f
          | .ok (some x), _ => .ok (.scalar x, leave (enter s id) id (.scalar x))
          | .ok none, none =>
            .error (.trouble ⟨none, .unknownTag (g.node id).tag.name, (g.node id).start⟩)
          | .ok none, some c =>
            if deep then
              let below := make dialect fuel true
              match contents dialect below below id (put (enter s id) id c) with
              | .error f => .error f
              | .ok (filled, s') => .ok (.container id, leave (put s' id filled) id (.container id))
            else
              .ok (.container id, leave (wait (put (enter s id) id c) id) id (.container id)) := by
  have hget : (get : Builder Site) s = .ok (s, s) := rfl
  unfold make
  rw [bind_of_eq hget]
  cases hmade : s.made.getD id none with
  | some part => rfl
  | none =>
      change (node id >>= _) s = _
      rw [bind_of_eq (node_eq hs id), bind_of_eq hget]
      dsimp only
      by_cases hopened : s.opened.contains id = true
      · rw [if_pos hopened, if_pos hopened]
        rfl
      · have henter : (modify fun s : Site => { s with opened := id :: s.opened } :
            Builder PUnit) s = .ok (⟨⟩, enter s id) := rfl
        have hscalar := scalar?_eq (s := enter s id) hs id
        rw [if_neg hopened, if_neg hopened, bind_of_eq henter]
        cases hfound : g.scalarOf id with
        | error f =>
            rw [hfound] at hscalar
            exact bind_of_error hscalar _
        | ok found =>
            rw [hfound] at hscalar
            rw [bind_of_eq hscalar]
            cases found with
            | some x => rfl
            | none =>
                cases emptyContainer? (g.node id).tag with
                | none => rfl
                | some c =>
                    have hput : setContainer id c (enter s id) = .ok (⟨⟩, put (enter s id) id c) :=
                      rfl
                    dsimp only
                    rw [bind_of_eq hput]
                    cases deep with
                    | false => rfl
                    | true =>
                        rw [if_pos rfl, if_pos rfl]
                        cases hcontents : contents dialect (make dialect fuel true)
                          (make dialect fuel true) id (put (enter s id) id c) with
                        | error f => exact bind_of_error hcontents _
                        | ok r =>
                            rw [bind_of_eq hcontents]
                            rfl

theorem makesHonestly_make
    (dialect : Dialect) (hflat : g.IsFlat) (fuel : Nat) (deep : Bool) :
    MakesHonestly g (make dialect fuel deep) := by
  induction fuel generalizing deep with
  | zero =>
      intro id s _
      trivial
  | succ fuel ih =>
      intro id s hs
      have hentered := hs.enter id
      unfold Leads
      rw [make_eq hs.nodes]
      cases hmade : s.made.getD id none with
      | some part => exact ⟨hs, hs.made id part hmade⟩
      | none =>
          dsimp only
          by_cases hopened : s.opened.contains id = true
          · rw [if_pos hopened]
            trivial
          rw [if_neg hopened]
          cases hfound : g.scalarOf id with
          | error f => trivial
          | ok found =>
              cases found with
              | some x => exact ⟨hentered.leave hfound, rfl⟩
              | none =>
                  have hpart : g.scalarOf id = .ok (Part.scalar? (.container id)) := hfound
                  cases emptyContainer? (g.node id).tag with
                  | none => trivial
                  | some c =>
                      have hempty := hentered.put id c
                      dsimp only
                      cases deep with
                      | false => exact ⟨(hempty.wait id).leave hpart, rfl⟩
                      | true =>
                          have hcontents :=
                            honest_contents dialect hflat (ih true) (ih true) id hempty
                          unfold Leads at hcontents
                          rw [if_pos rfl]
                          cases hfill : contents dialect (make dialect fuel true)
                            (make dialect fuel true) id (put (enter s id) id c) with
                          | error f => trivial
                          | ok r =>
                              rw [hfill] at hcontents
                              exact ⟨(Honest.put hcontents id r.1).leave hpart, rfl⟩

end Builder

end Wireframe.Yaml
