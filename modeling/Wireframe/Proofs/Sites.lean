import Mathlib.Tactic
import Wireframe.Proofs.Flattening

/-!
# Sound building sites

Every node has one turn at most: it is made, and if it is a container that has to wait, it is
filled later.  The entries of a node stay as they are written until its turn, unless the node
is merged into another one.  Making, waiting and filling keep a site sound, and nothing that
has had its turn waits again.
-/

namespace Wireframe.Yaml

namespace Builder

variable {g : Graph} {mayChange : Nat → Prop} {s s' : Site}

/-- A node has had its turn: it is being made or has been made, and does not wait. -/
def Turned (s : Site) (id : Nat) : Prop :=
  id ∉ s.pending ∧ (s.made.getD id none ≠ none ∨ id ∈ s.opened)

/-- A node is merged into another one. -/
def IsMerged (g : Graph) (id : Nat) : Prop := ∃ other, other ≠ id ∧ g.Merges other id

/-- Entries change when a node has its turn or is merged into another one, not before. -/
structure Sound (g : Graph) (s : Site) : Prop where
  evolved : Evolved g (fun id => IsMerged g id ∨ Turned s id) s.nodes
  size : s.made.size = g.nodes.size
  scalars : ∀ id x, s.made.getD id none = some (.scalar x) → g.IsKey id x
  waiting : ∀ id ∈ s.pending, s.made.getD id none ≠ none
  nodup : s.pending.Nodup
  apart : ∀ id ∈ s.opened, id ∉ s.pending

/-- Building goes on from one site to another.  Nothing that has had its turn waits again. -/
structure Proceeds (g : Graph) (s s' : Site) : Prop where
  sound : Sound g s'
  opened : s'.opened = s.opened
  turned : ∀ id, Turned s id → Turned s' id

theorem proceeds_self (hsound : Sound g s) : Proceeds g s s := ⟨hsound, rfl, fun _ h => h⟩

theorem Proceeds.trans
    {s'' : Site} (hfirst : Proceeds g s s') (hnext : Proceeds g s' s'') :
    Proceeds g s s'' :=
  ⟨hnext.sound, hnext.opened.trans hfirst.opened, fun id h => hnext.turned id (hfirst.turned id h)⟩

/-- What a node holds before its turn is written in it unless it is merged into another one. -/
theorem Sound.fresh
    (hsound : Sound g s) {id : Nat} (hturn : ¬ Turned s id) :
    held s id = g.entries id ∨ IsMerged g id :=
  (hsound.evolved.node id).kept.imp_right fun h => h.resolve_right hturn

theorem proceeds_containers
    (hsound : Sound g s) (containers : Array Container) :
    Proceeds g s { s with containers } :=
  ⟨{ hsound with }, rfl, fun _ h => h⟩

theorem Sound.advance
    (hsound : Sound g s) (hadvances : Advances g (fun id => IsMerged g id ∨ Turned s id) s s') :
    Proceeds g s s' := by
  obtain ⟨hevolved, hframe⟩ := hadvances
  rw [hframe]
  exact ⟨{ hsound with evolved := hevolved }, rfl, fun _ h => h⟩

/-! ## Turns -/

/-- The site while a node is being made. -/
def enter (s : Site) (id : Nat) : Site := { s with opened := id :: s.opened }

/-- The site when a node has been made. -/
def leave (s : Site) (id : Nat) (part : Part) : Site :=
  { s with made := s.made.setIfInBounds id (some part), opened := s.opened.erase id }

@[simp] theorem opened_leave_enter
    (s : Site) (id : Nat) (part : Part) :
    (leave (enter s id) id part).opened = s.opened := by
  simp [leave, enter]

@[simp] theorem size_made_enter (s : Site) (id : Nat) : (enter s id).made.size = s.made.size := rfl

@[simp] theorem size_made_leave
    (s : Site) (id : Nat) (part : Part) :
    (leave s id part).made.size = s.made.size := by
  simp [leave]

theorem made_leave
    (s : Site) (id : Nat) (part : Part) (other : Nat) :
    (leave s id part).made.getD other none =
      if other = id ∧ id < s.made.size then some part else s.made.getD other none := by
  unfold leave
  simp only [Array.getD_eq_getD_getElem?, Array.getElem?_setIfInBounds]
  by_cases hsame : other = id
  · subst hsame
    by_cases hid : other < s.made.size <;> simp [hid]
  · simp [Ne.symm hsame, hsame]

theorem made_leave_ne_none
    {id other : Nat} (part : Part) (hmade : s.made.getD other none ≠ none) :
    (leave s id part).made.getD other none ≠ none := by
  rw [made_leave]
  split_ifs
  · simp
  · exact hmade

theorem turned_enter
    {other : Nat} (id : Nat) (hturned : Turned s other) :
    Turned (enter s id) other :=
  ⟨hturned.1, hturned.2.imp_right (List.mem_cons_of_mem id)⟩

/-- A node keeps its turn when it, or another one, has been made. -/
theorem turned_leave
    {id other : Nat} (part : Part) (hturned : Turned s other)
    (hother : other = id → id < s.made.size) :
    Turned (leave s id part) other := by
  obtain ⟨hwaits, hmade | hopened⟩ := hturned
  · exact ⟨hwaits, .inl (made_leave_ne_none part hmade)⟩
  · by_cases hsame : other = id
    · have hmade : (leave s id part).made.getD other none = some part := by
        rw [made_leave, if_pos ⟨hsame, hother hsame⟩]
      refine ⟨hwaits, .inl ?_⟩
      rw [hmade]
      simp
    · exact ⟨hwaits, .inr ((List.mem_erase_of_ne hsame).mpr hopened)⟩

theorem Sound.scalars_leave
    (hsound : Sound g s) {id : Nat} {part : Part} (hpart : ∀ x, part = .scalar x → g.IsKey id x)
    {other : Nat} {x : Scalar}
    (hscalar : (leave s id part).made.getD other none = some (.scalar x)) :
    g.IsKey other x := by
  rw [made_leave] at hscalar
  split_ifs at hscalar with hsame
  · rw [hsame.1]
    exact hpart x (Option.some.inj hscalar)
  · exact hsound.scalars other x hscalar

theorem Sound.lt_size
    (hsound : Sound g s) {id : Nat} (hid : id < s.nodes.size) :
    id < s.made.size := by
  have hmade := hsound.size
  have hnodes := hsound.evolved.size
  omega

theorem sound_enter
    (hsound : Sound g s) {id : Nat} (hid : id ∉ s.pending) :
    Sound g (enter s id) where
  evolved := hsound.evolved.mono fun _ _ hmay => hmay.imp_right (turned_enter id)
  size := hsound.size
  scalars := hsound.scalars
  waiting := hsound.waiting
  nodup := hsound.nodup
  apart other hother := by
    rcases List.mem_cons.mp hother with rfl | hother
    · exact hid
    · exact hsound.apart other hother

theorem sound_leave
    (hsound : Sound g s) {id : Nat} {part : Part} (hpart : ∀ x, part = .scalar x → g.IsKey id x) :
    Sound g (leave s id part) where
  evolved := by
    refine hsound.evolved.mono fun other hother hmay => hmay.imp_right fun hturned => ?_
    apply turned_leave part hturned
    intro hsame
    exact hsame ▸ hsound.lt_size hother
  size := by
    rw [← hsound.size]
    simp [leave]
  scalars _ _ hscalar := hsound.scalars_leave hpart hscalar
  waiting other hother := made_leave_ne_none part (hsound.waiting other hother)
  nodup := hsound.nodup
  apart other hother := hsound.apart other (List.mem_of_mem_erase hother)

/-- A node that has not had its turn is made, and whatever is below it. -/
theorem proceeds_leave
    {id : Nat} {part : Part} (hproceeds : Proceeds g (enter s id) s') (hturn : ¬ Turned s id)
    (hpart : ∀ x, part = .scalar x → g.IsKey id x) :
    Proceeds g s (leave s' id part) where
  sound := sound_leave hproceeds.sound hpart
  opened := by simp [leave, hproceeds.opened, enter]
  turned other hother := by
    apply turned_leave part (hproceeds.turned other (turned_enter id hother))
    intro hsame
    exact absurd (hsame ▸ hother) hturn

/-- A container that is made waits to be filled. -/
theorem proceeds_wait
    (hsound : Sound g s) {id : Nat} (hid : id < s.nodes.size) (hmade : s.made.getD id none = none)
    (hopened : id ∉ s.opened) (containers : Array Container) :
    Proceeds g s (leave { enter s id with containers, pending := s.pending ++ [id] } id
      (.container id)) := by
  have hpending : id ∉ s.pending := fun h => hsound.waiting id h hmade
  have hturn : ¬ Turned s id := fun h => h.2.elim (fun hne => hne hmade) hopened
  set last := leave { enter s id with containers, pending := s.pending ++ [id] } id
    (.container id) with hlast
  have hopen : last.opened = s.opened := by simp [hlast, leave, enter]
  have hwaits (other : Nat) : other ∈ last.pending ↔ other ∈ s.pending ∨ other = id := by
    simp [hlast, leave]
  have hturned (other : Nat) (hother : Turned s other) : Turned last other := by
    have hne : other ≠ id := fun hsame => hturn (hsame ▸ hother)
    apply turned_leave
    · refine ⟨?_, (turned_enter id hother).2⟩
      intro hwait
      rcases (hwaits other).mp hwait with hwait | hsame
      · exact hother.1 hwait
      · exact hne hsame
    · exact fun hsame => absurd hsame hne
  have hlastSound : Sound g last :=
    { evolved := hsound.evolved.mono fun other _ hmay => hmay.imp_right (hturned other)
      size := by
        rw [← hsound.size]
        simp [hlast, leave, enter]
      scalars := fun _ _ hscalar => hsound.scalars_leave (by simp) hscalar
      waiting := by
        intro other hwait
        rcases (hwaits other).mp hwait with hwait | rfl
        · exact made_leave_ne_none _ (hsound.waiting other hwait)
        · rw [hlast, made_leave, if_pos ⟨rfl, hsound.lt_size hid⟩]
          simp
      nodup := List.nodup_append.mpr ⟨hsound.nodup, List.nodup_singleton id, by
        rintro other hother _ hsame rfl
        exact hpending (List.mem_singleton.mp hsame ▸ hother)⟩
      apart := by
        intro other hother hwait
        rw [hopen] at hother
        rcases (hwaits other).mp hwait with hwait | rfl
        · exact hsound.apart other hother hwait
        · exact hopened hother }
  exact ⟨hlastSound, hopen, hturned⟩

/-- The first container that waits has its turn. -/
theorem proceeds_pop
    (hsound : Sound g s) {id : Nat} {rest : List Nat} (hpending : s.pending = id :: rest) :
    Proceeds g s { s with pending := rest } ∧ Turned { s with pending := rest } id := by
  have hmem (other : Nat) (hother : other ∈ rest) : other ∈ s.pending := by
    rw [hpending]
    exact List.mem_cons_of_mem id hother
  have hnodup : (id :: rest).Nodup := hpending ▸ hsound.nodup
  have hturned (other : Nat) (hother : Turned s other) : Turned { s with pending := rest } other :=
    ⟨fun hrest => hother.1 (hmem other hrest), hother.2⟩
  have hmade : s.made.getD id none ≠ none := by
    apply hsound.waiting id
    rw [hpending]
    exact List.mem_cons_self
  have hnext : Sound g { s with pending := rest } :=
    { hsound with
      evolved := hsound.evolved.mono fun other _ hmay => hmay.imp_right (hturned other)
      waiting := fun other hother => hsound.waiting other (hmem other hother)
      nodup := (List.nodup_cons.mp hnodup).2
      apart := fun other hother hrest => hsound.apart other hother (hmem other hrest) }
  exact ⟨⟨hnext, rfl, hturned⟩, (List.nodup_cons.mp hnodup).1, .inl hmade⟩

theorem sound_start
    (g : Graph) (containers : Array Container) :
    Sound g ⟨g.nodes, Array.replicate g.nodes.size none, containers, [], []⟩ where
  evolved := evolved_self g _
  size := by simp
  scalars id x hx := by
    rw [Array.getD_eq_getD_getElem?, Array.getElem?_replicate] at hx
    split_ifs at hx <;> cases hx
  waiting id hid := by cases hid
  nodup := List.nodup_nil
  apart id hid := by cases hid

end Builder

end Wireframe.Yaml
