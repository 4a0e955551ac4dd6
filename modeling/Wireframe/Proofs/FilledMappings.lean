import Mathlib.Data.List.Forall2
import Mathlib.Tactic
import Wireframe.Proofs.DuplicateKeys
import Wireframe.Proofs.WrittenValues
import Wireframe.Proofs.SameKeys
import Wireframe.Proofs.Trees

/-!
# Filled mappings

What has been made of a node stays what it is, and a container that has been filled is not
changed again.  So when nothing waits any more, every mapping has an entry for every entry
that is written in it: its keys were looked over before, and only merged entries, which stand
in front of its own, give way to others with the same key.
-/

namespace Wireframe.Yaml

namespace Site

/-- The site before anything has been made of a graph. -/
def start (g : Graph) : Site :=
  ⟨g.nodes, Array.replicate g.nodes.size none, Array.replicate g.nodes.size (.list []), [], []⟩

/-- What was made of a node, if anything yet.  A number without a node stands for null. -/
def part? (s : Site) (id : Nat) : Option Part := s.made.getD id (some (.scalar .null))

theorem part?_of_lt
    {s : Site} {id : Nat} (hid : id < s.made.size) :
    s.part? id = s.made.getD id none := by
  simp [part?, Array.getD_eq_getD_getElem?, hid]

theorem part?_of_le
    {s : Site} {id : Nat} (hid : s.made.size ≤ id) :
    s.part? id = some (.scalar .null) := by
  simp [part?, Array.getD_eq_getD_getElem?, Array.getElem?_eq_none hid]

theorem lt_size_of_made
    {s : Site} {id : Nat} (hmade : s.made.getD id none ≠ none) :
    id < s.made.size := by
  by_contra hid
  exact hmade (by simp [Array.getD_eq_getD_getElem?, Array.getElem?_eq_none (Nat.not_lt.mp hid)])

theorem part?_of_made
    {s : Site} {id : Nat} {part : Part} (hmade : s.made.getD id none = some part) :
    s.part? id = some part := by
  have hid : id < s.made.size := lt_size_of_made (by simp [hmade])
  rw [part?_of_lt hid, hmade]

end Site

namespace Graph

/-- What may be made of a node: its container, or a scalar that it may be read as. -/
def IsPart (g : Graph) (id : Nat) (part : Part) : Prop :=
  part = .container id ∨ ∃ x, part = .scalar x ∧ g.IsKey id x

variable {g : Graph}

theorem isKey_null
    {id : Nat} (hid : g.nodes.size ≤ id) :
    g.IsKey id .null := by
  have hnode := node_of_le hid
  refine ⟨.null, fun _ => .ok .null, "", .inl ?_, rfl, .scalar ?_, rfl⟩
  · rw [hnode]
    rfl
  · rw [hnode]
    rfl

theorem IsKey.eq_null
    {id : Nat} {x : Scalar} (hkey : g.IsKey id x) (hid : g.nodes.size ≤ id) :
    x = .null := by
  obtain ⟨tag, read, text, htag, hread, -, hx⟩ := hkey
  have hnode := node_of_le hid
  rcases htag with rfl | ⟨hvalue, -⟩
  · rw [hnode] at hread
    cases hread
    cases hx
    rfl
  · rw [hnode] at hvalue
    cases hvalue

/-- A node that is read as a scalar is not tagged as a container. -/
theorem IsKey.tag_ne
    {id : Nat} {x : Scalar} (hkey : g.IsKey id x) {tag : Tag}
    (hnone : ∀ start, Builder.reading? start tag = none) (hvalue : tag ≠ .value) :
    (g.node id).tag ≠ tag := by
  obtain ⟨found, read, text, htag, hread, -, -⟩ := hkey
  rintro rfl
  rcases htag with rfl | ⟨hsign, -⟩
  · cases (hnone _).symm.trans hread
  · exact hvalue hsign

end Graph

namespace Builder

variable {g : Graph} {busy : Nat → Prop} {s s' s'' : Site}

/-! ## Entries -/

/-- An entry was made of the key and the value of a written entry. -/
structure IsMadeOf (s : Site) (e : Nat × Nat) (x : Key × Part) : Prop where
  key : ∃ k, s.part? e.1 = some (.scalar k) ∧ x.1 = .scalar k
  value : s.part? e.2 = some x.2

/-- A mapping was filled: it has an entry for every entry that is written in it, and nothing
else unless others are merged into it. -/
structure IsFilled (g : Graph) (s : Site) (id : Nat) (es : List (Key × Part)) : Prop where
  distinct : Entries.HasDistinctKeys es
  written : g.Unmerged (g.entries id) → List.Forall₂ (IsMadeOf s) (g.entries id) es
  locals : ∀ e ∈ g.locals id, ∃ x, IsMadeOf s e x ∧ Entries.Maps es x.1 x.2

/-- What has been made stays what it is. -/
def Grows (s s' : Site) : Prop := ∀ id part, s.part? id = some part → s'.part? id = some part

theorem IsMadeOf.grow
    {e : Nat × Nat} {x : Key × Part} (hmade : IsMadeOf s e x) (hgrows : Grows s s') :
    IsMadeOf s' e x where
  key := hmade.key.imp fun _ h => ⟨hgrows _ _ h.1, h.2⟩
  value := hgrows _ _ hmade.value

theorem IsFilled.grow
    {id : Nat} {es : List (Key × Part)} (hfilled : IsFilled g s id es) (hgrows : Grows s s') :
    IsFilled g s' id es where
  distinct := hfilled.distinct
  written hunmerged := (hfilled.written hunmerged).imp fun _ _ h => h.grow hgrows
  locals e he := (hfilled.locals e he).imp fun _ h => ⟨h.1.grow hgrows, h.2⟩

/-- What a node of a mapping, of a list or of a set is made into holds what is made of what is
written there. -/
structure HasContents (g : Graph) (s : Site) (id : Nat) (c : Container) : Prop where
  map : (g.node id).tag = .map → ∃ es, c = .map es ∧ IsFilled g s id es
  seq : (g.node id).tag = .seq → ∃ items parts, (g.node id).content = .sequence items ∧
    c = .list parts ∧ List.Forall₂ (fun item part => s.part? item = some part) items parts
  set : (∃ keys, c = .set keys) ↔ (g.node id).tag = .set

theorem HasContents.grow
    {id : Nat} {c : Container} (hcontents : HasContents g s id c) (hgrows : Grows s s') :
    HasContents g s' id c where
  map htag := (hcontents.map htag).imp fun _ h => ⟨h.1, h.2.grow hgrows⟩
  seq htag := by
    obtain ⟨items, parts, hitems, hparts, hmade⟩ := hcontents.seq htag
    exact ⟨items, parts, hitems, hparts, hmade.imp fun _ _ h => hgrows _ _ h⟩
  set := hcontents.set

/-- Keys that were looked over are made, and neither those that were seen before nor one
another. -/
structure AreChecked (s : Site) (seen : List Key) (es : List (Nat × Nat)) : Prop where
  made : ∀ e ∈ es, ∃ part, s.part? e.1 = some part
  fresh : ∀ e ∈ es, ∀ x, s.part? e.1 = some (.scalar x) →
    ∀ k ∈ seen, (Key.scalar x).same k = false
  distinct : es.Pairwise fun a b => ∀ x y, s.part? a.1 = some (.scalar x) →
    s.part? b.1 = some (.scalar y) → (Key.scalar x).same (.scalar y) = false

theorem AreChecked.of_suffix
    {seen : List Key} {own es : List (Nat × Nat)} (hchecked : AreChecked s seen es)
    (hsuffix : own <:+ es) :
    AreChecked s seen own where
  made e he := hchecked.made e (hsuffix.mem he)
  fresh e he := hchecked.fresh e (hsuffix.mem he)
  distinct := hchecked.distinct.sublist hsuffix.sublist

/-- A key is different from those that come after it, which were compared with it. -/
theorem AreChecked.cons_scalar
    {seen : List Key} {e : Nat × Nat} {es : List (Nat × Nat)} {x : Scalar}
    (hx : s.part? e.1 = some (.scalar x))
    (hnew : ∀ k ∈ seen, (Key.scalar x).same k = false)
    (hchecked : AreChecked s (.scalar x :: seen) es) :
    AreChecked s seen (e :: es) where
  made := List.forall_mem_cons.mpr ⟨⟨_, hx⟩, hchecked.made⟩
  fresh := by
    rw [List.forall_mem_cons]
    constructor
    · intro y hy
      cases hx.symm.trans hy
      exact hnew
    · exact fun a ha y hy k hk => hchecked.fresh a ha y hy k (List.mem_cons_of_mem _ hk)
  distinct := by
    refine List.pairwise_cons.mpr ⟨fun a ha y z hy hz => ?_, hchecked.distinct⟩
    cases hx.symm.trans hy
    rw [Key.same_comm]
    exact hchecked.fresh a ha z hz _ List.mem_cons_self

theorem AreChecked.cons_of_not_scalar
    {seen : List Key} {e : Nat × Nat} {es : List (Nat × Nat)} {part : Part}
    (hpart : s.part? e.1 = some part) (hscalar : ∀ x, part ≠ .scalar x)
    (hchecked : AreChecked s seen es) :
    AreChecked s seen (e :: es) := by
  have hnone (x : Scalar) : s.part? e.1 ≠ some (.scalar x) :=
    fun hx => hscalar x (Option.some.inj (hpart.symm.trans hx))
  refine ⟨?_, ?_, ?_⟩
  · exact List.forall_mem_cons.mpr ⟨⟨_, hpart⟩, hchecked.made⟩
  · exact List.forall_mem_cons.mpr ⟨fun x hx => absurd hx (hnone x), hchecked.fresh⟩
  · exact List.pairwise_cons.mpr ⟨fun _ _ x _ hx => absurd hx (hnone x), hchecked.distinct⟩

theorem AreChecked.hasDistinctKeys
    {seen : List Key} {es : List (Nat × Nat)} (hchecked : AreChecked s seen es)
    (hgrows : Grows s s') {xs : List (Key × Part)} (hmade : List.Forall₂ (IsMadeOf s') es xs) :
    Entries.HasDistinctKeys xs := by
  have hback {e : Nat × Nat} (he : e ∈ es) {k : Scalar} (hk : s'.part? e.1 = some (.scalar k)) :
      s.part? e.1 = some (.scalar k) := by
    obtain ⟨part, hpart⟩ := hchecked.made e he
    rw [hpart, ← hgrows _ _ hpart, hk]
  have hdistinct := hchecked.distinct
  clear hchecked
  induction hmade with
  | nil => exact List.Pairwise.nil
  | @cons e x es xs hhead htail ih =>
      obtain ⟨hfirst, hrest⟩ := List.pairwise_cons.mp hdistinct
      refine List.pairwise_cons.mpr ⟨fun y hy => ?_,
        ih (fun hmem => hback (List.mem_cons_of_mem _ hmem)) hrest⟩
      obtain ⟨f, hf, hmadeOf⟩ := exists_of_mem_right htail hy
      obtain ⟨k, hk, hkey⟩ := hhead.key
      obtain ⟨l, hl, hother⟩ := hmadeOf.key
      rw [hkey, hother]
      exact hfirst f hf k l (hback List.mem_cons_self hk) (hback (List.mem_cons_of_mem _ hf) hl)

/-- A mapping is filled by what is made of what it holds without merge keys, when its own
keys were looked over. -/
theorem isFilled_fill
    {id : Nat} {es : List (Nat × Nat)} (hholds : g.Holds id es) (hunmerged : g.Unmerged es)
    {seen : List Key} (hchecked : AreChecked s seen (g.locals id)) (hgrows : Grows s s')
    {xs : List (Key × Part)} (hmade : List.Forall₂ (IsMadeOf s') es xs) :
    IsFilled g s' id (Entries.fill [] xs) := by
  have hsuffix := hholds.locals_suffix
  rw [Graph.filter_of_unmerged hunmerged] at hsuffix
  obtain ⟨more, hmore⟩ := hsuffix
  constructor
  · exact Entries.hasDistinctKeys_fill List.Pairwise.nil xs
  · intro hnone
    have hwritten : es = g.entries id := hholds.eq_entries hnone
    have hlocals : g.locals id = g.entries id := Graph.filter_of_unmerged hnone
    rw [hlocals] at hchecked
    rw [hwritten] at hmade
    have hdistinct : Entries.HasDistinctKeys ([] ++ xs) := hchecked.hasDistinctKeys hgrows hmade
    rw [Entries.fill_of_distinct hdistinct]
    exact hmade
  · intro e he
    rw [← hmore] at hmade
    have hown : List.Forall₂ (IsMadeOf s') (g.locals id) (xs.drop more.length) :=
      (List.forall₂_drop_append _ _ _ hmade.flip).flip
    obtain ⟨x, hx, hmadeOf⟩ := exists_of_mem_left hown he
    refine ⟨x, hmadeOf, ?_⟩
    rw [← List.take_append_drop more.length xs, Entries.fill, List.foldl_append]
    exact Entries.maps_fill _ (hchecked.hasDistinctKeys hgrows hown) (List.of_mem_zip hx).2

/-! ## Sites on the way -/

/-- Every container that has been made has its contents, but for what waits and what is being
filled. -/
structure Filled (g : Graph) (busy : Nat → Prop) (s : Site) : Prop where
  size : s.containers.size = g.nodes.size
  own : ∀ id part, s.part? id = some part → g.IsPart id part
  known : ∀ id, s.part? id = some (.container id) → (emptyContainer? (g.node id).tag).isSome
  unmade : ∀ id ∈ s.opened, s.made.getD id none = none
  sets : ∀ id keys, s.containers.getD id (.list []) = .set keys → (g.node id).tag = .set
  contents : ∀ id, s.made.getD id none = some (.container id) → id ∉ s.pending → ¬ busy id →
    HasContents g s id (s.containers.getD id (.list []))

theorem Filled.filled
    (hfilled : Filled g busy s) (id : Nat) (hmade : s.made.getD id none ≠ none)
    (htag : (g.node id).tag = .map) (hwaits : id ∉ s.pending) (hbusy : ¬ busy id) :
    ∃ es, s.containers.getD id (.list []) = .map es ∧ IsFilled g s id es := by
  obtain ⟨part, hpart⟩ := Option.ne_none_iff_exists'.mp hmade
  rcases hfilled.own id part (Site.part?_of_made hpart) with rfl | ⟨x, -, hkey⟩
  · exact (hfilled.contents id hpart hwaits hbusy).map htag
  · exact absurd htag (hkey.tag_ne (fun _ => rfl) nofun)

/-- Building goes on, and neither what has been made nor what has been filled changes. -/
structure Fills (g : Graph) (busy : Nat → Prop) (s s' : Site) : Prop where
  proceeds : Proceeds g s s'
  filled : Filled g busy s'
  grows : Grows s s'
  kept : ∀ id, Turned s id → s'.containers.getD id (.list []) = s.containers.getD id (.list [])

theorem fills_self (hsound : Sound g s) (hfilled : Filled g busy s) : Fills g busy s s :=
  ⟨proceeds_self hsound, hfilled, fun _ _ h => h, fun _ _ => rfl⟩

theorem Fills.trans (hfirst : Fills g busy s s') (hnext : Fills g busy s' s'') :
    Fills g busy s s'' where
  proceeds := hfirst.proceeds.trans hnext.proceeds
  filled := hnext.filled
  grows id part hpart := hnext.grows id part (hfirst.grows id part hpart)
  kept id hturned :=
    (hnext.kept id (hfirst.proceeds.turned id hturned)).trans (hfirst.kept id hturned)

theorem Fills.sound (hfills : Fills g busy s s') : Sound g s' := hfills.proceeds.sound

theorem Filled.advance
    (hsound : Sound g s) (hfilled : Filled g busy s)
    (hadvances : Advances g (fun id => IsMerged g id ∨ Turned s id) s s') :
    Fills g busy s s' := by
  have hproceeds := hsound.advance hadvances
  have hframe := hadvances.frame
  rw [hframe] at hproceeds ⊢
  have hgrows : Grows s { s with nodes := s'.nodes } := fun _ _ h => h
  refine ⟨hproceeds, { hfilled with contents := ?_ }, hgrows, fun _ _ => rfl⟩
  intro id hmade hwaits hbusy
  exact (hfilled.contents id hmade hwaits hbusy).grow hgrows

/-! ## Making entries -/

/-- A misfit has a reason in the graph. -/
def IsTold (g : Graph) (f : Failure) : Prop := ∀ m, f = .misfit m → g.HasMisfit m

theorem isTold_trouble (t : Trouble) : IsTold g (.trouble t) := nofun

theorem Leads.told
    {α : Type} {x : Builder α} {post : α → Site → Prop} (hleads : Leads x s post Harmless) :
    Leads x s post (IsTold g) :=
  hleads.mono (fun _ _ hpost => hpost) fun _ hf m hm => absurd hm (hf.noMisfit m)

section Contents

variable {make makeKey : Nat → Builder Part}

/-- A builder makes nodes one at a time, and tells what it has made. -/
def MakesParts (g : Graph) (busy : Nat → Prop) (make : Nat → Builder Part) : Prop :=
  ∀ id s, Sound g s → Filled g busy s → Leads (make id) s
    (fun part s' => Fills g busy s s' ∧ s'.part? id = some part) (IsTold g)

theorem fills_makeAll
    (hmake : MakesParts g busy make) (ids : List Nat) (hsound : Sound g s)
    (hfilled : Filled g busy s) :
    Leads (makeAll make ids) s (fun parts s' => Fills g busy s s' ∧
      List.Forall₂ (fun id part => s'.part? id = some part) ids parts) (IsTold g) := by
  induction ids generalizing s with
  | nil => exact ⟨fills_self hsound hfilled, .nil⟩
  | cons id ids ih =>
      unfold makeAll
      refine (hmake id s hsound hfilled).bind fun part s₁ hs₁ => ?_
      refine (ih hs₁.1.sound hs₁.1.filled).bind fun parts s₂ hs₂ => ?_
      exact ⟨hs₁.1.trans hs₂.1, .cons (hs₂.1.grows _ _ hs₁.2) hs₂.2⟩

theorem fills_makePairs
    (hmake : MakesParts g busy make) (activity : Activity) (start : Position) (items : List Nat)
    (hsound : Sound g s) (hfilled : Filled g busy s) :
    Leads (makePairs make activity start items) s (fun _ s' => Fills g busy s s')
      (IsTold g) := by
  induction items generalizing s with
  | nil => exact fills_self hsound hfilled
  | cons item items ih =>
      unfold makePairs
      rw [leads_bind, leads_node]
      split
      next key value hcontent =>
        refine (hmake key s hsound hfilled).bind fun _ s₁ hs₁ => ?_
        refine (hmake value s₁ hs₁.1.sound hs₁.1.filled).bind fun _ s₂ hs₂ => ?_
        refine (ih hs₂.1.sound hs₂.1.filled).bind fun _ s₃ hs₃ => ?_
        exact (hs₁.1.trans hs₂.1).trans hs₃
      next => exact isTold_trouble _
      next => exact isTold_trouble _

theorem fills_makeEntries
    (hmake : MakesParts g busy make) (es : List (Nat × Nat)) (done : List (Key × Part))
    (hsound : Sound g s) (hfilled : Filled g busy s) :
    Leads (makeEntries make done es) s (fun result s' => Fills g busy s s' ∧
      ∃ xs, List.Forall₂ (IsMadeOf s') es xs ∧ result = Entries.fill done xs)
      (IsTold g) := by
  induction es generalizing s done with
  | nil => exact ⟨fills_self hsound hfilled, [], .nil, rfl⟩
  | cons e rest ih =>
      obtain ⟨id, value⟩ := e
      unfold makeEntries
      refine (hmake id s hsound hfilled).bind fun part s₁ hs₁ => ?_
      split
      next k =>
        refine (hmake value s₁ hs₁.1.sound hs₁.1.filled).bind fun part s₂ hs₂ => ?_
        refine (ih _ hs₂.1.sound hs₂.1.filled).imp fun result s₃ hs₃ => ?_
        obtain ⟨hfills, xs, hxs, hresult⟩ := hs₃
        have hafter := hs₂.1.trans hfills
        have hmade : IsMadeOf s₃ (id, value) (.scalar k, part) :=
          ⟨⟨k, hafter.grows _ _ hs₁.2, rfl⟩, hfills.grows _ _ hs₂.2⟩
        exact ⟨hs₁.1.trans hafter, _, .cons hmade hxs, hresult⟩
      next => exact isTold_trouble _

/-- A set that is a key is made of a node that is tagged so. -/
theorem isTold_setAsKey
    (hfilled : Filled g busy s) {id : Nat} {part : Part} (hpart : s.part? id = some part)
    {made : Nat} {keys : List Key} (hmade : part = .container made)
    (hset : s.containers.getD made (.list []) = .set keys)
    (hwritten : ∃ other, ∃ e ∈ g.entries other, e.1 = id) :
    IsTold g (.misfit .setAsKey) := by
  intro m hm
  cases hm
  obtain ⟨other, e, he, rfl⟩ := hwritten
  rcases hfilled.own _ _ hpart with hown | ⟨x, hscalar, -⟩
  · cases hmade.symm.trans hown
    exact .setAsKey he (hfilled.sets _ keys hset)
  · cases hmade.symm.trans hscalar

/-- A key that is refused is reported, or it was made of a node and cannot be written. -/
theorem isTold_keyTwice
    (hfilled : Filled g busy s) {id : Nat} {x : Scalar} (hpart : s.part? id = some (.scalar x))
    (hwritten : ∃ other, ∃ e ∈ g.entries other, e.1 = id) (start : Position) :
    IsTold g (keyTwice (.scalar x) start) := by
  unfold keyTwice
  split
  next => exact isTold_trouble _
  next cause hcause =>
    intro m hm
    cases hm
    obtain ⟨other, e, he, rfl⟩ := hwritten
    rcases hfilled.own _ _ hpart with hown | ⟨y, hscalar, hkey⟩
    · cases hown
    · cases hscalar
      exact .keyNotWritten he hkey (Key.write_eq_error_iff.mp hcause) cause

theorem fills_checkKeys
    (hmake : MakesParts g busy make) {seen : List Key} {es : List (Nat × Nat)}
    (hwritten : ∀ e ∈ es, ∃ id, e ∈ g.entries id) (hsound : Sound g s)
    (hfilled : Filled g busy s) :
    Leads (checkKeys make seen es) s (fun _ s' => Fills g busy s s' ∧
      AreChecked s' seen (es.filter fun e => (g.node e.1).tag ≠ .merge)) (IsTold g) := by
  induction es generalizing s seen with
  | nil => exact ⟨fills_self hsound hfilled, by simp, by simp, List.Pairwise.nil⟩
  | cons e rest ih =>
      obtain ⟨id, value⟩ := e
      obtain ⟨⟨other, hother⟩, hrest⟩ := List.forall_mem_cons.mp hwritten
      have htag := ((hsound.evolved.node id).tag).eq_merge_iff
      unfold checkKeys
      rw [leads_bind, leads_node]
      split_ifs with hmerge
      · rw [List.filter_cons_of_neg (by simpa using htag.mp hmerge)]
        exact ih hrest hsound hfilled
      · rw [List.filter_cons_of_pos (by simpa using fun h => hmerge (htag.mpr h))]
        refine (hmake id s hsound hfilled).bind fun part s₁ hs₁ => ?_
        obtain ⟨hfirst, hpart⟩ := hs₁
        split
        next x =>
          dsimp only
          split_ifs with hany
          · exact isTold_keyTwice hfirst.filled hpart ⟨other, _, hother, rfl⟩ _
          · refine (ih hrest hfirst.sound hfirst.filled).imp fun _ s₂ hs₂ => ?_
            have hnew : ∀ k ∈ seen, (Key.scalar x).same k = false := by
              simpa using List.any_eq_false.mp (by simpa using hany)
            exact ⟨hfirst.trans hs₂.1, hs₂.2.cons_scalar (hs₂.1.grows _ _ hpart) hnew⟩
        next hscalar =>
          refine (leads_isSet part).bind fun isSet s₂ hs₂ => ?_
          obtain ⟨rfl, hset⟩ := hs₂
          split_ifs with hkey
          · obtain ⟨made, keys, hmade, hkeys⟩ := hset hkey
            exact isTold_setAsKey hfirst.filled hpart hmade hkeys ⟨other, _, hother, rfl⟩
          · refine (ih hrest hfirst.sound hfirst.filled).imp fun _ s₂ hs₂ => ?_
            exact ⟨hfirst.trans hs₂.1,
              hs₂.2.cons_of_not_scalar (hs₂.1.grows _ _ hpart) hscalar⟩

/-- A mapping is filled with what is made of its entries, after its keys were looked over and
its merge keys were replaced. -/
theorem fills_mappingEntries
    {dialect : Dialect} (hunique : dialect.uniqueKeys = true) (hmake : MakesParts g busy make)
    (hmakeKey : MakesParts g busy makeKey) {id : Nat} (hsound : Sound g s)
    (hfilled : Filled g busy s) (hturned : Turned s id) :
    Leads (mappingEntries dialect make makeKey id) s (fun es s' => Fills g busy s s' ∧
      IsFilled g s' id es) (IsTold g) := by
  unfold mappingEntries
  rw [leads_bind, leads_node]
  split
  next written hwritten =>
    have hholds : g.Holds id written := by
      have hnode := (hsound.evolved.node id).holds
      rwa [hwritten] at hnode
    rw [if_pos hunique]
    refine (fills_checkKeys hmakeKey (fun _ he => hholds.exists_entries he) hsound hfilled).bind
      fun _ s₁ hs₁ => ?_
    obtain ⟨hfirst, hchecked⟩ := hs₁
    have hmay : ∀ other id, g.Merges other id → other ≠ id → IsMerged g id ∨ Turned s₁ id :=
      fun other _ hmerges hother => .inl ⟨other, hother, hmerges⟩
    have hstill : Turned s₁ id := hfirst.proceeds.turned id hturned
    refine (leads_flatten hmay (.inr hstill) hfirst.sound.evolved).told.bind fun _ s₂ hs₂ => ?_
    obtain ⟨hadvances, hunmerged⟩ := hs₂
    have hnext := hfirst.filled.advance hfirst.sound hadvances
    rw [leads_bind, leads_entries]
    refine (fills_makeEntries hmake _ [] hnext.sound hnext.filled).imp fun es s₃ hs₃ => ?_
    obtain ⟨hlast, xs, hmade, rfl⟩ := hs₃
    refine ⟨(hfirst.trans hnext).trans hlast, ?_⟩
    exact isFilled_fill (hnext.sound.evolved.node id).holds hunmerged
      (hchecked.of_suffix hholds.locals_suffix) (hnext.trans hlast).grows hmade
  next => exact isTold_trouble _

theorem fills_contents
    {dialect : Dialect} (hunique : dialect.uniqueKeys = true) (hmake : MakesParts g busy make)
    (hmakeKey : MakesParts g busy makeKey) {id : Nat} (hsound : Sound g s)
    (hfilled : Filled g busy s) (hturned : Turned s id) :
    Leads (contents dialect make makeKey id) s (fun c s' => Fills g busy s s' ∧
      HasContents g s' id c) (IsTold g) := by
  have hentries := fills_mappingEntries hunique hmake hmakeKey hsound hfilled hturned
  have hnode := hsound.evolved.node id
  have htag {tag : Tag} (hvalue : tag ≠ .value) (hstr : tag ≠ .str) :
      (nodeAt s.nodes id).tag = tag ↔ (g.node id).tag = tag := hnode.tag.eq_iff hvalue hstr
  have hmap : (nodeAt s.nodes id).tag = .map ↔ _ := htag (by decide) (by decide)
  have hseq : (nodeAt s.nodes id).tag = .seq ↔ _ := htag (by decide) (by decide)
  have hset : (nodeAt s.nodes id).tag = .set ↔ _ := htag (by decide) (by decide)
  unfold contents
  rw [leads_bind, leads_node]
  split
  next _ _ htag =>
    have hgraph := hmap.mp htag
    refine hentries.bind fun es s' hs' => ⟨hs'.1, fun _ => ⟨es, rfl, hs'.2⟩, ?_, ?_⟩
    · simp [hgraph]
    · simp [hgraph]
  next _ _ htag =>
    have hgraph := hset.mp htag
    refine hentries.bind fun es s' hs' => ⟨hs'.1, ?_, ?_, iff_of_true ⟨_, rfl⟩ hgraph⟩
    · simp [hgraph]
    · simp [hgraph]
  next _ _ items htag hitems =>
    have hgraph := hseq.mp htag
    refine (fills_makeAll hmake _ hsound hfilled).bind fun parts s' hs' =>
      ⟨hs'.1, ?_, fun _ => ?_, ?_⟩
    · simp [hgraph]
    · exact ⟨items, parts, (hnode.sequence items).mp hitems, rfl, hs'.2⟩
    · simp [hgraph]
  next => exact isTold_trouble _
  next hnotMap hnotSet hnotSeq =>
    refine (fills_makePairs hmake _ _ _ hsound hfilled).bind fun _ _ hs' =>
      ⟨hs', fun h => ?_, fun h => ?_, ?_⟩
    · exact absurd (hmap.mpr h) hnotMap
    · exact absurd (hseq.mpr h) hnotSeq
    · exact iff_of_false nofun fun h => hnotSet (hset.mpr h)
  next => exact isTold_trouble _

end Contents

end Builder

end Wireframe.Yaml
