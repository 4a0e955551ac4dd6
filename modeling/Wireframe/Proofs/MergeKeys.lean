import Mathlib.Tactic
import Wireframe.Proofs.Builders

/-!
# Merge keys of a node graph

While a tree is built, merge keys are taken out of the mappings and what they bring in is put
in front.  What a mapping may hold at some time is told here by the graph alone, with the
scalars that its keys may be read as.  Nodes that have evolved from a graph hold nothing else,
and only where it is allowed do they hold anything but what is written.
-/

namespace Wireframe.Yaml

namespace Graph

variable (g : Graph)

/-- The entries that are written in a mapping. -/
def entries (id : Nat) : List (Nat × Nat) := (g.node id).content.entries

/-- The tags of a node while a tree is built: an equals sign that is a key becomes text. -/
def HasTag (id : Nat) (tag : Tag) : Prop :=
  tag = (g.node id).tag ∨ (g.node id).tag = .value ∧ tag = .str

/-- A mapping has a merge key with the source as its value or as an item of its value. -/
def Merges (id source : Nat) : Prop :=
  ∃ e ∈ g.entries id, (g.node e.1).tag = .merge ∧
    (e.2 = source ∨ ∃ items, (g.node e.2).content = .sequence items ∧ source ∈ items)

/-- No merge keys are left. -/
def Unmerged (es : List (Nat × Nat)) : Prop := ∀ e ∈ es, (g.node e.1).tag ≠ .merge

/-- The entries that are written in a mapping, without its merge keys. -/
def locals (id : Nat) : List (Nat × Nat) :=
  (g.entries id).filter fun e => (g.node e.1).tag ≠ .merge

/-- What a mapping may hold at some time: what is written, less some of its merge keys, and in
front of it what its sources hold when they have no merge keys left. -/
inductive Holds : Nat → List (Nat × Nat) → Prop
  | written (id : Nat) : Holds id (g.entries id)
  | dropped {id xs e ys} (hholds : Holds id (xs ++ e :: ys)) (hmerge : (g.node e.1).tag = .merge) :
      Holds id (xs ++ ys)
  | brought {id source es more} (hholds : Holds id es) (hmerges : g.Merges id source)
      (hsource : Holds source more) (hunmerged : g.Unmerged more) : Holds id (more ++ es)

/-- The text of a scalar, or a text under an equals sign of a mapping. -/
inductive HasText : Nat → String → Prop
  | scalar {id text} (hcontent : (g.node id).content = .scalar text) : HasText id text
  | under {id es e text} (hholds : g.Holds id es) (he : e ∈ es)
      (htag : (g.node e.1).tag = .value) (htext : HasText e.2 text) : HasText id text

/-- A scalar that a key may be read as. -/
def IsKey (id : Nat) (x : Scalar) : Prop :=
  ∃ tag read text, g.HasTag id tag ∧ Builder.reading? (g.node id).start tag = some read ∧
    g.HasText id text ∧ read text = .ok x

/-- A node is not read as a scalar since its text, or that there is none of its own, does not
fit a tag of scalars. -/
def IsUnfit (id : Nat) (m : Misfit) : Prop :=
  ∃ tag read text, g.HasTag id tag ∧ Builder.reading? (g.node id).start tag = some read ∧
    g.HasText id text ∧ (read text = .error (.misfit m) ∨
      m = .noTimestampText ∧ tag = .timestamp ∧ (g.node id).content.isScalar = false)

/-- Why a misfit may occur: a node is unfit, a set is a key, or a key cannot be written. -/
inductive HasMisfit : Misfit → Prop
  | unfit {id m} (hunfit : g.IsUnfit id m) : HasMisfit m
  | setAsKey {id e} (he : e ∈ g.entries id) (htag : (g.node e.1).tag = .set) : HasMisfit .setAsKey
  | keyNotWritten {id e x} (he : e ∈ g.entries id) (hkey : g.IsKey e.1 x)
      (htext : x.hasText = false) (cause : NoText) : HasMisfit (.keyNotWritten cause)

/-- Two entries, one behind the other, have equal keys. -/
def HasTwins (es : List (Nat × Nat)) : Prop :=
  ∃ first second, [first, second].Sublist es ∧
    (g.node first.1).tag ≠ .merge ∧ (g.node second.1).tag ≠ .merge ∧
      ∃ x y, g.IsKey first.1 x ∧ g.IsKey second.1 y ∧ (Key.scalar y).same (.scalar x) = true

/-- A mapping with merge keys of its own that is merged into another one, and in which some
key is equal to one that is brought in. -/
structure IsCaught (id : Nat) : Prop where
  merged : ∃ other, other ≠ id ∧ g.Merges other id
  merging : ∃ source, g.Merges id source
  twins : ∃ es, g.Holds id es ∧ g.HasTwins es

variable {g}

theorem node_of_le
    {id : Nat} (hid : g.nodes.size ≤ id) :
    g.node id = default := by
  simp [node, Array.getD_eq_getD_getElem?, Array.getElem?_eq_none hid]

theorem entries_eq_nil
    {id : Nat} (hid : g.nodes.size ≤ id) :
    g.entries id = [] := by
  rw [entries, node_of_le hid]
  rfl

/-- What holds of the entries of every node, and of no entries, holds everywhere. -/
theorem forall_entryLists
    {P : List (Nat × Nat) → Prop} (hnil : P [])
    (hall : ∀ id < g.nodes.size, P (g.entries id)) (id : Nat) :
    P (g.entries id) := by
  by_cases hid : id < g.nodes.size
  · exact hall id hid
  · rwa [entries_eq_nil (by omega)]

theorem forall_entries
    {P : Nat × Nat → Prop}
    (hall : ∀ id < g.nodes.size, ∀ e ∈ g.entries id, P e) (id : Nat) :
    ∀ e ∈ g.entries id, P e :=
  forall_entryLists (P := fun es => ∀ e ∈ es, P e) (by simp) hall id

/-- Only equals signs change their tags. -/
theorem HasTag.eq_iff
    {id : Nat} {tag other : Tag} (htag : g.HasTag id tag) (hvalue : other ≠ .value)
    (hstr : other ≠ .str) :
    tag = other ↔ (g.node id).tag = other := by
  rcases htag with rfl | ⟨hsign, rfl⟩
  · rfl
  · simp [hsign, hvalue.symm, hstr.symm]

theorem HasTag.eq_merge_iff
    {id : Nat} {tag : Tag} (htag : g.HasTag id tag) :
    tag = .merge ↔ (g.node id).tag = .merge :=
  htag.eq_iff (by decide) (by decide)

theorem HasTag.eq_value
    {id : Nat} (htag : g.HasTag id .value) :
    (g.node id).tag = .value := by
  rcases htag with heq | ⟨-, heq⟩
  · exact heq.symm
  · cases heq

theorem Unmerged.append
    {es more : List (Nat × Nat)} (hes : g.Unmerged es) (hmore : g.Unmerged more) :
    g.Unmerged (es ++ more) := by
  intro e he
  rcases List.mem_append.mp he with hleft | hright
  · exact hes e hleft
  · exact hmore e hright

/-- The merge keys that a mapping may hold are written in it. -/
theorem Holds.mem_entries
    {id : Nat} {es : List (Nat × Nat)} (hholds : g.Holds id es) {e : Nat × Nat} (he : e ∈ es)
    (hmerge : (g.node e.1).tag = .merge) :
    e ∈ g.entries id := by
  induction hholds with
  | written id => exact he
  | dropped hholds hdropped ih =>
      apply ih
      rcases List.mem_append.mp he with hleft | hright
      · exact List.mem_append_left _ hleft
      · exact List.mem_append_right _ (List.mem_cons_of_mem _ hright)
  | brought hholds hmerges hsource hunmerged ih =>
      rcases List.mem_append.mp he with hleft | hright
      · exact absurd hmerge (hunmerged e hleft)
      · exact ih hright

/-- Whatever a mapping may hold is written in some mapping. -/
theorem Holds.exists_entries
    {id : Nat} {es : List (Nat × Nat)} (hholds : g.Holds id es) {e : Nat × Nat} (he : e ∈ es) :
    ∃ id, e ∈ g.entries id := by
  induction hholds with
  | written id => exact ⟨id, he⟩
  | dropped hholds hmerge ih =>
      apply ih
      rcases List.mem_append.mp he with hleft | hright
      · exact List.mem_append_left _ hleft
      · exact List.mem_append_right _ (List.mem_cons_of_mem _ hright)
  | brought hholds hmerges hsource hunmerged ih hmore =>
      rcases List.mem_append.mp he with hleft | hright
      · exact hmore hleft
      · exact ih hright

/-- Without sources, a mapping holds nothing but what is written in it. -/
theorem Holds.sublist
    {id : Nat} {es : List (Nat × Nat)} (hholds : g.Holds id es)
    (hnone : ¬ ∃ source, g.Merges id source) :
    es.Sublist (g.entries id) := by
  induction hholds with
  | written id => exact List.Sublist.refl _
  | @dropped id xs e ys hholds hdropped ih =>
      have hdrop : (xs ++ ys).Sublist (xs ++ e :: ys) :=
        (List.Sublist.refl xs).append (List.sublist_cons_self e ys)
      exact hdrop.trans (ih hnone)
  | brought hholds hmerges hsource hunmerged ih => exact absurd ⟨_, hmerges⟩ hnone

theorem filter_of_unmerged
    {es : List (Nat × Nat)} (hunmerged : g.Unmerged es) :
    es.filter (fun e => (g.node e.1).tag ≠ .merge) = es :=
  List.filter_eq_self.mpr fun e he => decide_eq_true (hunmerged e he)

/-- Whatever is brought in, what is written in a mapping stays behind it. -/
theorem Holds.locals_suffix
    {id : Nat} {es : List (Nat × Nat)} (hholds : g.Holds id es) :
    g.locals id <:+ es.filter fun e => (g.node e.1).tag ≠ .merge := by
  induction hholds with
  | written id => exact List.suffix_rfl
  | dropped hholds hmerge ih => simpa [hmerge] using ih
  | brought hholds hmerges hsource hunmerged ih =>
      rw [List.filter_append]
      exact ih.trans (List.suffix_append _ _)

/-- A mapping without merge keys holds what is written in it. -/
theorem Holds.eq_entries
    {id : Nat} {es : List (Nat × Nat)} (hholds : g.Holds id es)
    (hunmerged : g.Unmerged (g.entries id)) :
    es = g.entries id := by
  induction hholds with
  | written id => rfl
  | dropped hholds hmerge ih =>
      rw [← ih hunmerged] at hunmerged
      exact absurd hmerge (hunmerged _ (by simp))
  | brought hholds hmerges hsource _ _ =>
      obtain ⟨e, he, hmerge, -⟩ := hmerges
      exact absurd hmerge (hunmerged e he)

theorem HasTwins.mono
    {es more : List (Nat × Nat)} (htwins : g.HasTwins es) (hsublist : es.Sublist more) :
    g.HasTwins more := by
  obtain ⟨first, second, hpair, hrest⟩ := htwins
  exact ⟨first, second, hpair.trans hsublist, hrest⟩

/-- Equal keys in what a merged mapping holds are written in it, or it is caught merging. -/
theorem HasTwins.cause
    {id other : Nat} {es : List (Nat × Nat)} (htwins : g.HasTwins es) (hholds : g.Holds id es)
    (hother : other ≠ id) (hmerges : g.Merges other id) :
    g.HasTwins (g.entries id) ∨ g.IsCaught id := by
  by_cases hsource : ∃ source, g.Merges id source
  · exact .inr ⟨⟨other, hother, hmerges⟩, hsource, es, hholds, htwins⟩
  · exact .inl (htwins.mono (hholds.sublist hsource))

theorem HasText.eq_of_scalar
    {id : Nat} {text other : String} (htext : g.HasText id text)
    (hcontent : (g.node id).content = .scalar other) :
    text = other := by
  cases htext with
  | scalar htext =>
      rw [hcontent] at htext
      exact (Content.scalar.inj htext).symm
  | under hholds he =>
      have hnone : g.entries id = [] := by simp [entries, Content.entries, hcontent]
      have hsource : ¬ ∃ source, g.Merges id source := by
        rintro ⟨source, e, hmem, -⟩
        rw [hnone] at hmem
        cases hmem
      have hsublist := hholds.sublist hsource
      rw [hnone, List.sublist_nil] at hsublist
      rw [hsublist] at he
      cases he

/-- A key that is a scalar and no equals sign is read by its tag from its text. -/
theorem IsKey.exists_read
    {id : Nat} {text : String} {x : Scalar} (hkey : g.IsKey id x)
    (hvalue : (g.node id).tag ≠ .value) (hcontent : (g.node id).content = .scalar text) :
    ∃ read, Builder.reading? (g.node id).start (g.node id).tag = some read ∧ read text = .ok x := by
  obtain ⟨tag, read, found, hhas, hread, htext, hx⟩ := hkey
  rcases hhas with rfl | ⟨hsign, -⟩
  · exact ⟨read, hread, htext.eq_of_scalar hcontent ▸ hx⟩
  · exact absurd hsign hvalue

/-- A key that is tagged as text is read as its text. -/
theorem IsKey.eq_text
    {id : Nat} {text : String} {x : Scalar} (hkey : g.IsKey id x) (htag : (g.node id).tag = .str)
    (hcontent : (g.node id).content = .scalar text) :
    x = .text text := by
  obtain ⟨read, hread, hx⟩ := hkey.exists_read (by simp [htag]) hcontent
  rw [htag] at hread
  cases hread
  cases hx
  rfl

/-- Keys that are tagged as text are equal only if their texts are. -/
theorem not_hasTwins_of_pairwise
    {es : List (Nat × Nat)}
    (hkeys : ∀ e ∈ es, (g.node e.1).tag ≠ .merge →
      (g.node e.1).tag = .str ∧ (g.node e.1).content.isScalar = true)
    (hdistinct : es.Pairwise fun a b => (g.node a.1).content ≠ (g.node b.1).content) :
    ¬ g.HasTwins es := by
  rintro ⟨first, second, hpair, hfirst, hsecond, x, y, hx, hy, hsame⟩
  have hmem (e : Nat × Nat) (he : e ∈ [first, second]) : e ∈ es := hpair.subset he
  have htext (e : Nat × Nat) (he : e ∈ [first, second]) (hne : (g.node e.1).tag ≠ .merge) :
      (g.node e.1).tag = .str ∧ ∃ text, (g.node e.1).content = .scalar text := by
    obtain ⟨htag, hscalar⟩ := hkeys e (hmem e he) hne
    refine ⟨htag, ?_⟩
    unfold Content.isScalar at hscalar
    split at hscalar
    next text hcontent => exact ⟨text, hcontent⟩
    next => cases hscalar
  obtain ⟨htag, text, hcontent⟩ := htext first (by simp) hfirst
  obtain ⟨htag', text', hcontent'⟩ := htext second (by simp) hsecond
  have hne := List.pairwise_iff_forall_sublist.mp hdistinct hpair
  rw [hcontent, hcontent'] at hne
  rw [hx.eq_text htag hcontent, hy.eq_text htag' hcontent'] at hsame
  apply hne
  have heq : text' = text := by simpa [Key.same, Scalar.same, Scalar.integer?] using hsame
  rw [heq]

/-- What may be put in front of whatever a mapping holds. -/
def Brings (g : Graph) (id : Nat) (more : List (Nat × Nat)) : Prop :=
  ∀ es, g.Holds id es → g.Holds id (more ++ es)

theorem brings_nil (id : Nat) : g.Brings id [] := fun _ hholds => hholds

theorem Brings.append
    {id : Nat} {more others : List (Nat × Nat)} (hmore : g.Brings id more)
    (hothers : g.Brings id others) :
    g.Brings id (more ++ others) := by
  intro es hholds
  rw [List.append_assoc]
  exact hmore _ (hothers es hholds)

theorem Merges.brings
    {id source : Nat} (hmerges : g.Merges id source) {more : List (Nat × Nat)}
    (hsource : g.Holds source more) (hunmerged : g.Unmerged more) :
    g.Brings id more :=
  fun _ hholds => .brought hholds hmerges hsource hunmerged

end Graph

/-! ## Nodes on the way -/

theorem nodeAt_modify
    {nodes : Array Node} {id : Nat} (hid : id < nodes.size) (f : Node → Node) (other : Nat) :
    nodeAt (nodes.modify id f) other =
      if other = id then f (nodeAt nodes id) else nodeAt nodes other := by
  unfold nodeAt
  simp only [Array.getD_eq_getD_getElem?, Array.getElem?_modify]
  by_cases hsame : other = id
  · subst hsame
    simp [hid]
  · simp [Ne.symm hsame, hsame]

theorem lt_size_of_ne
    {nodes : Array Node} {id : Nat} (hid : nodeAt nodes id ≠ default) :
    id < nodes.size := by
  by_contra hle
  have hsize : nodes.size ≤ id := by omega
  exact hid (by simp [nodeAt, Array.getD_eq_getD_getElem?, Array.getElem?_eq_none hsize])

/-- A node that has evolved from a node of a graph.  Its entries are as written unless they
are allowed to change. -/
structure Descends (g : Graph) (mayChange : Nat → Prop) (id : Nat) (n : Node) : Prop where
  start : n.start = (g.node id).start
  tag : g.HasTag id n.tag
  scalar : ∀ text, n.content = .scalar text ↔ (g.node id).content = .scalar text
  sequence : ∀ items, n.content = .sequence items ↔ (g.node id).content = .sequence items
  holds : g.Holds id n.content.entries
  kept : n.content.entries = g.entries id ∨ mayChange id

theorem Descends.exists_mapping_iff
    {g : Graph} {mayChange : Nat → Prop} {id : Nat} {n : Node} (hnode : Descends g mayChange id n) :
    (∃ es, n.content = .mapping es) ↔ ∃ es, (g.node id).content = .mapping es := by
  have hscalar := hnode.scalar
  have hsequence := hnode.sequence
  cases hn : n.content <;> cases hg : (g.node id).content <;> simp_all

theorem Descends.isScalar_eq
    {g : Graph} {mayChange : Nat → Prop} {id : Nat} {n : Node} (hnode : Descends g mayChange id n) :
    n.content.isScalar = (g.node id).content.isScalar := by
  have hscalar := hnode.scalar
  have hsequence := hnode.sequence
  cases hn : n.content <;> cases hg : (g.node id).content <;> simp_all [Content.isScalar]

/-- Nodes that have evolved from those of a graph. -/
structure Evolved (g : Graph) (mayChange : Nat → Prop) (nodes : Array Node) : Prop where
  size : nodes.size = g.nodes.size
  node : ∀ id, Descends g mayChange id (nodeAt nodes id)

theorem evolved_self (g : Graph) (mayChange : Nat → Prop) : Evolved g mayChange g.nodes where
  size := rfl
  node id := ⟨rfl, .inl rfl, fun _ => Iff.rfl, fun _ => Iff.rfl, .written id, .inl rfl⟩

namespace Evolved

variable {g : Graph} {mayChange : Nat → Prop} {nodes : Array Node}
  (hevolved : Evolved g mayChange nodes)

include hevolved

/-- Numbers without a node have no entries, so nothing has to be allowed there. -/
theorem mono
    {other : Nat → Prop} (hmono : ∀ id, id < nodes.size → mayChange id → other id) :
    Evolved g other nodes where
  size := hevolved.size
  node id := by
    refine { hevolved.node id with kept := ?_ }
    by_cases hid : id < nodes.size
    · exact (hevolved.node id).kept.imp_right (hmono id hid)
    · have hnodes : nodes.size ≤ id := by omega
      have hgraph : g.nodes.size ≤ id := hevolved.size ▸ hnodes
      left
      rw [Graph.entries_eq_nil hgraph]
      simp [nodeAt, Array.getD_eq_getD_getElem?, Array.getElem?_eq_none hnodes, Content.entries]

theorem modify
    {id : Nat} (hid : id < nodes.size) {f : Node → Node}
    (hnode : Descends g mayChange id (f (nodeAt nodes id))) :
    Evolved g mayChange (nodes.modify id f) where
  size := by
    rw [Array.size_modify]
    exact hevolved.size
  node other := by
    rw [nodeAt_modify hid]
    split_ifs with hsame
    · exact hsame ▸ hnode
    · exact hevolved.node other

theorem setEntries
    {id : Nat} {es : List (Nat × Nat)} (hmapping : ∃ es, (g.node id).content = .mapping es)
    (hholds : g.Holds id es) (hmay : mayChange id) :
    id < nodes.size ∧
      Evolved g mayChange (nodes.modify id fun n => { n with content := .mapping es }) := by
  have hnode := hevolved.node id
  obtain ⟨written, hwritten⟩ := hnode.exists_mapping_iff.mpr hmapping
  have hid : id < nodes.size := by
    refine lt_size_of_ne fun hdefault => ?_
    rw [hdefault] at hwritten
    cases hwritten
  refine ⟨hid, hevolved.modify hid ⟨hnode.start, hnode.tag, fun text => ?_, fun items => ?_, hholds,
    .inr hmay⟩⟩
  · rw [← hnode.scalar text, hwritten]
    simp
  · rw [← hnode.sequence items, hwritten]
    simp

/-- Letting an equals sign be text changes no contents. -/
theorem setTag
    {id : Nat} (hvalue : (nodeAt nodes id).tag = .value) :
    Evolved g mayChange (nodes.modify id fun n => { n with tag := .str }) ∧
      ∀ other, (nodeAt (nodes.modify id fun n => { n with tag := .str }) other).content =
        (nodeAt nodes other).content := by
  have hid : id < nodes.size := by
    refine lt_size_of_ne fun hdefault => ?_
    rw [hdefault] at hvalue
    cases hvalue
  have hnode := hevolved.node id
  have htag : g.HasTag id .value := hvalue ▸ hnode.tag
  refine ⟨hevolved.modify hid { hnode with tag := .inr ⟨htag.eq_value, rfl⟩ }, fun other => ?_⟩
  rw [nodeAt_modify hid]
  split_ifs with hsame
  · rw [hsame]
  · rfl

end Evolved

end Wireframe.Yaml
