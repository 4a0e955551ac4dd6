import Mathlib.Tactic
import Wireframe.Proofs.Dialects
import Wireframe.Proofs.LexemeOrder

/-!
# Trees of nodes

Without aliases, the nodes of a document make up a tree.  A reader of nodes adds trees behind
the nodes that were read before and leaves those alone: what is below a node comes after it,
and no node is below two others or twice below one.  The trees stand in the text where the
lexemes were that the reader has taken, one tree behind the other.
-/

namespace Wireframe.Yaml

/-- The nodes directly below a node, with the keys of a mapping. -/
def Content.below : Content → List Nat
  | scalar _ => []
  | sequence items => items
  | mapping entries => entries.flatMap fun e => [e.1, e.2]

/-- The nodes of a graph make up a tree: the root is below no node, and every other node is
below one node at most, and only once. -/
structure Graph.IsTree (g : Graph) : Prop where
  root : ∀ id, g.root ∉ (g.node id).content.below
  nodup : ∀ id, (g.node id).content.below.Nodup
  parent : ∀ a b, ∀ c ∈ (g.node a).content.below, c ∈ (g.node b).content.below → a = b

/-- Whether a lexeme leads back to an anchor. -/
def LexemeKind.isAlias : LexemeKind → Bool
  | reference _ => true
  | _ => false

/-- No lexeme is an alias. -/
def Lexemes.HasNoAlias (lexemes : Lexemes) : Prop :=
  ∀ l ∈ lexemes.items, l.kind.isAlias = false

instance (lexemes : Lexemes) : Decidable lexemes.HasNoAlias :=
  inferInstanceAs (Decidable (∀ l ∈ lexemes.items, l.kind.isAlias = false))

namespace Draft

variable {d d' d'' : Draft} {roots more : List Nat}

/-- The numbers of the nodes below a node of a draft. -/
def below (d : Draft) (id : Nat) : List Nat := (nodeAt d.nodes id).content.below

theorem below_of_le {id : Nat} (hid : d.nodes.size ≤ id) : d.below id = [] := by
  simp [below, nodeAt, Array.getD_eq_getD_getElem?, Array.getElem?_eq_none hid, default,
    Content.below]

/-- The later draft has trees with the given roots behind the nodes of the earlier one. -/
structure Adds (d d' : Draft) (roots : List Nat) : Prop where
  noAlias : d'.lexemes.HasNoAlias
  size : d.nodes.size ≤ d'.nodes.size
  kept : ∀ id < d.nodes.size, nodeAt d'.nodes id = nodeAt d.nodes id
  after : ∀ id, d.nodes.size ≤ id → ∀ c ∈ d'.below id, id < c ∧ c < d'.nodes.size
  nodup : ∀ id, d.nodes.size ≤ id → (d'.below id).Nodup
  parent : ∀ a b, d.nodes.size ≤ a → d.nodes.size ≤ b →
    ∀ c ∈ d'.below a, c ∈ d'.below b → a = b
  roots_in : ∀ r ∈ roots, d.nodes.size ≤ r ∧ r < d'.nodes.size
  roots_top : ∀ r ∈ roots, ∀ id, d.nodes.size ≤ id → r ∉ d'.below id
  roots_nodup : roots.Nodup

theorem adds_of_nodes
    (hnodes : d'.nodes = d.nodes) (hnoAlias : d'.lexemes.HasNoAlias) :
    Adds d d' [] := by
  have hnone (id : Nat) (hid : d.nodes.size ≤ id) : d'.below id = [] :=
    below_of_le (hnodes ▸ hid)
  refine ⟨hnoAlias, by rw [hnodes], fun id _ => by rw [hnodes], fun id hid c hc => ?_,
    fun id hid => ?_, fun a b ha _ c hc => ?_, nofun, nofun, List.nodup_nil⟩
  · rw [hnone id hid] at hc
    cases hc
  · rw [hnone id hid]
    exact List.nodup_nil
  · rw [hnone a ha] at hc
    cases hc

theorem Adds.below_eq (hadds : Adds d d' roots) {id : Nat} (hid : id < d.nodes.size) :
    d'.below id = d.below id :=
  congrArg (fun n => n.content.below) (hadds.kept id hid)

/-- Trees stand one behind the other. -/
theorem Adds.trans (hfirst : Adds d d' roots) (hnext : Adds d' d'' more) :
    Adds d d'' (roots ++ more) := by
  have hearly {id c : Nat} (hid : d.nodes.size ≤ id) (hlt : id < d'.nodes.size)
      (hc : c ∈ d''.below id) : c ∈ d'.below id ∧ id < c ∧ c < d'.nodes.size := by
    rw [hnext.below_eq hlt] at hc
    exact ⟨hc, hfirst.after id hid c hc⟩
  have hlate {id c : Nat} (hid : d'.nodes.size ≤ id) (hc : c ∈ d''.below id) :
      d'.nodes.size ≤ c := by
    have hafter := hnext.after id hid c hc
    omega
  exact {
    noAlias := hnext.noAlias
    size := hfirst.size.trans hnext.size
    kept id hid := (hnext.kept id (hid.trans_le hfirst.size)).trans (hfirst.kept id hid)
    after id hid c hc := by
      by_cases hlt : id < d'.nodes.size
      · obtain ⟨-, hafter, hin⟩ := hearly hid hlt hc
        exact ⟨hafter, hin.trans_le hnext.size⟩
      · exact hnext.after id (by omega) c hc
    nodup id hid := by
      by_cases hlt : id < d'.nodes.size
      · exact hnext.below_eq hlt ▸ hfirst.nodup id hid
      · exact hnext.nodup id (by omega)
    parent a b ha hb c hca hcb := by
      by_cases hlta : a < d'.nodes.size
      · obtain ⟨hca', -, hin⟩ := hearly ha hlta hca
        by_cases hltb : b < d'.nodes.size
        · exact hfirst.parent a b ha hb c hca' (hearly hb hltb hcb).1
        · have := hlate (by omega) hcb
          omega
      · have hin := hlate (by omega) hca
        by_cases hltb : b < d'.nodes.size
        · have := (hearly hb hltb hcb).2.2
          omega
        · exact hnext.parent a b (by omega) (by omega) c hca hcb
    roots_in r hr := by
      rcases List.mem_append.mp hr with hr | hr
      · have hin := hfirst.roots_in r hr
        exact ⟨hin.1, hin.2.trans_le hnext.size⟩
      · have hin := hnext.roots_in r hr
        exact ⟨hfirst.size.trans hin.1, hin.2⟩
    roots_top r hr id hid hbelow := by
      by_cases hlt : id < d'.nodes.size
      · obtain ⟨hmem, -, hin⟩ := hearly hid hlt hbelow
        rcases List.mem_append.mp hr with hr | hr
        · exact hfirst.roots_top r hr id hid hmem
        · have := (hnext.roots_in r hr).1
          omega
      · rcases List.mem_append.mp hr with hr | hr
        · have := (hfirst.roots_in r hr).2
          have := hlate (by omega) hbelow
          omega
        · exact hnext.roots_top r hr id (by omega) hbelow
    roots_nodup := by
      refine List.nodup_append.mpr ⟨hfirst.roots_nodup, hnext.roots_nodup, fun r hr s hs => ?_⟩
      have := (hfirst.roots_in r hr).2
      have := (hnext.roots_in s hs).1
      omega }

/-- A node without anything below it is a tree of its own. -/
theorem adds_push
    {n : Node} (hn : n.content.below = []) (hnodes : d'.nodes = d.nodes.push n)
    (hnoAlias : d'.lexemes.HasNoAlias) :
    Adds d d' [d.nodes.size] := by
  have hsize : d'.nodes.size = d.nodes.size + 1 := by simp [hnodes]
  have hnone (id : Nat) (hid : d.nodes.size ≤ id) : d'.below id = [] := by
    rw [below, hnodes, nodeAt_push]
    split_ifs with hsame
    · exact hn
    · exact below_of_le hid
  have hempty {id c : Nat} (hid : d.nodes.size ≤ id) (hc : c ∈ d'.below id) : False := by
    rw [hnone id hid] at hc
    cases hc
  refine ⟨hnoAlias, by omega, fun id hid => ?_, fun id hid c hc => (hempty hid hc).elim,
    fun id hid => hnone id hid ▸ List.nodup_nil, fun a b ha _ c hc => (hempty ha hc).elim,
    fun r hr => ?_, fun r _ id hid hc => hempty hid hc, List.nodup_singleton _⟩
  · rw [hnodes, nodeAt_push, if_neg (by omega)]
  · cases List.mem_singleton.mp hr
    omega

/-- Trees become one tree when a node in front of them gets their roots as its content. -/
theorem Adds.fill
    {n : Node} (hnodes : d'.nodes = d.nodes.push n)
    {content : Content} (hadds : Adds d' d'' content.below) {last : Draft}
    (hlast : last = { d'' with
      nodes := d''.nodes.modify d.nodes.size fun n => { n with content } }) :
    Adds d last [d.nodes.size] := by
  subst hlast
  have hsize : d'.nodes.size = d.nodes.size + 1 := by simp [hnodes]
  have hid : d.nodes.size < d''.nodes.size := by
    have := hadds.size
    omega
  have hnode (id : Nat) : nodeAt (d''.nodes.modify d.nodes.size fun n => { n with content }) id =
      if id = d.nodes.size then { nodeAt d''.nodes d.nodes.size with content }
      else nodeAt d''.nodes id := nodeAt_modify hid _ id
  set last : Draft := { d'' with
    nodes := d''.nodes.modify d.nodes.size fun n => { n with content } }
  have hlarge : last.nodes.size = d''.nodes.size := Array.size_modify
  -- The node in front has the roots below it.  The nodes behind it are as they were.
  have hbelow {id : Nat} (hle : d.nodes.size ≤ id) :
      id = d.nodes.size ∧ last.below id = content.below ∨
        d'.nodes.size ≤ id ∧ last.below id = d''.below id := by
    by_cases hsame : id = d.nodes.size
    · exact .inl ⟨hsame, by rw [below, hnode, if_pos hsame]⟩
    · refine .inr ⟨by omega, ?_⟩
      rw [below, hnode, if_neg hsame]
      rfl
  exact {
    noAlias := hadds.noAlias
    size := by omega
    kept id hlt := by
      rw [hnode, if_neg (by omega), hadds.kept id (by omega), hnodes, nodeAt_push,
        if_neg (by omega)]
    after id hle c hc := by
      rcases hbelow hle with ⟨rfl, hroots⟩ | ⟨hlate, hsame⟩
      · have hin := hadds.roots_in c (hroots ▸ hc)
        omega
      · have hafter := hadds.after id hlate c (hsame ▸ hc)
        omega
    nodup id hle := by
      rcases hbelow hle with ⟨-, hroots⟩ | ⟨hlate, hsame⟩
      · exact hroots ▸ hadds.roots_nodup
      · exact hsame ▸ hadds.nodup id hlate
    parent a b ha hb c hca hcb := by
      rcases hbelow ha with ⟨hfront, hroots⟩ | ⟨hlate, hsame⟩
      · rcases hbelow hb with ⟨hfront', -⟩ | ⟨hlate', hsame'⟩
        · exact hfront.trans hfront'.symm
        · exact absurd (hsame' ▸ hcb) (hadds.roots_top c (hroots ▸ hca) b hlate')
      · rcases hbelow hb with ⟨-, hroots'⟩ | ⟨hlate', hsame'⟩
        · exact absurd (hsame ▸ hca) (hadds.roots_top c (hroots' ▸ hcb) a hlate)
        · exact hadds.parent a b hlate hlate' c (hsame ▸ hca) (hsame' ▸ hcb)
    roots_in r hr := by
      cases List.mem_singleton.mp hr
      omega
    roots_top r hr id hle hc := by
      cases List.mem_singleton.mp hr
      rcases hbelow hle with ⟨-, hroots⟩ | ⟨hlate, hsame⟩
      · have hin := hadds.roots_in _ (hroots ▸ hc)
        omega
      · have hafter := hadds.after id hlate _ (hsame ▸ hc)
        omega
    roots_nodup := List.nodup_singleton _ }

/-! ## Places of trees -/

/-- The trees with these roots stand in their order between two places, and so do the trees
below each node, behind the start of the node.  No node of them is in front of the first. -/
inductive Spans (nodes : Array Node) (first : Nat) : Position → List Nat → Position → Prop
  | nil {p q : Position} (hle : p ≤ q) : Spans nodes first p [] q
  | cons {p q r : Position} {id : Nat} {ids : List Nat} (hfirst : first ≤ id)
      (hid : id < nodes.size) (hstart : p ≤ (nodeAt nodes id).start)
      (hbelow : Spans nodes first (nodeAt nodes id).start (nodeAt nodes id).content.below r)
      (hrest : Spans nodes first r ids q) : Spans nodes first p (id :: ids) q

section Spans

variable {nodes nodes' : Array Node} {first : Nat} {p q r : Position} {ids : List Nat}

theorem Spans.le (hspans : Spans nodes first p ids q) : p ≤ q := by
  induction hspans with
  | nil hle => exact hle
  | cons _ _ hstart _ _ ihbelow ihrest => exact hstart.trans (ihbelow.trans ihrest)

theorem Spans.lower (hspans : Spans nodes first r ids q) (hle : p ≤ r) :
    Spans nodes first p ids q := by
  cases hspans with
  | nil hnone => exact .nil (hle.trans hnone)
  | cons hfirst hid hstart hbelow hrest =>
      exact .cons hfirst hid (hle.trans hstart) hbelow hrest

theorem Spans.append
    (hspans : Spans nodes first p ids r) {more : List Nat} (hmore : Spans nodes first r more q) :
    Spans nodes first p (ids ++ more) q := by
  induction hspans with
  | nil hle => exact hmore.lower hle
  | cons hfirst hid hstart hbelow _ _ ihrest =>
      exact .cons hfirst hid hstart hbelow (ihrest hmore)

theorem Spans.kept
    (hspans : Spans nodes first p ids q) {first' : Nat} (hfirst : first' ≤ first)
    (hsize : nodes.size ≤ nodes'.size)
    (hkept : ∀ id, first ≤ id → id < nodes.size → nodeAt nodes' id = nodeAt nodes id) :
    Spans nodes' first' p ids q := by
  induction hspans with
  | nil hle => exact .nil hle
  | cons hin hid hstart _ _ ihbelow ihrest =>
      have hsame := hkept _ hin hid
      exact .cons (hfirst.trans hin) (hid.trans_le hsize) (hsame ▸ hstart) (hsame ▸ ihbelow) ihrest

end Spans

/-- What a reader leaves behind: it has added trees, which stand between the place where it
started and the place from which on the lexemes are left. -/
structure Leaves (p : Position) (d d' : Draft) (q : Position) (roots : List Nat) : Prop where
  adds : Adds d d' roots
  left : d'.lexemes.IsFrom q
  spans : Spans d'.nodes d.nodes.size p roots q

theorem Leaves.trans
    {p q r : Position} (hfirst : Leaves p d d' q roots) (hnext : Leaves q d' d'' r more) :
    Leaves p d d'' r (roots ++ more) where
  adds := hfirst.adds.trans hnext.adds
  left := hnext.left
  spans := by
    have hkept := hfirst.spans.kept le_rfl hnext.adds.size fun id _ hid => hnext.adds.kept id hid
    exact hkept.append (hnext.spans.kept hfirst.adds.size le_rfl fun _ _ _ => rfl)

/-- Trees that stand behind the start of a node become one tree with it. -/
theorem Leaves.fill
    {p q : Position} {n : Node} (hnodes : d'.nodes = d.nodes.push n) (hstart : p ≤ n.start)
    {content : Content} (hleaves : Leaves n.start d' d'' q content.below) {last : Draft}
    (hlast : last = { d'' with
      nodes := d''.nodes.modify d.nodes.size fun n => { n with content } }) :
    Leaves p d last q [d.nodes.size] := by
  refine ⟨hleaves.adds.fill hnodes hlast, hlast ▸ hleaves.left, ?_⟩
  have hsize : d'.nodes.size = d.nodes.size + 1 := by simp [hnodes]
  have hid : d.nodes.size < d''.nodes.size := by
    have := hleaves.adds.size
    omega
  have hnode (id : Nat) : nodeAt last.nodes id =
      if id = d.nodes.size then { nodeAt d''.nodes d.nodes.size with content }
      else nodeAt d''.nodes id := by
    rw [hlast]
    exact nodeAt_modify hid _ id
  have hlarge : last.nodes.size = d''.nodes.size := by
    rw [hlast]
    exact Array.size_modify
  have hself : nodeAt last.nodes d.nodes.size = { n with content } := by
    rw [hnode, if_pos rfl, hleaves.adds.kept _ (by omega), hnodes, nodeAt_push, if_pos rfl]
  have hbelow : Spans last.nodes d.nodes.size n.start content.below q :=
    hleaves.spans.kept (by omega) hlarge.ge fun id hle _ => by rw [hnode, if_neg (by omega)]
  refine .cons le_rfl (hlarge ▸ hid) (hself ▸ hstart) ?_ (.nil le_rfl)
  rw [hself]
  exact hbelow

/-- The lexemes are left from the place on, without aliases. -/
def Front (p : Position) (lexemes : Lexemes) : Prop := lexemes.HasNoAlias ∧ lexemes.IsFrom p

/-- The lexeme is the next of those that are left. -/
def Faces (l : Lexeme) (lexemes : Lexemes) : Prop :=
  Front l.start lexemes ∧ lexemes.items.head? = some l

/-! ## Readers -/

/-- Where such lexemes are left, a reader adds trees with such roots behind the place. -/
def Plants {α : Type} (p : Position) (pre : Lexemes → Prop) (x : Reader α)
    (post : α → List Nat → Position → Prop) : Prop :=
  ∀ d : Draft, pre d.lexemes →
    match x d with
    | .ok (a, d') => ∃ q roots, Leaves p d d' q roots ∧ post a roots q
    | .error _ => True

/-- A reader adds no nodes. -/
abbrev AddsNone {α : Type} (x : Reader α) : Prop :=
  ∀ p, Plants p (Front p) x fun _ roots _ => roots = []

/-- A reader adds one tree and tells its root. -/
abbrev AddsOne (x : Reader Nat) : Prop :=
  ∀ p, Plants p (Front p) x fun id roots _ => roots = [id]

section Steps

variable {α β : Type} {p q r : Position} {l : Lexeme} {pre : Lexemes → Prop}
  {post : α → List Nat → Position → Prop}

theorem plants_pure {a : α} (hle : p ≤ q) (ha : post a [] q) :
    Plants p (Front q) (pure a) post :=
  fun _ hd => ⟨q, [], ⟨adds_of_nodes rfl hd.1, hd.2, .nil hle⟩, ha⟩

theorem plants_throw (f : Failure) : Plants p pre (throw f : Reader α) post :=
  fun _ _ => trivial

theorem plants_complain
    (activity : Option Activity) (complaint : Complaint) (position : Position) :
    Plants p pre (Failure.complain activity complaint position : Reader α) post :=
  plants_throw _

theorem Plants.imp
    {x : Reader α} {post' : α → List Nat → Position → Prop} (hx : Plants p pre x post)
    (hpost : ∀ a roots q, p ≤ q → post a roots q → post' a roots q) :
    Plants p pre x post' := by
  intro d hd
  have h := hx d hd
  cases hxd : x d with
  | error f => trivial
  | ok result =>
      rw [hxd] at h
      obtain ⟨q, roots, hleaves, hroots⟩ := h
      exact ⟨q, roots, hleaves, hpost _ _ _ hleaves.spans.le hroots⟩

/-- What stands behind a place stands behind every place in front of it. -/
theorem Plants.lower {x : Reader α} (hx : Plants q pre x post) (hle : p ≤ q) :
    Plants p pre x post := by
  intro d hd
  have h := hx d hd
  cases hxd : x d with
  | error f => trivial
  | ok result =>
      rw [hxd] at h
      obtain ⟨last, roots, hleaves, hroots⟩ := h
      exact ⟨last, roots, ⟨hleaves.adds, hleaves.left, hleaves.spans.lower hle⟩, hroots⟩

theorem Plants.faces {x : Reader α} (hx : Plants p (Front l.start) x post) :
    Plants p (Faces l) x post :=
  fun d hd => hx d hd.1

theorem Plants.bind
    {x : Reader β} {next : β → Reader α} {mid : β → List Nat → Position → Prop}
    (hx : Plants p pre x mid)
    (hnext : ∀ b roots q, p ≤ q → mid b roots q →
      Plants q (Front q) (next b) fun a more => post a (roots ++ more)) :
    Plants p pre (x >>= next) post := by
  intro d hd
  have hfirst := hx d hd
  rw [bind_apply]
  cases hxd : x d with
  | error f => trivial
  | ok result =>
      rw [hxd] at hfirst
      obtain ⟨q, roots, hleaves, hmid⟩ := hfirst
      have hlast := hnext result.1 roots q hleaves.spans.le hmid result.2
        ⟨hleaves.adds.noAlias, hleaves.left⟩
      dsimp only
      cases hnextd : next result.1 result.2 with
      | error f => trivial
      | ok last =>
          rw [hnextd] at hlast
          obtain ⟨final, more, hmore, hpost⟩ := hlast
          exact ⟨final, roots ++ more, hleaves.trans hmore, hpost⟩

/-- Behind a reader that adds no nodes, trees still stand behind the place where it started. -/
theorem Plants.bind_none
    {x : Reader β} {next : β → Reader α} {mid : β → Position → Prop}
    (hx : Plants p pre x fun b roots q => roots = [] ∧ mid b q)
    (hnext : ∀ b q, p ≤ q → mid b q → Plants p (Front q) (next b) post) :
    Plants p pre (x >>= next) post := by
  intro d hd
  have hfirst := hx d hd
  rw [bind_apply]
  cases hxd : x d with
  | error f => trivial
  | ok result =>
      rw [hxd] at hfirst
      obtain ⟨q, roots, hleaves, rfl, hmid⟩ := hfirst
      have hlast := hnext result.1 q hleaves.spans.le hmid result.2
        ⟨hleaves.adds.noAlias, hleaves.left⟩
      dsimp only
      cases hnextd : next result.1 result.2 with
      | error f => trivial
      | ok last =>
          rw [hnextd] at hlast
          obtain ⟨final, more, hmore, hpost⟩ := hlast
          refine ⟨final, more, ⟨hleaves.adds.trans hmore.adds, hmore.left, ?_⟩, hpost⟩
          exact hmore.spans.kept hleaves.adds.size le_rfl fun _ _ _ => rfl

theorem AddsNone.bind
    {x : Reader β} {next : β → Reader α} (hx : AddsNone x)
    (hnext : ∀ b q, p ≤ q → Plants p (Front q) (next b) post) :
    Plants p (Front p) (x >>= next) post :=
  Plants.bind_none ((hx p).imp fun _ _ _ hle hroots => ⟨hroots, hle⟩) fun b q _ hle => hnext b q hle

theorem AddsOne.bind
    {x : Reader Nat} {next : Nat → Reader α} (hx : AddsOne x)
    (hnext : ∀ id q, Plants q (Front q) (next id) fun a more => post a (id :: more)) :
    Plants p (Front p) (x >>= next) post :=
  Plants.bind (hx p) fun b roots q _ hroots => by
    subst hroots
    exact hnext b q

theorem plants_get
    {next : Draft → Reader α} (hnext : ∀ d, Plants p pre (next d) post) :
    Plants p pre (get >>= next) post :=
  fun d hd => hnext d d hd

theorem plants_ite
    {c : Prop} [Decidable c] {x y : Reader α} (hx : c → Plants p pre x post)
    (hy : ¬ c → Plants p pre y post) :
    Plants p pre (if c then x else y) post := by
  split_ifs with hc
  · exact hx hc
  · exact hy hc

end Steps

/-! ## Lexemes -/

section Lexemes

variable {α : Type} {p q : Position} {l : Lexeme} {post : α → List Nat → Position → Prop}

theorem head_of_front {d : Draft} (hd : Front q d.lexemes) :
    (∃ f, head d = .error f) ∨ ∃ l, head d = .ok (l, d) ∧ q ≤ l.start ∧ l.start ≤ l.stop ∧
      l.kind.isAlias = false ∧ Faces l d.lexemes := by
  obtain ⟨⟨items, failure⟩, handles, nodes, anchors⟩ := d
  obtain ⟨hnoAlias, hleft⟩ := hd
  cases hleft with
  | failed _ f => exact .inl ⟨f, rfl⟩
  | last hstart hstop hkind =>
      exact .inr ⟨_, rfl, hstart, hstop, hnoAlias _ List.mem_cons_self,
        ⟨hnoAlias, .last le_rfl hstop hkind⟩, rfl⟩
  | next hstart hstop hrest =>
      exact .inr ⟨_, rfl, hstart, hstop, hnoAlias _ List.mem_cons_self,
        ⟨hnoAlias, .next le_rfl hstop hrest⟩, rfl⟩

/-- The next lexeme is looked at. -/
theorem plants_head
    {next : Lexeme → Reader α}
    (hnext : ∀ l, q ≤ l.start → l.start ≤ l.stop → l.kind.isAlias = false →
      Plants p (Faces l) (next l) post) :
    Plants p (Front q) (head >>= next) post := by
  intro d hd
  rw [bind_apply]
  rcases head_of_front hd with ⟨f, hhead⟩ | ⟨l, hhead, hle, hstop, halias, hfaces⟩
  · rw [hhead]
    trivial
  · rw [hhead]
    exact hnext l hle hstop halias d hfaces

theorem plants_headKind
    {next : LexemeKind → Reader α}
    (hnext : ∀ l, q ≤ l.start → l.start ≤ l.stop → Plants p (Faces l) (next l.kind) post) :
    Plants p (Front q) (headKind >>= next) post := by
  have hhead : headKind >>= next = head >>= fun l => next l.kind := by
    unfold headKind
    simp only [bind_assoc, pure_bind]
  rw [hhead]
  exact plants_head fun l hle hstop _ => hnext l hle hstop

/-- The lexeme that is next is looked at once more. -/
theorem plants_head_faces
    {next : Lexeme → Reader α} (hnext : Plants p (Faces l) (next l) post) :
    Plants p (Faces l) (head >>= next) post := by
  intro d hd
  have hhead : head d = .ok (l, d) := by
    obtain ⟨⟨items, failure⟩, handles, nodes, anchors⟩ := d
    obtain ⟨rest, rfl⟩ := List.head?_eq_some_iff.mp hd.2
    rfl
  rw [bind_apply, hhead]
  exact hnext d hd

/-- The next lexeme is taken away. -/
theorem plants_skip
    {next : PUnit → Reader α} (hkind : l.kind ≠ .streamEnd) (hle : p ≤ l.stop)
    (hnext : Plants p (Front l.stop) (next ⟨⟩) post) :
    Plants p (Faces l) (skip >>= next) post := by
  have hskip : Plants p (Faces l) skip fun _ roots q => roots = [] ∧ q = l.stop := by
    rintro ⟨⟨items, failure⟩, handles, nodes, anchors⟩ ⟨⟨hnoAlias, hleft⟩, hhead⟩
    obtain ⟨rest, rfl⟩ := List.head?_eq_some_iff.mp hhead
    have hrest : Lexemes.IsFrom l.stop ⟨rest, failure⟩ := by
      cases hleft with
      | last _ _ hend => exact absurd hend hkind
      | next _ _ hrest => exact hrest
    have hother : Lexemes.HasNoAlias ⟨rest, failure⟩ :=
      fun other hother => hnoAlias other (List.mem_cons_of_mem _ hother)
    exact ⟨l.stop, [], ⟨adds_of_nodes rfl hother, hrest, .nil hle⟩, rfl, rfl⟩
  exact hskip.bind_none fun _ q _ hq => hq ▸ hnext

end Lexemes

/-! ## Nodes -/

section Nodes

variable {p q : Position} {l : Lexeme} {n : Node} {pre : Lexemes → Prop}

/-- A node without anything below it is added as the next one. -/
structure IsNext (d d' : Draft) (n : Node) (id : Nat) : Prop where
  id : id = d.nodes.size
  nodes : d'.nodes = d.nodes.push n
  lexemes : d'.lexemes = d.lexemes

/-- A reader adds the node as the next one. -/
def Pushes (x : Reader Nat) (n : Node) : Prop :=
  ∀ d, match x d with
    | .ok (id, d') => IsNext d d' n id
    | .error _ => True

theorem pushes_add (n : Node) : Pushes (add n) n := fun _ => ⟨rfl, rfl, rfl⟩

theorem pushes_addAnchored
    (anchor : Option String) (n : Node) :
    Pushes (addAnchored anchor n) n := by
  intro d
  cases anchor with
  | none => exact pushes_add n d
  | some name =>
      have hrun : addAnchored (some name) n d =
          if d.anchors.any (fun a => a.1 == name) then
            (Failure.complain (some (.duplicateAnchor name)) .secondAnchor n.start : Reader Nat) d
          else .ok (d.nodes.size,
            { d with nodes := d.nodes.push n, anchors := (name, d.nodes.size) :: d.anchors }) := by
        unfold addAnchored
        by_cases hknown : d.anchors.any (fun a => a.1 == name) = true
        · rw [if_pos hknown]
          change (ite _ _ _ : Reader Nat) d = _
          rw [if_pos hknown]
        · rw [if_neg hknown]
          change (ite _ _ _ : Reader Nat) d = _
          rw [if_neg hknown]
          rfl
      rw [hrun]
      split_ifs
      · trivial
      · exact ⟨rfl, rfl, rfl⟩

theorem IsNext.nodeAt_eq
    {d d' : Draft} {id : Nat} (hnext : IsNext d d' n id) : nodeAt d'.nodes d.nodes.size = n := by
  rw [hnext.nodes, nodeAt_push, if_pos rfl]

theorem Pushes.plants
    {x : Reader Nat} (hx : Pushes x n) (hn : n.content.below = []) (hstart : p ≤ n.start)
    (hle : n.start ≤ q) :
    Plants p (Front q) x fun id roots _ => roots = [id] := by
  intro d hd
  have hpush := hx d
  cases hxd : x d with
  | error f => trivial
  | ok result =>
      rw [hxd] at hpush
      have hnode := hpush.nodeAt_eq
      have hsize : d.nodes.size < result.2.nodes.size := by
        rw [hpush.nodes, Array.size_push]
        exact Nat.lt_succ_self _
      refine ⟨q, [result.1], ⟨?_, hpush.lexemes ▸ hd.2, ?_⟩, rfl⟩
      · rw [hpush.id]
        exact adds_push hn hpush.nodes (hpush.lexemes ▸ hd.1)
      · rw [hpush.id]
        refine .cons le_rfl hsize (hnode ▸ hstart) ?_ (.nil le_rfl)
        rw [hnode, hn]
        exact .nil hle

/-- A node that gets its content after that was read is the root of one tree. -/
theorem Pushes.plants_fill
    {x : Reader Nat} (hx : Pushes x n) (hstart : p ≤ n.start) {inside : Reader Content}
    (hinside : Plants n.start pre inside fun content roots _ => roots = content.below) :
    Plants p pre (do
      let id ← x
      fill id (← inside)
      return id) fun id roots _ => roots = [id] := by
  intro d hd
  have hpush := hx d
  rw [bind_apply]
  cases hxd : x d with
  | error f => trivial
  | ok result =>
      rw [hxd] at hpush
      have hread := hinside result.2 (hpush.lexemes ▸ hd)
      dsimp only
      rw [bind_apply]
      cases hinsided : inside result.2 with
      | error f => trivial
      | ok last =>
          rw [hinsided] at hread
          obtain ⟨q, roots, hleaves, rfl⟩ := hread
          refine ⟨q, [result.1], ?_, rfl⟩
          rw [hpush.id]
          exact hleaves.fill hpush.nodes hstart rfl

end Nodes

theorem plants_addEmpty
    {p q start : Position} (hstart : p ≤ start) (hle : start ≤ q) :
    Plants p (Front q) (addEmpty start) fun id roots _ => roots = [id] :=
  (pushes_add _).plants rfl hstart hle

/-! ## What stands in front of a node -/

/-- The first property starts where the next lexeme does, and the rest is left behind it. -/
theorem plants_properties (first : Lexeme) (hstop : first.start ≤ first.stop) :
    Plants first.start (Faces first) properties fun p roots q =>
      roots = [] ∧ ∀ s, p.start = some s → first.start ≤ s ∧ s ≤ q := by
  have hfound {q : Position} (hle : first.start ≤ q) (a : Option String)
      (t : Option (Option String × String)) (tagStart : Position) :
      Plants first.start (Front q) (pure ⟨a, t, some first.start, tagStart⟩ : Reader Properties)
        fun p roots q => roots = [] ∧ ∀ s, p.start = some s → first.start ≤ s ∧ s ≤ q :=
    plants_pure hle ⟨rfl, by rintro s ⟨⟩; exact ⟨le_rfl, hle⟩⟩
  unfold properties
  refine plants_head_faces ?_
  split
  next name hname =>
    refine plants_skip (by simp [hname]) hstop ?_
    refine plants_head fun second hle hstop' _ => ?_
    have hsecond := (hstop.trans hle).trans hstop'
    split
    next hkind => exact plants_skip (by simp [hkind]) hsecond (hfound hsecond _ _ _)
    next => exact Plants.faces (hfound (hstop.trans hle) _ _ _)
  next handle suffix htag =>
    refine plants_skip (by simp [htag]) hstop ?_
    refine plants_head fun second hle hstop' _ => ?_
    have hsecond := (hstop.trans hle).trans hstop'
    split
    next hkind => exact plants_skip (by simp [hkind]) hsecond (hfound hsecond _ _ _)
    next => exact Plants.faces (hfound (hstop.trans hle) _ _ _)
  next => exact Plants.faces (plants_pure le_rfl ⟨rfl, nofun⟩)

theorem addsNone_tagName (p : Properties) : AddsNone (tagName p) := by
  intro q
  unfold tagName
  split
  next => exact plants_pure le_rfl rfl
  next => exact plants_pure le_rfl rfl
  next =>
    refine plants_get fun d => ?_
    split
    · exact plants_pure le_rfl rfl
    · exact plants_complain _ _ _

/-! ## Collections -/

theorem plants_separator
    {p : Position} (activity : Activity) (complaint : String → Complaint) (first : Bool) :
    Plants p (Front p) (separator activity complaint first) fun _ roots _ => roots = [] := by
  unfold separator
  refine plants_ite (fun _ => plants_head fun l hle hstop _ => ?_) fun _ => plants_pure le_rfl rfl
  refine plants_ite (fun hkind => ?_) fun _ => plants_complain _ _ _
  have hskip : Plants p (Faces l) (skip >>= pure) fun _ roots _ => roots = [] :=
    plants_skip (by simp [hkind]) (hle.trans hstop) (plants_pure (hle.trans hstop) rfl)
  rwa [bind_pure] at hskip

/-- A reader of items or of entries adds one tree for each of them, in order. -/
abbrev AddsEach (x : Reader (List Nat)) : Prop :=
  ∀ p, Plants p (Front p) x fun items roots _ => roots = items

abbrev AddsPairs (x : Reader (List (Nat × Nat))) : Prop :=
  ∀ p, Plants p (Front p) x fun entries roots _ => roots = entries.flatMap fun e => [e.1, e.2]

/-- At the mark of a key, a reader adds one tree and tells its root. -/
abbrev AddsEntry (x : Reader Nat) : Prop :=
  ∀ l : Lexeme, l.kind = .key → l.start ≤ l.stop →
    Plants l.start (Faces l) x fun id roots _ => roots = [id]

section Loops

variable {p q : Position} {l : Lexeme}

theorem AddsEach.cons
    {x : Reader (List Nat)} (hx : AddsEach x) {item : Nat} :
    Plants p (Front p) (do return item :: (← x)) fun items more _ => item :: more = items :=
  Plants.bind (hx p) fun items roots q _ hroots => plants_pure le_rfl (by simp [hroots])

theorem AddsPairs.cons
    {x : Reader (List (Nat × Nat))} (hx : AddsPairs x) {key value : Nat} :
    Plants p (Front p) (do return (key, value) :: (← x)) fun entries more _ =>
      key :: value :: more = entries.flatMap fun e => [e.1, e.2] :=
  Plants.bind (hx p) fun entries roots q _ hroots => plants_pure le_rfl (by simp [hroots])

/-- The mark at the end of a collection is taken away. -/
theorem plants_skip_end
    {α : Type} {a : α} {post : α → List Nat → Position → Prop} (hkind : l.kind ≠ .streamEnd)
    (hle : p ≤ l.stop) (ha : post a [] l.stop) :
    Plants p (Faces l) (do skip; return a) post :=
  plants_skip hkind hle (plants_pure hle ha)

end Loops

section Collections

variable {node : Reader Nat} (hnode : AddsOne node) {p : Position} {l : Lexeme}

include hnode

theorem plants_orEmpty (stops : Stops) (start : Position) :
    Plants start (Front start) (orEmpty stops start node) fun id roots _ => roots = [id] :=
  plants_headKind fun _ hle _ => plants_ite
    (fun _ => Plants.faces (plants_addEmpty le_rfl hle)) fun _ => ((hnode _).faces).lower hle

theorem addsOne_entryValue (stops : Stops) : AddsOne (entryValue stops node) := by
  intro p
  unfold entryValue
  refine plants_head fun l hle hstop _ => plants_ite (fun hkind => ?_) fun _ => ?_
  · exact plants_skip (by simp [hkind]) (hle.trans hstop)
      ((plants_orEmpty hnode _ _).lower (hle.trans hstop))
  · exact Plants.faces (plants_addEmpty hle le_rfl)

/-- A mark is taken away, and a node is read behind it that may be missing. -/
theorem plants_marked
    {α : Type} {stops : Stops} {next : Nat → Reader α} {post : α → List Nat → Position → Prop}
    (hkind : l.kind ≠ .streamEnd) (hle : p ≤ l.stop)
    (hnext : ∀ id q, Plants q (Front q) (next id) fun a more => post a (id :: more)) :
    Plants p (Faces l) (do
      skip
      let id ← orEmpty stops l.stop node
      next id) post := by
  refine plants_skip hkind hle (Plants.lower ?_ hle)
  refine Plants.bind (plants_orEmpty hnode _ _) fun id roots q _ hroots => ?_
  subst hroots
  exact hnext id q

theorem addsEach_indentlessItems (fuel : Nat) : AddsEach (indentlessItems node fuel) := by
  induction fuel with
  | zero => exact fun p => plants_pure le_rfl rfl
  | succ fuel ih =>
      intro p
      unfold indentlessItems
      refine plants_head fun l hle hstop _ => plants_ite (fun hkind => ?_) fun _ => ?_
      · exact plants_marked hnode (by simp [hkind]) (hle.trans hstop) fun _ _ => ih.cons
      · exact Plants.faces (plants_pure hle rfl)

theorem addsEach_blockItems (fuel : Nat) : AddsEach (blockItems node fuel) := by
  induction fuel with
  | zero => exact fun p => plants_pure le_rfl rfl
  | succ fuel ih =>
      intro p
      unfold blockItems
      refine plants_head fun l hle hstop _ => ?_
      refine plants_ite (fun hkind => ?_) fun _ => plants_ite (fun hkind => ?_) fun _ => ?_
      · exact plants_marked hnode (by simp [hkind]) (hle.trans hstop) fun _ _ => ih.cons
      · exact plants_skip_end (by simp [hkind]) (hle.trans hstop) rfl
      · exact plants_complain _ _ _

theorem addsPairs_blockEntries (fuel : Nat) : AddsPairs (blockEntries node fuel) := by
  induction fuel with
  | zero => exact fun p => plants_pure le_rfl rfl
  | succ fuel ih =>
      intro p
      unfold blockEntries
      refine plants_head fun l hle hstop _ => ?_
      refine plants_ite (fun hkind => ?_) fun _ => plants_ite (fun hkind => ?_) fun _ => ?_
      · refine plants_marked hnode (by simp [hkind]) (hle.trans hstop) fun key q => ?_
        exact (addsOne_entryValue hnode _).bind fun value q => ih.cons
      · exact plants_skip_end (by simp [hkind]) (hle.trans hstop) rfl
      · exact plants_complain _ _ _

theorem addsEach_flowItems
    {pair : Reader Nat} (hpair : AddsEntry pair) (fuel : Nat) (first : Bool) :
    AddsEach (flowItems node pair fuel first) := by
  induction fuel generalizing first with
  | zero => exact fun p => plants_pure le_rfl rfl
  | succ fuel ih =>
      intro p
      unfold flowItems
      refine plants_headKind fun l hle hstop => plants_ite (fun hkind => ?_) fun _ => ?_
      · exact plants_skip_end (by simp [hkind]) (hle.trans hstop) rfl
      · refine (Plants.faces ?_).lower hle
        refine AddsNone.bind (fun p => plants_separator _ _ first) fun _ q hq => ?_
        refine (plants_headKind fun l hle hstop => ?_)
        refine plants_ite (fun hkind => ?_) fun _ => ?_
        · exact plants_skip_end (by simp [hkind]) (hq.trans (hle.trans hstop)) rfl
        · refine Plants.lower ?_ (hq.trans hle)
          refine plants_ite (fun hkey => ?_) fun _ => ?_
          · refine Plants.bind (hpair l hkey hstop) fun item roots q _ hroots => ?_
            subst hroots
            exact (ih false).cons
          · exact Plants.faces (hnode.bind fun _ _ => (ih false).cons)

theorem addsPairs_flowEntries
    (fuel : Nat) (first : Bool) :
    AddsPairs (flowEntries node fuel first) := by
  induction fuel generalizing first with
  | zero => exact fun p => plants_pure le_rfl rfl
  | succ fuel ih =>
      intro p
      unfold flowEntries
      refine plants_headKind fun l hle hstop => plants_ite (fun hkind => ?_) fun _ => ?_
      · exact plants_skip_end (by simp [hkind]) (hle.trans hstop) rfl
      · refine (Plants.faces ?_).lower hle
        refine AddsNone.bind (fun p => plants_separator _ _ first) fun _ q hq => ?_
        refine (plants_head fun l hle hstop _ => ?_)
        refine plants_ite (fun hkind => ?_) fun _ => plants_ite (fun hkind => ?_) fun _ => ?_
        · exact plants_skip_end (by simp [hkind]) (hq.trans (hle.trans hstop)) rfl
        · have hend := hq.trans (hle.trans hstop)
          refine plants_marked hnode (by simp [hkind]) hend fun key q => ?_
          exact (addsOne_entryValue hnode _).bind fun value q => (ih false).cons
        · refine (Plants.faces ?_).lower (hq.trans hle)
          refine hnode.bind fun key q => plants_head fun l hle _ _ => Plants.faces ?_
          refine Plants.bind (plants_addEmpty hle le_rfl) fun value roots q _ hroots => ?_
          subst hroots
          exact (ih false).cons

theorem addsEntry_entryMapping : AddsEntry (entryMapping node) := by
  intro l hkind hstop
  unfold entryMapping
  refine plants_head_faces (plants_skip (by simp [hkind]) hstop ?_)
  have hentry : Plants l.stop (Front l.stop) (do
      let key ← orEmpty (.value :: flowStops) l.stop node
      let value ← entryValue flowStops node
      return Content.mapping [(key, value)]) fun content roots _ => roots = content.below := by
    refine Plants.bind (plants_orEmpty hnode _ _) fun key roots q _ hroots => ?_
    subst hroots
    exact (addsOne_entryValue hnode _).bind fun value q => plants_pure le_rfl rfl
  have hmapping := (pushes_add ⟨.map, l.start, .mapping []⟩).plants_fill le_rfl
    (hentry.lower hstop)
  simpa only [bind_assoc, pure_bind] using hmapping

end Collections

theorem kind_ne_streamEnd
    {context : Context} {l : Lexeme} {c : Collection}
    (hc : Collection.ofKind? context l.kind = some c) :
    l.kind ≠ .streamEnd := by
  intro hend
  rw [hend] at hc
  cases context <;> cases hc

theorem plants_content
    {node : Context → Reader Nat} (hnode : ∀ context, AddsOne (node context)) {pair : Reader Nat}
    (hpair : AddsEntry pair) {l : Lexeme} (hkind : l.kind ≠ .streamEnd) (hstop : l.start ≤ l.stop)
    (c : Collection) :
    Plants l.start (Faces l) (content node pair c)
      fun content roots _ => roots = content.below := by
  have hsequence {p : Position} {x : Reader (List Nat)} (hx : AddsEach x) :
      Plants p (Front p) (do return Content.sequence (← x))
        fun content roots _ => roots = content.below :=
    Plants.bind (hx p) fun items roots q _ hroots =>
      plants_pure le_rfl (by simp [hroots, Content.below])
  have hmapping {p : Position} {x : Reader (List (Nat × Nat))} (hx : AddsPairs x) :
      Plants p (Front p) (do return Content.mapping (← x))
        fun content roots _ => roots = content.below :=
    Plants.bind (hx p) fun entries roots q _ hroots =>
      plants_pure le_rfl (by simp [hroots, Content.below])
  have hmarked {x : Reader Content} (hx : Plants l.stop (Front l.stop) x
      fun content roots _ => roots = content.below) :
      Plants l.start (Faces l) (skip >>= fun _ => x) fun content roots _ => roots = content.below :=
    plants_skip hkind hstop (hx.lower hstop)
  unfold content
  refine plants_get fun d => ?_
  dsimp only
  split
  · exact Plants.faces (hsequence (addsEach_indentlessItems (hnode _) _))
  · exact hmarked (hsequence (addsEach_blockItems (hnode _) _))
  · exact hmarked (hsequence (addsEach_flowItems (hnode _) hpair _ _))
  · exact hmarked (hmapping (addsPairs_blockEntries (hnode _) _))
  · exact hmarked (hmapping (addsPairs_flowEntries (hnode _) _ _))

theorem addsOne_nodeWith
    (dialect : Dialect) (context : Context) {inside : Collection → Reader Content}
    (hinside : ∀ (l : Lexeme) c, l.kind ≠ .streamEnd → l.start ≤ l.stop →
      Plants l.start (Faces l) (inside c) fun content roots _ => roots = content.below) :
    AddsOne (nodeWith dialect context inside) := by
  intro p
  unfold nodeWith
  refine plants_head fun first hfirst hstop hnoAlias => Plants.lower ?_ hfirst
  split
  next name hname =>
    rw [hname] at hnoAlias
    cases hnoAlias
  next =>
    refine Plants.bind_none (plants_properties first hstop) fun p q hq hp => ?_
    have htag : Plants first.start (Front q) (tagName p) fun _ roots r => roots = [] ∧ q ≤ r :=
      ((addsNone_tagName p q).imp fun _ _ _ hr hroots => ⟨hroots, hr⟩).lower hq
    refine htag.bind_none fun name r _ hr => ?_
    refine plants_head fun l hl hstop _ => ?_
    dsimp only
    have hstart : first.start ≤ p.start.getD l.start ∧ p.start.getD l.start ≤ l.start := by
      cases hs : p.start with
      | none => exact ⟨hq.trans (hr.trans hl), le_rfl⟩
      | some s => exact ⟨(hp s hs).1, (hp s hs).2.trans (hr.trans hl)⟩
    split
    next text plain hl =>
      refine plants_skip (by simp [hl]) (hstart.1.trans (hstart.2.trans hstop)) ?_
      exact (pushes_addAnchored _ _).plants rfl hstart.1 (hstart.2.trans hstop)
    next =>
      split
      next c hc =>
        exact (pushes_addAnchored _ _).plants_fill hstart.1
          ((hinside l c (kind_ne_streamEnd hc) hstop).lower hstart.2)
      next =>
        refine plants_ite (fun _ => ?_) fun _ => plants_complain _ _ _
        exact Plants.faces ((pushes_addAnchored _ _).plants rfl hstart.1 hstart.2)

theorem addsOne_node (dialect : Dialect) :
    ∀ (room : Nat) (context : Context), AddsOne (node dialect room context)
  | 0, context => addsOne_nodeWith dialect context fun _ _ _ _ => plants_throw _
  | 1, context =>
    addsOne_nodeWith dialect context fun _ c hkind hstop =>
      plants_content (addsOne_node dialect 0) (fun _ _ _ => plants_throw _) hkind hstop c
  | room + 2, context =>
    addsOne_nodeWith dialect context fun _ c hkind hstop =>
      plants_content (addsOne_node dialect (room + 1))
        (addsEntry_entryMapping (addsOne_node dialect room .flow)) hkind hstop c

/-! ## Documents -/

theorem addsNone_directives
    (fuel : Nat) (hasVersion : Bool) (handles : List (String × String)) :
    AddsNone (directives fuel hasVersion handles) := by
  induction fuel generalizing hasVersion handles with
  | zero => exact fun p => plants_pure le_rfl rfl
  | succ fuel ih =>
      intro p
      unfold directives
      refine plants_head fun l hle hstop _ => ?_
      have hrest (hasVersion : Bool) (handles : List (String × String)) :=
        (ih hasVersion handles l.stop).lower (hle.trans hstop)
      split
      next d hd =>
        refine plants_skip (by simp [hd]) (hle.trans hstop) ?_
        split
        next =>
          exact plants_ite (fun _ => plants_complain _ _ _)
            fun _ => plants_ite (fun _ => plants_complain _ _ _) fun _ => hrest _ _
        next => exact plants_ite (fun _ => plants_complain _ _ _) fun _ => hrest _ _
        next => exact hrest _ _
      next => exact Plants.faces (plants_pure hle rfl)

theorem addsNone_explicitStart : AddsNone explicitStart := by
  intro p
  unfold explicitStart
  refine plants_get fun d => (addsNone_directives _ _ _).bind fun handles q hq => ?_
  refine plants_head fun l hle hstop _ => ?_
  refine plants_ite (fun hkind => ?_) fun _ => plants_complain _ _ _
  have hend := hq.trans (hle.trans hstop)
  refine plants_skip (by simp [hkind]) hend fun d hd => ?_
  exact ⟨l.stop, [], ⟨adds_of_nodes rfl hd.1, hd.2, .nil hend⟩, rfl⟩

theorem addsNone_skipEnds (fuel : Nat) : AddsNone (skipEnds fuel) := by
  induction fuel with
  | zero => exact fun p => plants_pure le_rfl rfl
  | succ fuel ih =>
      intro p
      unfold skipEnds
      refine plants_headKind fun l hle hstop => plants_ite (fun hkind => ?_) fun _ => ?_
      · exact plants_skip (by simp [hkind]) (hle.trans hstop)
          ((ih l.stop).lower (hle.trans hstop))
      · exact Plants.faces (plants_pure hle rfl)

/-- The root of a document is the root of the only tree. -/
abbrev AddsRoot (x : Reader (Option Nat)) : Prop :=
  ∀ p, Plants p (Front p) x fun root roots _ => roots = root.toList

theorem addsRoot_document (dialect : Dialect) : AddsRoot (document dialect) := by
  have hroot : AddsRoot (do return some (← node dialect maxDepth .block)) :=
    fun p => (addsOne_node dialect maxDepth .block).bind fun _ _ => plants_pure le_rfl rfl
  intro p
  unfold document
  refine plants_headKind fun l hle _ => plants_ite (fun _ => Plants.faces (plants_pure hle rfl))
    fun _ => plants_ite (fun _ => ?_) fun _ => (Plants.faces (hroot _)).lower hle
  refine (Plants.faces ?_).lower hle
  refine addsNone_explicitStart.bind fun _ q hq => plants_head fun l hle hstop _ => ?_
  refine plants_ite (fun _ => ?_) fun _ => (Plants.faces (hroot _)).lower (hq.trans hle)
  refine Plants.bind (Plants.faces (plants_addEmpty (hq.trans hle) le_rfl))
    fun id roots q _ hroots => ?_
  subst hroots
  exact plants_pure le_rfl rfl

theorem addsRoot_stream (dialect : Dialect) : AddsRoot (stream dialect) := by
  intro p
  unfold stream
  refine Plants.bind (addsRoot_document dialect p) fun root roots q _ hroots => ?_
  subst hroots
  have hpure {p r : Position} (hle : p ≤ r) : Plants p (Front r) (pure root : Reader (Option Nat))
      fun root' more _ => root.toList ++ more = root'.toList :=
    plants_pure hle (List.append_nil _)
  dsimp only
  refine plants_ite (fun _ => plants_get fun d => ?_) fun _ => hpure le_rfl
  refine (addsNone_skipEnds _).bind fun _ r hr => plants_head fun l hle _ _ => ?_
  refine plants_ite (fun _ => Plants.faces ?_) fun _ => Plants.faces (hpure (hr.trans hle))
  refine Plants.lower ?_ (hr.trans hle)
  refine addsNone_explicitStart.bind fun _ r hr => Plants.lower ?_ hr
  exact AddsNone.bind (fun _ => plants_complain _ _ _) fun _ _ hle => hpure hle

end Draft

/-- Without aliases, the nodes of a document are planted in the order of its lexemes. -/
theorem Reading.exists_leaves_of_graph
    {dialect : Dialect} {input : Input} {g : Graph}
    (hnoAlias : ∀ source, Source.ofInput input = .ok source →
      (Lexemes.ofSource source).HasNoAlias)
    (hgraph : Reading.graph dialect input = .ok (some g)) :
    ∃ (d d' : Draft) (q : Position), d.nodes = #[] ∧ d'.nodes = g.nodes ∧
      d.Leaves ⟨0, 0⟩ d' q [g.root] := by
  unfold Reading.graph at hgraph
  cases hsource : Source.ofInput input with
  | error e =>
      rw [hsource] at hgraph
      cases hgraph
  | ok source =>
      rw [hsource] at hgraph
      have hstream := Draft.addsRoot_stream dialect ⟨0, 0⟩
        ⟨Lexemes.ofSource source, Draft.usualHandles, #[], []⟩
        ⟨hnoAlias source hsource, Lexemes.isFrom_ofSource source⟩
      dsimp only at hgraph
      rw [Graph.ofLexemes_eq] at hgraph
      split at hgraph
      next root d hd =>
        rw [hd] at hstream
        obtain ⟨q, roots, hleaves, rfl⟩ := hstream
        cases root with
        | none => cases hgraph
        | some root =>
            cases hgraph
            exact ⟨_, d, q, rfl, rfl, hleaves⟩
      next => cases hgraph

/-- Without aliases, the nodes of a document make up a tree. -/
theorem Reading.isTree_of_graph
    {dialect : Dialect} {input : Input} {g : Graph}
    (hnoAlias : ∀ source, Source.ofInput input = .ok source →
      (Lexemes.ofSource source).HasNoAlias)
    (hgraph : Reading.graph dialect input = .ok (some g)) :
    g.IsTree := by
  obtain ⟨d, d', q, hempty, hnodes, hleaves⟩ := Reading.exists_leaves_of_graph hnoAlias hgraph
  obtain ⟨nodes, root⟩ := g
  obtain rfl : d'.nodes = nodes := hnodes
  have hfirst (id : Nat) : d.nodes.size ≤ id := by simp [hempty]
  have hadds := hleaves.adds
  exact {
    root := fun id => hadds.roots_top root (by simp) id (hfirst id)
    nodup := fun id => hadds.nodup id (hfirst id)
    parent := fun a b => hadds.parent a b (hfirst a) (hfirst b) }

end Wireframe.Yaml
