import Mathlib.Tactic
import Wireframe.Proofs.Planting

/-!
# Nodes of plain scalars

Every plain scalar among the lexemes that a reader takes away has a node of its text.  Its tag
is that of its text unless another one stands in front of it.  Nodes that are there already stay
as they are, so a node of a plain scalar stays until the whole document has been read.
-/

namespace Wireframe.Yaml

@[simp]
def LexemeKind.isAnchor : LexemeKind → Bool
  | anchor _ => true
  | _ => false

@[simp]
def LexemeKind.isTag : LexemeKind → Bool
  | tag _ _ => true
  | _ => false

@[simp]
def LexemeKind.isPlain : LexemeKind → Bool
  | scalar _ plain => plain
  | _ => false

namespace Lexeme

/-- The lexemes end with an anchor, which is that of the node behind them. -/
def endsInAnchor (before : List Lexeme) : Bool := before.getLast?.any fun l => l.kind.isAnchor

/-- The lexemes end with a tag, behind which there may be an anchor, of the node behind them. -/
def endsInTag (before : List Lexeme) : Bool :=
  (before.getLast?.any fun l => l.kind.isTag) ||
    (endsInAnchor before && before.dropLast.getLast?.any fun l => l.kind.isTag)

/-- A node is what a plain scalar without a tag is read as behind the lexemes. -/
structure IsPlainNode
    (dialect : Dialect) (before : List Lexeme) (text : String) (start : Position) (n : Node) :
    Prop where
  tag : n.tag = .ofPlain dialect text
  content : n.content = .scalar text
  start : endsInAnchor before = false → n.start = start

variable {before more : List Lexeme}

theorem endsInAnchor_of_append (hmore : endsInAnchor (more ++ before) = false) :
    endsInAnchor before = false := by
  rcases before.eq_nil_or_concat with rfl | ⟨first, l, rfl⟩
  · rfl
  · simpa [endsInAnchor] using hmore

theorem endsInTag_of_append (hmore : endsInTag (more ++ before) = false) :
    endsInTag before = false := by
  rcases before.eq_nil_or_concat with rfl | ⟨first, l, rfl⟩
  · rfl
  · rcases first.eq_nil_or_concat with rfl | ⟨first, l', rfl⟩
    · simp_all [endsInTag]
    · simpa [endsInTag, endsInAnchor, ← List.append_assoc] using hmore

end Lexeme

namespace Draft

variable {dialect : Dialect} {d d' d'' : Draft}

/-- A reader took lexemes away, and each plain scalar among them without a tag has a node that
was added. -/
structure Passes (dialect : Dialect) (d d' : Draft) : Prop where
  size : d.nodes.size ≤ d'.nodes.size
  kept : ∀ id < d.nodes.size, nodeAt d'.nodes id = nodeAt d.nodes id
  taken : ∃ taken, d.lexemes.items = taken ++ d'.lexemes.items ∧
    ∀ before text start stop after, taken = before ++ ⟨.scalar text true, start, stop⟩ :: after →
      Lexeme.endsInTag before = false → ∃ id, d.nodes.size ≤ id ∧ id < d'.nodes.size ∧
        Lexeme.IsPlainNode dialect before text start (nodeAt d'.nodes id)

/-- Where no plain scalar is taken away, nothing is to be shown of the nodes that are added. -/
theorem passes_of_not_plain
    (taken : List Lexeme) (hsize : d.nodes.size ≤ d'.nodes.size)
    (hkept : ∀ id < d.nodes.size, nodeAt d'.nodes id = nodeAt d.nodes id)
    (hitems : d.lexemes.items = taken ++ d'.lexemes.items)
    (hplain : ∀ l ∈ taken, l.kind.isPlain = false) :
    Passes dialect d d' where
  size := hsize
  kept := hkept
  taken := by
    refine ⟨taken, hitems, fun before text start stop after htaken _ => ?_⟩
    have hfalse := hplain ⟨.scalar text true, start, stop⟩ (by simp [htaken])
    cases hfalse

theorem passes_of_eq
    (hnodes : d'.nodes = d.nodes) (hlexemes : d'.lexemes = d.lexemes) : Passes dialect d d' :=
  passes_of_not_plain [] (by rw [hnodes]) (fun _ _ => by rw [hnodes])
    (by rw [hlexemes]; rfl) (List.forall_mem_nil _)

theorem Passes.trans (hfirst : Passes dialect d d') (hnext : Passes dialect d' d'') :
    Passes dialect d d'' where
  size := hfirst.size.trans hnext.size
  kept id hid := (hnext.kept id (hid.trans_le hfirst.size)).trans (hfirst.kept id hid)
  taken := by
    obtain ⟨taken, hitems, hfound⟩ := hfirst.taken
    obtain ⟨more, hmore, hfoundMore⟩ := hnext.taken
    refine ⟨taken ++ more, by rw [hitems, hmore, List.append_assoc], ?_⟩
    intro before text start stop after hsplit htags
    have hlater {gap : List Lexeme} (hbefore : before = taken ++ gap)
        (hgap : more = gap ++ ⟨.scalar text true, start, stop⟩ :: after) :
        ∃ id, d.nodes.size ≤ id ∧ id < d''.nodes.size ∧
          Lexeme.IsPlainNode dialect before text start (nodeAt d''.nodes id) := by
      subst hbefore
      obtain ⟨id, hge, hlt, hnode⟩ :=
        hfoundMore gap text start stop after hgap (Lexeme.endsInTag_of_append htags)
      exact ⟨id, hfirst.size.trans hge, hlt, hnode.tag, hnode.content,
        fun hanchors => hnode.start (Lexeme.endsInAnchor_of_append hanchors)⟩
    rcases List.append_eq_append_iff.mp hsplit with ⟨gap, hbefore, hgap⟩ | ⟨gap, htaken, hgap⟩
    · exact hlater hbefore hgap
    · rcases List.cons_eq_append_iff.mp hgap with ⟨rfl, hrest⟩ | ⟨rest, rfl, -⟩
      · exact hlater (by rw [htaken, List.append_nil, List.append_nil]) hrest
      · obtain ⟨id, hge, hlt, hnode⟩ := hfound before text start stop rest htaken htags
        exact ⟨id, hge, hlt.trans_le hnext.size, (hnext.kept id hlt).symm ▸ hnode⟩

/-! ## Readers -/

/-- A reader leads from a draft to such a result and another draft. -/
def Runs {α : Type} (x : Reader α) (d : Draft) (a : α) (d' : Draft) : Prop := x d = .ok (a, d')

/-- What is taken away since a draft is passed when a reader goes on from another one. -/
def PassesOn {α : Type} (dialect : Dialect) (d : Draft) (x : Reader α) (d' : Draft) : Prop :=
  ∀ a d'', Runs x d' a d'' → Passes dialect d d''

/-- Where such lexemes are left, a reader passes no plain scalar without adding its node. -/
def Notes {α : Type} (dialect : Dialect) (pre : Lexemes → Prop) (x : Reader α) : Prop :=
  ∀ d : Draft, pre d.lexemes → PassesOn dialect d x d

/-- Whatever lexemes are left. -/
abbrev NotesAll {α : Type} (dialect : Dialect) (x : Reader α) : Prop :=
  Notes dialect (fun _ => True) x

/-- The lexeme is the next of those that are left, the end of the stream if none are. -/
inductive Awaits : Lexeme → Lexemes → Prop
  | next (l : Lexeme) (rest : List Lexeme) (failure : Option Failure) :
      Awaits l ⟨l :: rest, failure⟩
  | none : Awaits ⟨.streamEnd, ⟨0, 0⟩, ⟨0, 0⟩⟩ ⟨[], Option.none⟩

theorem Awaits.eq_of_cons
    {l first : Lexeme} {lexemes : Lexemes} {rest : List Lexeme} (hl : Awaits l lexemes)
    (hitems : lexemes.items = first :: rest) :
    first = l := by
  cases hl with
  | next => exact (List.cons.inj hitems).1.symm
  | none => cases hitems

section Steps

variable {α β : Type} {pre : Lexemes → Prop} {l : Lexeme}

theorem runs_pure {a b : α} (hrun : Runs (pure a) d b d') : b = a ∧ d' = d := by
  cases hrun
  exact ⟨rfl, rfl⟩

theorem not_runs_throw {f : Failure} {a : α} : ¬ Runs (throw f) d a d' := nofun

theorem runs_get {next : Draft → Reader α} {a : α} (hrun : Runs (get >>= next) d a d') :
    Runs (next d) d a d' :=
  hrun

theorem exists_of_bind
    {x : Reader β} {next : β → Reader α} {a : α} (hrun : Runs (x >>= next) d a d'') :
    ∃ b d', Runs x d b d' ∧ Runs (next b) d' a d'' := by
  unfold Runs at hrun
  rw [bind_apply] at hrun
  cases hfirst : x d with
  | error f =>
      rw [hfirst] at hrun
      cases hrun
  | ok r =>
      rw [hfirst] at hrun
      exact ⟨r.1, r.2, hfirst, hrun⟩

/-- The first of two readers leads to a draft from which the second one goes on. -/
theorem passesOn_bind
    {x : Reader β} {next : β → Reader α}
    (hnext : ∀ b e, Runs x d' b e → PassesOn dialect d (next b) e) :
    PassesOn dialect d (x >>= next) d' := by
  intro a d'' hrun
  obtain ⟨b, e, hfirst, hrest⟩ := exists_of_bind hrun
  exact hnext b e hfirst a d'' hrest

theorem Passes.on
    {x : Reader α} (hfirst : Passes dialect d d') (hx : Notes dialect pre x)
    (hd : pre d'.lexemes) :
    PassesOn dialect d x d' :=
  fun a d'' hrun => hfirst.trans (hx d' hd a d'' hrun)

theorem notes_pure (a : α) : Notes dialect pre (pure a : Reader α) := by
  intro d _ _ d' hrun
  obtain ⟨-, rfl⟩ := runs_pure hrun
  exact passes_of_eq rfl rfl

theorem notes_throw (f : Failure) : Notes dialect pre (throw f : Reader α) :=
  fun _ _ _ _ hrun => absurd hrun not_runs_throw

theorem notes_complain
    (activity : Option Activity) (complaint : Complaint) (position : Position) :
    Notes dialect pre (Failure.complain activity complaint position : Reader α) :=
  notes_throw _

theorem NotesAll.at {x : Reader α} (hx : NotesAll dialect x) : Notes dialect pre x :=
  fun d _ => hx d trivial

theorem Notes.bind
    {x : Reader β} {next : β → Reader α} (hx : Notes dialect pre x)
    (hnext : ∀ b, NotesAll dialect (next b)) :
    Notes dialect pre (x >>= next) :=
  fun d hd => passesOn_bind fun b e hrun => (hx d hd b e hrun).on (hnext b) trivial

theorem notes_get
    {next : Draft → Reader α} (hnext : ∀ d, Notes dialect pre (next d)) :
    Notes dialect pre (get >>= next) :=
  fun d hd => hnext d d hd

theorem notes_ite
    {c : Prop} [Decidable c] {x y : Reader α} (hx : c → Notes dialect pre x)
    (hy : ¬ c → Notes dialect pre y) :
    Notes dialect pre (if c then x else y) := by
  split_ifs with hc
  · exact hx hc
  · exact hy hc

/-! ### Lexemes -/

theorem Awaits.head (hl : Awaits l d.lexemes) : Runs head d l d := by
  obtain ⟨lexemes, handles, nodes, anchors⟩ := d
  cases hl <;> rfl

/-- Looking at the next lexeme changes nothing. -/
theorem exists_of_head_bind
    {next : Lexeme → Reader α} {a : α} (hrun : Runs (head >>= next) d a d') :
    ∃ l, Awaits l d.lexemes ∧ Runs (next l) d a d' := by
  obtain ⟨l, e, hhead, hnext⟩ := exists_of_bind hrun
  have hl : e = d ∧ Awaits l d.lexemes := by
    obtain ⟨⟨items, failure⟩, handles, nodes, anchors⟩ := d
    cases items with
    | cons l rest =>
        cases hhead
        exact ⟨rfl, .next l rest failure⟩
    | nil =>
        cases failure with
        | some f => cases hhead
        | none =>
            cases hhead
            exact ⟨rfl, .none⟩
  exact ⟨l, hl.2, hl.1 ▸ hnext⟩

/-- Only the next lexeme is taken away. -/
theorem exists_of_skip_bind
    {next : PUnit → Reader α} {a : α} (hl : Awaits l d.lexemes) (hkind : l.kind ≠ .streamEnd)
    (hrun : Runs (skip >>= next) d a d'') :
    ∃ d', d.lexemes.items = l :: d'.lexemes.items ∧ d'.nodes = d.nodes ∧
      Runs (next ⟨⟩) d' a d'' := by
  obtain ⟨u, d', hskip, hnext⟩ := exists_of_bind hrun
  refine ⟨d', ?_, ?_, hnext⟩
  all_goals
    obtain ⟨lexemes, handles, nodes, anchors⟩ := d
    cases hskip
    cases hl with
    | next => rfl
    | none => exact absurd rfl hkind

/-- The next lexeme is looked at. -/
theorem passesOn_head
    {next : Lexeme → Reader α}
    (hnext : ∀ l, Awaits l d'.lexemes → PassesOn dialect d (next l) d') :
    PassesOn dialect d (head >>= next) d' := by
  intro a d'' hrun
  obtain ⟨l, hl, hrest⟩ := exists_of_head_bind hrun
  exact hnext l hl a d'' hrest

theorem notes_head
    {next : Lexeme → Reader α} (hnext : ∀ l, Notes dialect (Awaits l) (next l)) :
    NotesAll dialect (head >>= next) :=
  fun d _ => passesOn_head fun l hl => hnext l d hl

theorem notes_headKind
    {next : LexemeKind → Reader α} (hnext : ∀ l, Notes dialect (Awaits l) (next l.kind)) :
    NotesAll dialect (headKind >>= next) := by
  have hhead : headKind >>= next = head >>= fun l => next l.kind := by
    unfold headKind
    simp only [bind_assoc, pure_bind]
  rw [hhead]
  exact notes_head hnext

/-- The lexeme that is next is looked at once more. -/
theorem notes_head_awaits
    {next : Lexeme → Reader α} (hnext : Notes dialect (Awaits l) (next l)) :
    Notes dialect (Awaits l) (head >>= next) := by
  refine fun d hd => passesOn_bind fun l' e hrun => ?_
  cases hd.head.symm.trans hrun
  exact hnext d hd

/-- A lexeme that is no plain scalar is taken away. -/
theorem notes_skip (hplain : l.kind.isPlain = false) : Notes dialect (Awaits l) skip := by
  rintro ⟨lexemes, handles, nodes, anchors⟩ hd _ _ hrun
  cases hrun
  cases hd with
  | next =>
      exact passes_of_not_plain [l] le_rfl (fun _ _ => rfl) rfl (by simpa using hplain)
  | none => exact passes_of_eq rfl rfl

/-- The mark at the end of a collection is taken away. -/
theorem notes_skip_pure (hplain : l.kind.isPlain = false) (a : α) :
    Notes dialect (Awaits l) (do skip; return a) :=
  (notes_skip hplain).bind fun _ => notes_pure a

end Steps

/-! ### Nodes -/

section Nodes

variable {pre : Lexemes → Prop} {l : Lexeme} {n : Node}

theorem IsNext.kept {id other : Nat} (hnext : IsNext d d' n id) (hother : other < d.nodes.size) :
    nodeAt d'.nodes other = nodeAt d.nodes other := by
  rw [hnext.nodes, nodeAt_push, if_neg hother.ne]

theorem IsNext.size {id : Nat} (hnext : IsNext d d' n id) : d'.nodes.size = d.nodes.size + 1 := by
  rw [hnext.nodes, Array.size_push]

theorem Pushes.isNext
    {x : Reader Nat} (hx : Pushes x n) {id : Nat} (hrun : Runs x d id d') :
    IsNext d d' n id := by
  have hnext := hx d
  rwa [show x d = .ok (id, d') from hrun] at hnext

theorem Pushes.notes {x : Reader Nat} (hx : Pushes x n) : NotesAll dialect x := by
  intro d _ id d' hrun
  have hnext := hx.isNext hrun
  exact passes_of_not_plain [] (by rw [hnext.size]; omega) (fun _ => hnext.kept)
    (by rw [hnext.lexemes]; rfl) (List.forall_mem_nil _)

/-- A node that gets its content after that was read is no plain scalar. -/
theorem Pushes.notes_fill
    {x : Reader Nat} (hx : Pushes x n) {inside : Reader Content}
    (hinside : Notes dialect pre inside) :
    Notes dialect pre (do
      let id ← x
      fill id (← inside)
      return id) := by
  refine fun d hd => passesOn_bind fun id d₁ hrun => passesOn_bind fun content d₂ hcontent => ?_
  have hnext := hx.isNext hrun
  have hpasses := hinside d₁ (hnext.lexemes.symm ▸ hd) content d₂ hcontent
  intro _ d₃ hlast
  cases hlast
  have hid : id = d.nodes.size := hnext.id
  have hsize := hnext.size
  have hgrown := hpasses.size
  have hother {other : Nat} (hother : other ≠ id) :
      nodeAt (d₂.nodes.modify id fun n => { n with content := content }) other =
        nodeAt d₂.nodes other := by
    rw [nodeAt_modify (by omega), if_neg hother]
  obtain ⟨taken, hitems, hfound⟩ := hpasses.taken
  refine ⟨by simp; omega, fun other hlt => ?_, taken, ?_, ?_⟩
  · dsimp only
    rw [hother (by omega), hpasses.kept other (by omega), hnext.kept hlt]
  · rw [← hnext.lexemes, hitems]
  · intro before text start stop after htaken htags
    obtain ⟨other, hge, hlt, hnode⟩ := hfound before text start stop after htaken htags
    refine ⟨other, by omega, by simpa using hlt, ?_⟩
    dsimp only
    rwa [hother (by omega)]

theorem notes_addEmpty (start : Position) : NotesAll dialect (addEmpty start) :=
  (pushes_add _).notes

theorem notes_aliased (name : String) (start : Position) :
    NotesAll dialect (aliased name start) := by
  unfold aliased
  refine notes_get fun d => ?_
  split
  · exact notes_pure _
  · exact notes_complain _ _ _

/-- What is in front of a node was taken away, and it tells of no tag or no start unless there
is one. -/
structure AreProperties (p : Properties) (taken : List Lexeme) : Prop where
  plain : ∀ l ∈ taken, l.kind.isPlain = false
  tag : Lexeme.endsInTag taken = false → p.tag = none
  start : Lexeme.endsInTag taken = false → Lexeme.endsInAnchor taken = false → p.start = none

theorem areProperties_of_endsInTag
    (p : Properties) {taken : List Lexeme} (htags : Lexeme.endsInTag taken = true)
    (hplain : ∀ l ∈ taken, l.kind.isPlain = false) :
    AreProperties p taken where
  plain := hplain
  tag hfalse := by rw [htags] at hfalse; cases hfalse
  start hfalse := by rw [htags] at hfalse; cases hfalse

/-- The properties are taken away from the lexemes that are left. -/
theorem exists_areProperties {p : Properties} (hrun : Runs properties d p d') :
    ∃ taken, AreProperties p taken ∧ d.lexemes.items = taken ++ d'.lexemes.items ∧
      d'.nodes = d.nodes := by
  unfold properties at hrun
  obtain ⟨first, hfirst, hrest⟩ := exists_of_head_bind hrun
  split at hrest
  next name hkind =>
    obtain ⟨d₁, hitems, hnodes, hbehind⟩ := exists_of_skip_bind hfirst (by simp [hkind]) hrest
    obtain ⟨second, hsecond, hlast⟩ := exists_of_head_bind hbehind
    split at hlast
    next handle suffix hkind' =>
      obtain ⟨d₂, hitems', hnodes', hpure⟩ :=
        exists_of_skip_bind hsecond (by simp [hkind']) hlast
      obtain ⟨rfl, rfl⟩ := runs_pure hpure
      refine ⟨[first, second], areProperties_of_endsInTag _ ?_ ?_, by rw [hitems, hitems']; rfl,
        hnodes'.trans hnodes⟩
      · simp [Lexeme.endsInTag, hkind']
      · simp [hkind, hkind']
    next =>
      obtain ⟨rfl, rfl⟩ := runs_pure hlast
      refine ⟨[first], ⟨?_, fun _ => rfl, fun _ hanchors => ?_⟩, hitems, hnodes⟩
      · simp [hkind]
      · simp [Lexeme.endsInAnchor, hkind] at hanchors
  next handle suffix hkind =>
    obtain ⟨d₁, hitems, hnodes, hbehind⟩ := exists_of_skip_bind hfirst (by simp [hkind]) hrest
    obtain ⟨second, hsecond, hlast⟩ := exists_of_head_bind hbehind
    split at hlast
    next name hkind' =>
      obtain ⟨d₂, hitems', hnodes', hpure⟩ :=
        exists_of_skip_bind hsecond (by simp [hkind']) hlast
      obtain ⟨rfl, rfl⟩ := runs_pure hpure
      refine ⟨[first, second], areProperties_of_endsInTag _ ?_ ?_, by rw [hitems, hitems']; rfl,
        hnodes'.trans hnodes⟩
      · simp [Lexeme.endsInTag, Lexeme.endsInAnchor, hkind, hkind']
      · simp [hkind, hkind']
    next =>
      obtain ⟨rfl, rfl⟩ := runs_pure hlast
      refine ⟨[first], areProperties_of_endsInTag _ ?_ ?_, hitems, hnodes⟩
      · simp [Lexeme.endsInTag, hkind]
      · simp [hkind]
  next =>
    obtain ⟨rfl, rfl⟩ := runs_pure hrest
    exact ⟨[], ⟨List.forall_mem_nil _, fun _ => rfl, fun _ _ => rfl⟩, rfl, rfl⟩

theorem tagName_eq {p : Properties} {name : Option String} (hrun : Runs (tagName p) d name d') :
    d' = d ∧ (p.tag = none → name = none) := by
  unfold tagName at hrun
  split at hrun
  next =>
    obtain ⟨rfl, rfl⟩ := runs_pure hrun
    exact ⟨rfl, fun _ => rfl⟩
  next htag =>
    obtain ⟨-, rfl⟩ := runs_pure hrun
    exact ⟨rfl, fun hnone => by rw [htag] at hnone; cases hnone⟩
  next handle suffix htag =>
    refine ⟨?_, fun hnone => by rw [htag] at hnone; cases hnone⟩
    have hrest := runs_get hrun
    split at hrest
    next => exact (runs_pure hrest).2
    next => exact absurd hrest not_runs_throw

/-- The text of a plain scalar is behind its properties. -/
theorem passesOn_scalar
    {taken : List Lexeme} {p : Properties} {name : Option String} {plain : Bool} {text : String}
    {x : Reader Nat} (hitems : d.lexemes.items = taken ++ d'.lexemes.items)
    (hnodes : d'.nodes = d.nodes) (hp : AreProperties p taken)
    (hname : p.tag = none → name = none) (hl : Awaits l d'.lexemes)
    (hkind : l.kind = .scalar text plain)
    (hx : Pushes x ⟨scalarTag dialect name plain text, p.start.getD l.start, .scalar text⟩) :
    PassesOn dialect d (skip >>= fun _ => x) d' := by
  intro id d₂ hrun
  obtain ⟨d₁, hrest, hnodes', hadded⟩ := exists_of_skip_bind hl (by simp [hkind]) hrun
  have hnext := hx.isNext hadded
  have hsame : d₁.nodes = d.nodes := hnodes'.trans hnodes
  have hsize : d₂.nodes.size = d.nodes.size + 1 := by rw [hnext.size, hsame]
  have hwhole : d.lexemes.items = (taken ++ [l]) ++ d₂.lexemes.items := by
    rw [hitems, hrest, hnext.lexemes, List.append_assoc]
    rfl
  refine ⟨by omega, fun id hid => ?_, taken ++ [l], hwhole, ?_⟩
  · rw [hnext.kept (by rwa [hsame]), hsame]
  · intro before text' start stop after hsplit htags
    rcases after.eq_nil_or_concat with rfl | ⟨after, last, rfl⟩
    · obtain ⟨rfl, hlast⟩ := List.append_inj' hsplit rfl
      obtain rfl := List.singleton_inj.mp hlast
      cases hkind
      obtain rfl := hname (hp.tag htags)
      refine ⟨d₁.nodes.size, by rw [hsame], by rw [hnext.size]; omega, ?_⟩
      rw [hnext.nodeAt_eq]
      refine ⟨rfl, rfl, fun hanchors => ?_⟩
      rw [hp.start htags hanchors]
      rfl
    · -- A plain scalar in front of the last lexeme would be among the properties.
      rw [List.concat_eq_append, ← List.cons_append, ← List.append_assoc] at hsplit
      obtain ⟨htaken, -⟩ := List.append_inj' hsplit rfl
      have hfalse := hp.plain ⟨.scalar text' true, start, stop⟩ (by simp [htaken])
      cases hfalse

theorem notes_nodeWith
    (context : Context) {inside : Collection → Reader Content}
    (hinside : ∀ (l : Lexeme) c, Collection.ofKind? context l.kind = some c →
      Notes dialect (Awaits l) (inside c)) :
    NotesAll dialect (nodeWith dialect context inside) := by
  unfold nodeWith
  refine notes_head fun first => ?_
  split
  next name hname =>
    exact (notes_skip (by simp [hname])).bind fun _ => notes_aliased _ _
  next =>
    refine fun d _ => passesOn_bind fun p d₁ hrun => passesOn_bind fun name e hrun' => ?_
    obtain ⟨taken, hp, hitems, hnodes⟩ := exists_areProperties hrun
    obtain ⟨rfl, hname⟩ := tagName_eq hrun'
    have hpasses : Passes dialect d e :=
      passes_of_not_plain taken (by rw [hnodes]) (fun _ _ => by rw [hnodes]) hitems hp.plain
    refine passesOn_head fun l hl => ?_
    dsimp only
    split
    next text plain hkind =>
      exact passesOn_scalar hitems hnodes hp hname hl hkind (pushes_addAnchored _ _)
    next =>
      split
      next c hc => exact hpasses.on ((pushes_addAnchored _ _).notes_fill (hinside l c hc)) hl
      next =>
        refine hpasses.on (notes_ite (fun _ => ?_) fun _ => ?_) hl
        · exact (pushes_addAnchored _ _).notes.at
        · exact notes_complain _ _ _

/-! ### Collections -/

theorem notes_separator
    (activity : Activity) (complaint : String → Complaint) (first : Bool) :
    NotesAll dialect (separator activity complaint first) := by
  unfold separator
  refine notes_ite (fun _ => notes_head fun l => ?_) fun _ => notes_pure _
  exact notes_ite (fun hkind => notes_skip (by simp [hkind]))
    fun _ => notes_complain _ _ _

section Collections

variable {node : Reader Nat} (hnode : NotesAll dialect node)

include hnode

theorem notes_orEmpty (stops : Stops) (start : Position) :
    NotesAll dialect (orEmpty stops start node) :=
  notes_headKind fun _ => notes_ite (fun _ => (notes_addEmpty _).at) fun _ => hnode.at

theorem notes_entryValue (stops : Stops) : NotesAll dialect (entryValue stops node) :=
  notes_head fun _ => notes_ite
    (fun hkind => (notes_skip (by simp [hkind])).bind
      fun _ => notes_orEmpty hnode _ _)
    fun _ => (notes_addEmpty _).at

/-- A mark is taken away, and a node is read behind it that may be missing. -/
theorem notes_marked
    {α : Type} {stops : Stops} {start : Position} {next : Nat → Reader α}
    (hplain : l.kind.isPlain = false) (hnext : ∀ id, NotesAll dialect (next id)) :
    Notes dialect (Awaits l) (do
      skip
      let id ← orEmpty stops start node
      next id) :=
  (notes_skip hplain).bind fun _ => (notes_orEmpty hnode _ _).bind hnext

theorem notes_indentlessItems (fuel : Nat) : NotesAll dialect (indentlessItems node fuel) := by
  induction fuel with
  | zero => exact notes_pure _
  | succ fuel ih =>
      unfold indentlessItems
      refine notes_head fun l => notes_ite (fun hkind => ?_) fun _ => notes_pure _
      exact notes_marked hnode (by simp [hkind]) fun _ =>
        ih.bind fun _ => notes_pure _

theorem notes_blockItems (fuel : Nat) : NotesAll dialect (blockItems node fuel) := by
  induction fuel with
  | zero => exact notes_pure _
  | succ fuel ih =>
      unfold blockItems
      refine notes_head fun l => notes_ite (fun hkind => ?_) fun _ =>
        notes_ite (fun hkind => ?_) fun _ => notes_complain _ _ _
      · exact notes_marked hnode (by simp [hkind]) fun _ =>
          ih.bind fun _ => notes_pure _
      · exact notes_skip_pure (by simp [hkind]) _

theorem notes_blockEntries (fuel : Nat) : NotesAll dialect (blockEntries node fuel) := by
  induction fuel with
  | zero => exact notes_pure _
  | succ fuel ih =>
      unfold blockEntries
      refine notes_head fun l => notes_ite (fun hkind => ?_) fun _ =>
        notes_ite (fun hkind => ?_) fun _ => notes_complain _ _ _
      · exact notes_marked hnode (by simp [hkind]) fun _ =>
          (notes_entryValue hnode _).bind fun _ => ih.bind fun _ => notes_pure _
      · exact notes_skip_pure (by simp [hkind]) _

theorem notes_flowItems
    {pair : Reader Nat} (hpair : ∀ l : Lexeme, l.kind = .key → Notes dialect (Awaits l) pair)
    (fuel : Nat) (first : Bool) :
    NotesAll dialect (flowItems node pair fuel first) := by
  induction fuel generalizing first with
  | zero => exact notes_pure _
  | succ fuel ih =>
      unfold flowItems
      refine notes_headKind fun l => notes_ite (fun hkind => ?_) fun _ => NotesAll.at ?_
      · exact notes_skip_pure (by simp [hkind]) _
      refine (notes_separator _ _ first).bind fun _ => notes_headKind fun l => ?_
      refine notes_ite (fun hkind => ?_) fun _ => notes_ite (fun hkind => ?_) fun _ => ?_
      · exact notes_skip_pure (by simp [hkind]) _
      · exact (hpair l hkind).bind fun _ => (ih false).bind fun _ => notes_pure _
      · exact hnode.at.bind fun _ => (ih false).bind fun _ => notes_pure _

theorem notes_flowEntries (fuel : Nat) (first : Bool) :
    NotesAll dialect (flowEntries node fuel first) := by
  induction fuel generalizing first with
  | zero => exact notes_pure _
  | succ fuel ih =>
      unfold flowEntries
      refine notes_headKind fun l => notes_ite (fun hkind => ?_) fun _ => NotesAll.at ?_
      · exact notes_skip_pure (by simp [hkind]) _
      refine (notes_separator _ _ first).bind fun _ => notes_head fun l => ?_
      refine notes_ite (fun hkind => ?_) fun _ => notes_ite (fun hkind => ?_) fun _ => ?_
      · exact notes_skip_pure (by simp [hkind]) _
      · exact notes_marked hnode (by simp [hkind]) fun _ =>
          (notes_entryValue hnode _).bind fun _ => (ih false).bind fun _ => notes_pure _
      · refine hnode.at.bind fun _ => notes_head fun _ => (notes_addEmpty _).at.bind fun _ => ?_
        exact (ih false).bind fun _ => notes_pure _

theorem notes_entryMapping (hkind : l.kind = .key) :
    Notes dialect (Awaits l) (entryMapping node) := by
  unfold entryMapping
  refine notes_head_awaits ((notes_skip (by simp [hkind])).bind fun _ => ?_)
  have hentry : NotesAll dialect (do
      let key ← orEmpty (.value :: flowStops) l.stop node
      let value ← entryValue flowStops node
      return Content.mapping [(key, value)]) :=
    (notes_orEmpty hnode _ _).bind fun _ => (notes_entryValue hnode _).bind fun _ => notes_pure _
  have hmapping := (pushes_add ⟨.map, l.start, .mapping []⟩).notes_fill hentry
  simpa only [bind_assoc, pure_bind] using hmapping

end Collections

theorem isPlain_eq_false_of_ofKind?
    {context : Context} {c : Collection} (hc : Collection.ofKind? context l.kind = some c) :
    l.kind.isPlain = false := by
  cases hkind : l.kind
  case scalar text plain =>
    rw [hkind] at hc
    cases context <;> cases hc
  all_goals rfl

theorem notes_content
    {node : Context → Reader Nat} (hnode : ∀ context, NotesAll dialect (node context))
    {pair : Reader Nat} (hpair : ∀ l : Lexeme, l.kind = .key → Notes dialect (Awaits l) pair)
    (hplain : l.kind.isPlain = false) (c : Collection) :
    Notes dialect (Awaits l) (content node pair c) := by
  unfold content
  refine notes_get fun d => ?_
  dsimp only
  split
  · exact (notes_indentlessItems (hnode _) _).at.bind fun _ => notes_pure _
  all_goals refine (notes_skip hplain).bind fun _ => ?_
  · exact (notes_blockItems (hnode _) _).bind fun _ => notes_pure _
  · exact (notes_flowItems (hnode _) hpair _ _).bind fun _ => notes_pure _
  · exact (notes_blockEntries (hnode _) _).bind fun _ => notes_pure _
  · exact (notes_flowEntries (hnode _) _ _).bind fun _ => notes_pure _

theorem notes_node (dialect : Dialect) :
    ∀ (room : Nat) (context : Context), NotesAll dialect (node dialect room context)
  | 0, context => notes_nodeWith context fun _ _ _ => notes_throw _
  | 1, context =>
    notes_nodeWith context fun _ c hc =>
      notes_content (notes_node dialect 0) (fun _ _ => notes_throw _)
        (isPlain_eq_false_of_ofKind? hc) c
  | room + 2, context =>
    notes_nodeWith context fun _ c hc =>
      notes_content (notes_node dialect (room + 1))
        (fun _ hkind => notes_entryMapping (notes_node dialect room .flow) hkind)
        (isPlain_eq_false_of_ofKind? hc) c

end Nodes

/-! ### Documents -/

theorem notes_directives
    (fuel : Nat) (hasVersion : Bool) (handles : List (String × String)) :
    NotesAll dialect (directives fuel hasVersion handles) := by
  induction fuel generalizing hasVersion handles with
  | zero => exact notes_pure _
  | succ fuel ih =>
      unfold directives
      refine notes_head fun l => ?_
      split
      next d hd =>
        refine (notes_skip (by simp [hd])).bind fun _ => ?_
        split
        next =>
          exact notes_ite (fun _ => notes_complain _ _ _)
            fun _ => notes_ite (fun _ => notes_complain _ _ _) fun _ => ih _ _
        next => exact notes_ite (fun _ => notes_complain _ _ _) fun _ => ih _ _
        next => exact ih _ _
      next => exact notes_pure _

theorem notes_explicitStart : NotesAll dialect explicitStart := by
  unfold explicitStart
  refine notes_get fun d => (notes_directives _ _ _).bind fun handles => notes_head fun l => ?_
  refine notes_ite (fun hkind => ?_) fun _ => notes_complain _ _ _
  refine (notes_skip (by simp [hkind])).bind fun _ => ?_
  intro d _ _ d' hrun
  cases hrun
  exact passes_of_eq rfl rfl

theorem notes_skipEnds (fuel : Nat) : NotesAll dialect (skipEnds fuel) := by
  induction fuel with
  | zero => exact notes_pure _
  | succ fuel ih =>
      unfold skipEnds
      refine notes_headKind fun l => notes_ite (fun hkind => ?_) fun _ => notes_pure _
      exact (notes_skip (by simp [hkind])).bind fun _ => ih

theorem notes_document (dialect : Dialect) : NotesAll dialect (document dialect) := by
  have hroot : NotesAll dialect (do return some (← node dialect maxDepth .block)) :=
    (notes_node dialect maxDepth .block).bind fun _ => notes_pure _
  unfold document
  refine notes_headKind fun l => notes_ite (fun _ => notes_pure _)
    fun _ => notes_ite (fun _ => NotesAll.at ?_) fun _ => hroot.at
  refine notes_explicitStart.bind fun _ => notes_head fun l => ?_
  refine notes_ite (fun _ => ?_) fun _ => hroot.at
  exact (notes_addEmpty _).at.bind fun _ => notes_pure _

/-- A document is read up to the end of the stream. -/
theorem passes_of_stream {root : Nat} (hrun : Runs (stream dialect) d (some root) d') :
    Passes dialect d d' ∧ ∃ l, Awaits l d'.lexemes ∧ l.kind = .streamEnd := by
  unfold stream at hrun
  obtain ⟨found, d₁, hdocument, hrest⟩ := exists_of_bind hrun
  have hpasses := notes_document dialect d trivial found d₁ hdocument
  dsimp only at hrest
  split at hrest
  next =>
    obtain ⟨u, d₂, hends, hrest⟩ := exists_of_bind (runs_get hrest)
    obtain ⟨l, hl, hlast⟩ := exists_of_head_bind hrest
    split at hlast
    next =>
      obtain ⟨u, d₃, hstart, hlast⟩ := exists_of_bind hlast
      obtain ⟨u, d₄, hcomplain, hlast⟩ := exists_of_bind hlast
      exact absurd hcomplain not_runs_throw
    next hkind =>
      obtain ⟨-, rfl⟩ := runs_pure hlast
      exact ⟨hpasses.on (notes_skipEnds _) trivial u d' hends, l, hl, not_not.mp hkind⟩
  next hnone =>
    obtain ⟨rfl, -⟩ := runs_pure hrest
    exact absurd rfl hnone

end Draft

/-- Behind some lexemes, which do not end the stream, a plain scalar without a tag starts. -/
structure Lexemes.HasPlain
    (lexemes : Lexemes) (before : List Lexeme) (text : String) (start : Position) : Prop where
  items : ∃ stop after, lexemes.items = before ++ ⟨.scalar text true, start, stop⟩ :: after
  front : ∀ l ∈ before, l.kind ≠ .streamEnd
  untagged : Lexeme.endsInTag before = false

namespace Graph

/-- Every plain scalar of a document without a tag is read as a node of its text. -/
theorem exists_isPlainNode
    {dialect : Dialect} {lexemes : Lexemes} {g : Graph}
    (hgraph : ofLexemes dialect lexemes = .ok (some g)) {before : List Lexeme} {text : String}
    {start : Position} (hplain : lexemes.HasPlain before text start) :
    ∃ id < g.nodes.size, Lexeme.IsPlainNode dialect before text start (g.node id) := by
  obtain ⟨⟨stop, after, hitems⟩, hfront, htags⟩ := hplain
  rw [ofLexemes_eq] at hgraph
  split at hgraph
  next root d hd =>
    cases root with
    | none => cases hgraph
    | some root =>
        cases hgraph
        obtain ⟨hpasses, l, hl, hend⟩ := Draft.passes_of_stream hd
        obtain ⟨taken, htaken, hfound⟩ := hpasses.taken
        have hleft (gap : List Lexeme) (hgap : ∀ l ∈ gap, l.kind ≠ .streamEnd) :
            d.lexemes.items ≠ gap ++ ⟨.scalar text true, start, stop⟩ :: after := by
          intro hrest
          cases gap with
          | nil =>
              obtain rfl := hl.eq_of_cons hrest
              cases hend
          | cons first gap =>
              obtain rfl := hl.eq_of_cons hrest
              exact hgap first List.mem_cons_self hend
        rcases List.append_eq_append_iff.mp (htaken.symm.trans hitems) with
          ⟨gap, rfl, hgap⟩ | ⟨gap, hbefore, hgap⟩
        · exact absurd hgap (hleft gap fun l hl => hfront l (List.mem_append_right _ hl))
        · rcases List.cons_eq_append_iff.mp hgap with ⟨rfl, hrest⟩ | ⟨rest, rfl, -⟩
          · exact absurd hrest (hleft [] (List.forall_mem_nil _))
          · obtain ⟨id, -, hid, hnode⟩ := hfound before text start stop rest hbefore htags
            exact ⟨id, hid, hnode⟩
  next => cases hgraph

end Graph

end Wireframe.Yaml
