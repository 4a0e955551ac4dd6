import Mathlib.Tactic
import Wireframe.Proofs.MergeKeys
import Wireframe.Yaml.Reading

/-!
# Two dialects

The dialects read the same lexemes as the same nodes, but for the tags of plain scalars: the
text of a date is text in one and a date in the other.  So the runs of the two readers go side
by side, step by step, and both fail in the same way or not at all.  A scalar that does not fit
its tag fails neither of them, as no scalar is made yet, unless the lexemes end with such a
failure.
-/

namespace Wireframe.Yaml

/-- The tags of a node in the two dialects. -/
def Tag.Alike (t t' : Tag) : Prop := t = t' ∨ t = .str ∧ t' = .timestamp

theorem Tag.alike_self (t : Tag) : t.Alike t := .inl rfl

/-- A plain text has the same tag in both dialects unless it is the text of a date. -/
theorem Tag.alike_ofPlain (text : String) :
    (Tag.ofPlain .strict text).Alike (Tag.ofPlain .standard text) := by
  have hmark {s : List Char} (hs : Timestamp.isPlain s = false) {chars : List Char}
      (hdate : Timestamp.isPlain chars = true) : String.ofList chars ≠ String.ofList s := by
    intro hsame
    rw [String.ofList_injective hsame, hs] at hdate
    cases hdate
  unfold Tag.ofPlain
  generalize dropLastBreak text.toList = chars
  simp only [Dialect.strict, Dialect.standard, Bool.false_and, Bool.true_and, Bool.false_eq_true,
    if_false]
  by_cases hdate : Timestamp.isPlain chars = true
  · have hvalue : String.ofList chars ≠ "=" := hmark (s := ['=']) rfl hdate
    have hyaml : ¬ (String.ofList chars = "!" ∨ String.ofList chars = "&" ∨
        String.ofList chars = "*") := by
      rintro (h | h | h)
      · exact hmark (s := ['!']) rfl hdate h
      · exact hmark (s := ['&']) rfl hdate h
      · exact hmark (s := ['*']) rfl hdate h
    rw [if_pos hdate, if_neg hvalue, if_neg hyaml]
    split_ifs <;> first | exact alike_self _ | exact .inr ⟨rfl, rfl⟩
  · rw [if_neg hdate]
    exact alike_self _

/-- A node in the two dialects. -/
structure Node.Alike (n n' : Node) : Prop where
  tag : n.tag.Alike n'.tag
  start : n'.start = n.start
  content : n'.content = n.content

theorem Node.alike_self (n : Node) : n.Alike n := ⟨n.tag.alike_self, rfl, rfl⟩

namespace Draft

/-- Drafts in the two dialects, whose lexemes end with the same failure if with any. -/
structure Alike (broken : Option Failure) (d d' : Draft) : Prop where
  lexemes : d'.lexemes = d.lexemes
  failure : d.lexemes.failure = broken
  handles : d'.handles = d.handles
  anchors : d'.anchors = d.anchors
  size : d'.nodes.size = d.nodes.size
  node : ∀ id, (nodeAt d.nodes id).Alike (nodeAt d'.nodes id)

/-- Two readers go side by side.  Nothing but the end of the lexemes is a misfit. -/
def Agrees {α : Type} (broken : Option Failure) (x x' : Reader α) : Prop :=
  ∀ d d', Alike broken d d' →
    match x d, x' d' with
    | .ok (a, e), .ok (a', e') => a = a' ∧ Alike broken e e'
    | .error f, .error f' => f = f' ∧ (f.isMisfit = true → broken = some f)
    | _, _ => False

section Steps

variable {α β : Type} {broken : Option Failure}

theorem bind_apply
    (x : Reader β) (next : β → Reader α) (d : Draft) :
    (x >>= next) d = match x d with
      | .ok (b, e) => next b e
      | .error f => .error f := by
  change Except.bind (x d) (fun r => next r.1 r.2) = _
  cases x d <;> rfl

theorem agrees_pure (a : α) : Agrees broken (pure a) (pure a) := fun _ _ h => ⟨rfl, h⟩

theorem agrees_throw
    {f : Failure} (hf : f.isMisfit = true → broken = some f) :
    Agrees broken (throw f : Reader α) (throw f) :=
  fun _ _ _ => ⟨rfl, hf⟩

theorem agrees_complain
    (activity : Option Activity) (complaint : Complaint) (position : Position) :
    Agrees broken (Failure.complain activity complaint position : Reader α)
      (Failure.complain activity complaint position) :=
  agrees_throw nofun

theorem Agrees.bind
    {x x' : Reader β} {next next' : β → Reader α} (hx : Agrees broken x x')
    (hnext : ∀ b, Agrees broken (next b) (next' b)) :
    Agrees broken (x >>= next) (x' >>= next') := by
  intro d d' h
  have hfirst := hx d d' h
  rw [bind_apply, bind_apply]
  cases hd : x d with
  | ok r =>
      cases hd' : x' d' with
      | ok r' =>
          rw [hd, hd'] at hfirst
          obtain ⟨hsame, hafter⟩ := hfirst
          obtain ⟨b, e⟩ := r
          obtain ⟨b', e'⟩ := r'
          cases hsame
          exact hnext b e e' hafter
      | error f' =>
          rw [hd, hd'] at hfirst
          exact hfirst.elim
  | error f =>
      cases hd' : x' d' with
      | ok r' =>
          rw [hd, hd'] at hfirst
          exact hfirst.elim
      | error f' =>
          rw [hd, hd'] at hfirst
          exact hfirst

/-- Readers that look at drafts in the two dialects. -/
theorem agrees_get
    {next next' : Draft → Reader α}
    (hnext : ∀ d d', Alike broken d d' → Agrees broken (next d) (next' d')) :
    Agrees broken (get >>= next) (get >>= next') :=
  fun d d' h => hnext d d' h d d' h

theorem agrees_modify
    {f f' : Draft → Draft} (hf : ∀ d d', Alike broken d d' → Alike broken (f d) (f' d')) :
    Agrees broken (modify f : Reader PUnit) (modify f') :=
  fun d d' h => ⟨rfl, hf d d' h⟩

theorem agrees_ite
    {c : Prop} [Decidable c] {x x' y y' : Reader α} (hx : Agrees broken x x')
    (hy : Agrees broken y y') :
    Agrees broken (if c then x else y) (if c then x' else y') := by
  split_ifs
  · exact hx
  · exact hy

end Steps

/-! ## Lexemes and nodes -/

section Parts

variable {broken : Option Failure}

theorem agrees_head : Agrees broken head head := by
  unfold head
  refine agrees_get fun d d' h => ?_
  rw [h.lexemes]
  have hend := h.failure
  split
  next => exact agrees_pure _
  next f hf =>
    rw [hf] at hend
    exact agrees_throw fun _ => hend.symm
  next => exact agrees_pure _

theorem agrees_headKind : Agrees broken headKind headKind :=
  agrees_head.bind fun _ => agrees_pure _

theorem agrees_skip : Agrees broken skip skip :=
  agrees_modify fun d d' h =>
    { h with
      lexemes := by
        rw [h.lexemes]
      failure := h.failure }

theorem nodeAt_push
    (nodes : Array Node) (n : Node) (id : Nat) :
    nodeAt (nodes.push n) id = if id = nodes.size then n else nodeAt nodes id := by
  unfold nodeAt
  simp only [Array.getD_eq_getD_getElem?, Array.getElem?_push]
  split_ifs <;> rfl

theorem modify_of_le
    {nodes : Array Node} {id : Nat} (hid : nodes.size ≤ id) (f : Node → Node) :
    nodes.modify id f = nodes := by
  apply Array.ext_getElem?
  intro other
  rw [Array.getElem?_modify]
  split_ifs with hsame
  · rw [← hsame, Array.getElem?_eq_none hid]
    rfl
  · rfl

theorem agrees_add
    {n n' : Node} (hn : n.Alike n') :
    Agrees broken (add n) (add n') := by
  intro d d' h
  refine ⟨h.size.symm, { h with size := ?_, node := fun id => ?_ }⟩
  · simp [h.size]
  · rw [nodeAt_push, nodeAt_push, h.size]
    split_ifs
    · exact hn
    · exact h.node id

theorem agrees_fill
    (id : Nat) (content : Content) :
    Agrees broken (fill id content) (fill id content) := by
  refine agrees_modify fun d d' h => ?_
  by_cases hid : id < d.nodes.size
  · refine { h with size := ?_, node := fun other => ?_ }
    · simp [h.size]
    · rw [nodeAt_modify hid, nodeAt_modify (h.size ▸ hid)]
      split_ifs
      · exact { h.node id with content := rfl }
      · exact h.node other
  · rw [modify_of_le (by omega), modify_of_le (by rw [h.size]; omega)]
    exact h

theorem agrees_addEmpty (start : Position) : Agrees broken (addEmpty start) (addEmpty start) :=
  agrees_add (Node.alike_self _)

/-! ## What stands in front of a node -/

theorem agrees_properties : Agrees broken properties properties := by
  unfold properties
  refine agrees_head.bind fun first => ?_
  split
  next =>
    refine agrees_skip.bind fun _ => agrees_head.bind fun second => ?_
    split
    · exact agrees_skip.bind fun _ => agrees_pure _
    · exact agrees_pure _
  next =>
    refine agrees_skip.bind fun _ => agrees_head.bind fun second => ?_
    split
    · exact agrees_skip.bind fun _ => agrees_pure _
    · exact agrees_pure _
  next => exact agrees_pure _

theorem agrees_tagName (p : Properties) : Agrees broken (tagName p) (tagName p) := by
  unfold tagName
  split
  next => exact agrees_pure _
  next => exact agrees_pure _
  next =>
    refine agrees_get fun d d' h => ?_
    rw [h.handles]
    split
    · exact agrees_pure _
    · exact agrees_complain _ _ _

theorem alike_scalarTag (name : Option String) (plain : Bool) (text : String) :
    (scalarTag .strict name plain text).Alike (scalarTag .standard name plain text) := by
  unfold scalarTag
  split
  · split_ifs
    · exact Tag.alike_ofPlain text
    · exact Tag.alike_self _
  · split_ifs
    · exact Tag.alike_ofPlain text
    · exact Tag.alike_self _

theorem agrees_addAnchored
    (anchor : Option String) {n n' : Node} (hn : n.Alike n') :
    Agrees broken (addAnchored anchor n) (addAnchored anchor n') := by
  unfold addAnchored
  split
  next => exact agrees_add hn
  next name =>
    refine agrees_get fun d d' h => ?_
    rw [h.anchors, hn.start]
    refine agrees_ite (agrees_complain _ _ _) ((agrees_add hn).bind fun id => ?_)
    refine (agrees_modify fun e e' he => ?_).bind fun _ => agrees_pure _
    exact { he with anchors := by rw [he.anchors] }

theorem agrees_aliased
    (name : String) (start : Position) :
    Agrees broken (aliased name start) (aliased name start) := by
  unfold aliased
  refine agrees_get fun d d' h => ?_
  rw [h.anchors]
  split
  · exact agrees_pure _
  · exact agrees_complain _ _ _

/-! ## Collections -/

theorem agrees_separator
    (activity : Activity) (complaint : String → Complaint) (first : Bool) :
    Agrees broken (separator activity complaint first) (separator activity complaint first) := by
  unfold separator
  refine agrees_ite (agrees_head.bind fun l => ?_) (agrees_pure _)
  exact agrees_ite agrees_skip (agrees_complain _ _ _)

section Collections

variable {node node' : Reader Nat} (hnode : Agrees broken node node')

include hnode

theorem agrees_orEmpty
    (stops : Stops) (start : Position) :
    Agrees broken (orEmpty stops start node) (orEmpty stops start node') :=
  agrees_headKind.bind fun _ => agrees_ite (agrees_addEmpty _) hnode

theorem agrees_entryValue (stops : Stops) :
    Agrees broken (entryValue stops node) (entryValue stops node') := by
  unfold entryValue
  refine agrees_head.bind fun l => agrees_ite ?_ (agrees_addEmpty _)
  exact agrees_skip.bind fun _ => agrees_orEmpty hnode _ _

theorem agrees_indentlessItems (fuel : Nat) :
    Agrees broken (indentlessItems node fuel) (indentlessItems node' fuel) := by
  induction fuel with
  | zero => exact agrees_pure _
  | succ fuel ih =>
      unfold indentlessItems
      refine agrees_head.bind fun l => agrees_ite ?_ (agrees_pure _)
      refine agrees_skip.bind fun _ => (agrees_orEmpty hnode _ _).bind fun item => ?_
      exact ih.bind fun _ => agrees_pure _

theorem agrees_blockItems (fuel : Nat) :
    Agrees broken (blockItems node fuel) (blockItems node' fuel) := by
  induction fuel with
  | zero => exact agrees_pure _
  | succ fuel ih =>
      unfold blockItems
      refine agrees_head.bind fun l => agrees_ite ?_ (agrees_ite ?_ (agrees_complain _ _ _))
      · refine agrees_skip.bind fun _ => (agrees_orEmpty hnode _ _).bind fun item => ?_
        exact ih.bind fun _ => agrees_pure _
      · exact agrees_skip.bind fun _ => agrees_pure _

theorem agrees_blockEntries (fuel : Nat) :
    Agrees broken (blockEntries node fuel) (blockEntries node' fuel) := by
  induction fuel with
  | zero => exact agrees_pure _
  | succ fuel ih =>
      unfold blockEntries
      refine agrees_head.bind fun l => agrees_ite ?_ (agrees_ite ?_ (agrees_complain _ _ _))
      · refine agrees_skip.bind fun _ => (agrees_orEmpty hnode _ _).bind fun key => ?_
        refine (agrees_entryValue hnode _).bind fun value => ?_
        exact ih.bind fun _ => agrees_pure _
      · exact agrees_skip.bind fun _ => agrees_pure _

theorem agrees_flowItems
    {pair pair' : Reader Nat} (hpair : Agrees broken pair pair') (fuel : Nat) (first : Bool) :
    Agrees broken (flowItems node pair fuel first) (flowItems node' pair' fuel first) := by
  induction fuel generalizing first with
  | zero => exact agrees_pure _
  | succ fuel ih =>
      unfold flowItems
      refine agrees_headKind.bind fun kind => agrees_ite ?_ ?_
      · exact agrees_skip.bind fun _ => agrees_pure _
      · refine (agrees_separator _ _ first).bind fun _ => agrees_headKind.bind fun kind => ?_
        refine agrees_ite (agrees_skip.bind fun _ => agrees_pure _) ?_
        exact agrees_ite (hpair.bind fun _ => (ih false).bind fun _ => agrees_pure _)
          (hnode.bind fun _ => (ih false).bind fun _ => agrees_pure _)

theorem agrees_flowEntries
    (fuel : Nat) (first : Bool) :
    Agrees broken (flowEntries node fuel first) (flowEntries node' fuel first) := by
  induction fuel generalizing first with
  | zero => exact agrees_pure _
  | succ fuel ih =>
      unfold flowEntries
      refine agrees_headKind.bind fun kind => agrees_ite ?_ ?_
      · exact agrees_skip.bind fun _ => agrees_pure _
      · refine (agrees_separator _ _ first).bind fun _ => agrees_head.bind fun l => ?_
        refine agrees_ite (agrees_skip.bind fun _ => agrees_pure _) (agrees_ite ?_ ?_)
        · refine agrees_skip.bind fun _ => (agrees_orEmpty hnode _ _).bind fun key => ?_
          refine (agrees_entryValue hnode _).bind fun value => ?_
          exact (ih false).bind fun _ => agrees_pure _
        · refine hnode.bind fun key => agrees_head.bind fun l => ?_
          refine (agrees_addEmpty _).bind fun value => ?_
          exact (ih false).bind fun _ => agrees_pure _

theorem agrees_entryMapping : Agrees broken (entryMapping node) (entryMapping node') := by
  unfold entryMapping
  refine agrees_head.bind fun l => agrees_skip.bind fun _ => ?_
  refine (agrees_add (Node.alike_self _)).bind fun id => ?_
  refine (agrees_orEmpty hnode _ _).bind fun key => ?_
  refine (agrees_entryValue hnode _).bind fun value => ?_
  exact (agrees_fill _ _).bind fun _ => agrees_pure _

end Collections

theorem agrees_content
    {node node' : Context → Reader Nat} (hnode : ∀ context, Agrees broken (node context)
      (node' context)) {pair pair' : Reader Nat} (hpair : Agrees broken pair pair')
    (c : Collection) :
    Agrees broken (content node pair c) (content node' pair' c) := by
  unfold content
  refine agrees_get fun d d' h => ?_
  rw [h.lexemes]
  dsimp only
  split
  · exact (agrees_indentlessItems (hnode _) _).bind fun _ => agrees_pure _
  · exact agrees_skip.bind fun _ => (agrees_blockItems (hnode _) _).bind fun _ => agrees_pure _
  · exact agrees_skip.bind fun _ =>
      (agrees_flowItems (hnode _) hpair _ _).bind fun _ => agrees_pure _
  · exact agrees_skip.bind fun _ => (agrees_blockEntries (hnode _) _).bind fun _ => agrees_pure _
  · exact agrees_skip.bind fun _ => (agrees_flowEntries (hnode _) _ _).bind fun _ => agrees_pure _

theorem agrees_nodeWith
    (context : Context) {inside inside' : Collection → Reader Content}
    (hinside : ∀ c, Agrees broken (inside c) (inside' c)) :
    Agrees broken (nodeWith .strict context inside) (nodeWith .standard context inside') := by
  unfold nodeWith
  refine agrees_head.bind fun first => ?_
  split
  next => exact agrees_skip.bind fun _ => agrees_aliased _ _
  next =>
    refine agrees_properties.bind fun p => (agrees_tagName p).bind fun name => ?_
    refine agrees_head.bind fun l => ?_
    dsimp only
    split
    next text plain hl =>
      exact agrees_skip.bind fun _ =>
        agrees_addAnchored _ ⟨alike_scalarTag name plain text, rfl, rfl⟩
    next =>
      split
      next c hc =>
        refine (agrees_addAnchored _ (Node.alike_self _)).bind fun id => ?_
        exact (hinside c).bind fun _ => (agrees_fill _ _).bind fun _ => agrees_pure _
      next =>
        refine agrees_ite ?_ (agrees_complain _ _ _)
        exact agrees_addAnchored _ ⟨alike_scalarTag name true "", rfl, rfl⟩

theorem agrees_tooDeep {α : Type} : Agrees broken (throw .tooDeep : Reader α) (throw .tooDeep) :=
  agrees_throw nofun

theorem agrees_node :
    ∀ (room : Nat) (context : Context),
      Agrees broken (node .strict room context) (node .standard room context)
  | 0, context => agrees_nodeWith context fun _ => agrees_tooDeep
  | 1, context => agrees_nodeWith context (agrees_content (agrees_node 0) agrees_tooDeep)
  | room + 2, context =>
    agrees_nodeWith context
      (agrees_content (agrees_node (room + 1)) (agrees_entryMapping (agrees_node room .flow)))

/-! ## Documents -/

theorem agrees_directives
    (fuel : Nat) (hasVersion : Bool) (handles : List (String × String)) :
    Agrees broken (directives fuel hasVersion handles) (directives fuel hasVersion handles) := by
  induction fuel generalizing hasVersion handles with
  | zero => exact agrees_pure _
  | succ fuel ih =>
      unfold directives
      refine agrees_head.bind fun l => ?_
      split
      next d hd =>
        refine agrees_skip.bind fun _ => ?_
        split
        next =>
          exact agrees_ite (agrees_complain _ _ _)
            (agrees_ite (agrees_complain _ _ _) (ih _ _))
        next => exact agrees_ite (agrees_complain _ _ _) (ih _ _)
        next => exact ih _ _
      next => exact agrees_pure _

theorem agrees_explicitStart : Agrees broken explicitStart explicitStart := by
  unfold explicitStart
  refine agrees_get fun d d' h => ?_
  rw [h.lexemes]
  refine (agrees_directives _ _ _).bind fun handles => agrees_head.bind fun l => ?_
  refine agrees_ite (agrees_skip.bind fun _ => ?_) (agrees_complain _ _ _)
  exact agrees_modify fun e e' he => { he with handles := rfl }

theorem agrees_skipEnds (fuel : Nat) : Agrees broken (skipEnds fuel) (skipEnds fuel) := by
  induction fuel with
  | zero => exact agrees_pure _
  | succ fuel ih =>
      unfold skipEnds
      refine agrees_headKind.bind fun kind => agrees_ite ?_ (agrees_pure _)
      exact agrees_skip.bind fun _ => ih

theorem agrees_document : Agrees broken (document .strict) (document .standard) := by
  have hroot : Agrees broken (do return some (← node .strict maxDepth .block))
      (do return some (← node .standard maxDepth .block)) :=
    (agrees_node maxDepth .block).bind fun _ => agrees_pure _
  unfold document
  refine agrees_headKind.bind fun kind => agrees_ite (agrees_pure _) (agrees_ite ?_ hroot)
  refine agrees_explicitStart.bind fun _ => agrees_head.bind fun l => agrees_ite ?_ hroot
  exact (agrees_addEmpty _).bind fun _ => agrees_pure _

theorem agrees_stream : Agrees broken (stream .strict) (stream .standard) := by
  unfold stream
  refine agrees_document.bind fun root => ?_
  dsimp only
  refine agrees_ite ?_ (agrees_pure _)
  refine agrees_get fun d d' h => ?_
  rw [h.lexemes]
  refine (agrees_skipEnds _).bind fun _ => agrees_head.bind fun l => ?_
  refine agrees_ite ?_ (agrees_pure _)
  exact agrees_explicitStart.bind fun _ => (agrees_complain _ _ _).bind fun _ => agrees_pure _

end Parts

end Draft

/-! ## Graphs -/

namespace Graph

/-- The graphs of one input in the two dialects. -/
structure Alike (g g' : Graph) : Prop where
  root : g'.root = g.root
  size : g'.nodes.size = g.nodes.size
  node : ∀ id, (g.node id).Alike (g'.node id)

/-- No text of a scalar makes it a date: what is a date in the second graph is tagged so. -/
def DatesAgree (g g' : Graph) : Prop :=
  ∀ id, (g'.node id).tag = .timestamp → (g.node id).tag = .timestamp

theorem Alike.eq {g g' : Graph} (halike : g.Alike g') (hdates : g.DatesAgree g') : g' = g := by
  have hnode (id : Nat) : g'.node id = g.node id := by
    have h := halike.node id
    have htag : (g'.node id).tag = (g.node id).tag := by
      rcases h.tag with heq | ⟨htext, hdate⟩
      · exact heq.symm
      · rw [hdate, hdates id hdate]
    calc g'.node id = ⟨(g'.node id).tag, (g'.node id).start, (g'.node id).content⟩ := rfl
      _ = g.node id := by rw [htag, h.start, h.content]
  have hnodes : g'.nodes = g.nodes := by
    apply Array.ext halike.size
    intro id hid hid'
    have h := hnode id
    simp only [Graph.node, Array.getD_eq_getD_getElem?, Array.getElem?_eq_getElem hid,
      Array.getElem?_eq_getElem hid', Option.getD_some] at h
    exact h
  calc g' = ⟨g'.nodes, g'.root⟩ := rfl
    _ = g := by rw [hnodes, halike.root]

end Graph

theorem Graph.ofLexemes_eq (dialect : Dialect) (lexemes : Lexemes) :
    Graph.ofLexemes dialect lexemes =
      match Draft.stream dialect ⟨lexemes, Draft.usualHandles, #[], []⟩ with
      | .ok (root, d) => .ok (root.map fun root => ⟨d.nodes, root⟩)
      | .error f => .error f := by
  unfold Graph.ofLexemes
  change Except.bind (Draft.stream dialect _) _ = _
  cases Draft.stream dialect ⟨lexemes, Draft.usualHandles, #[], []⟩ <;> rfl

namespace Reading

/-- The graphs of an input in the two dialects, or the same failure. -/
theorem graph_alike (input : Input) :
    match graph .strict input, graph .standard input with
    | .ok (some g), .ok (some g') => g.Alike g'
    | .ok none, .ok none => True
    | .error f, .error f' => f = f' ∧ (f.isMisfit = true →
        ∃ source, Source.ofInput input = .ok source ∧
          (Lexemes.ofSource source).failure = some f)
    | _, _ => False := by
  unfold graph
  cases hsource : Source.ofInput input with
  | error e => exact ⟨rfl, nofun⟩
  | ok source =>
      set lexemes := Lexemes.ofSource source
      have hstart : Draft.Alike lexemes.failure ⟨lexemes, Draft.usualHandles, #[], []⟩
          ⟨lexemes, Draft.usualHandles, #[], []⟩ :=
        ⟨rfl, rfl, rfl, rfl, rfl, fun _ => Node.alike_self _⟩
      have hstream := Draft.agrees_stream _ _ hstart
      simp only [Graph.ofLexemes_eq]
      split at hstream
      next root d root' d' hd hd' =>
        obtain ⟨rfl, h⟩ := hstream
        rw [hd, hd']
        cases root with
        | none => trivial
        | some root => exact ⟨rfl, h.size, h.node⟩
      next f f' hd hd' =>
        rw [hd, hd']
        exact ⟨hstream.1, fun hmisfit => ⟨source, rfl, hstream.2 hmisfit⟩⟩
      next => exact hstream.elim

end Reading

end Wireframe.Yaml
