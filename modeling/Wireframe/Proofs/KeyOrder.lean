import Mathlib.Tactic
import Wireframe.Proofs.ComparedRules
import Wireframe.Proofs.RelaxedRules
import Wireframe.Proofs.ReorderedTrees

/-!
# Checks and the order of entries

The rules look up the entries of a mapping by name, and a mapping has one entry for a name at most,
so in most places the order of entries cannot be told.  It can be told in keyed collections, whose
entries are looked at in turn.  There the second of two keys of equal text is reported, whichever
it is, and so a collection in another order has the same findings in another order.  Messages may
differ, since values are shown in them as they are written.
-/

namespace Wireframe

/-! ## Names of entries -/

namespace Entries

/-- No two entries have the same name. -/
def HasDistinctNames (es : Entries) : Prop :=
  ((es.map Prod.fst).filterMap Key.text?).Nodup

instance : DecidablePred HasDistinctNames := fun _ => inferInstanceAs (Decidable (List.Nodup _))

variable {es fs : Entries} {name : String} {v : Value}

theorem get?_eq_some_iff (hdistinct : es.HasDistinctNames) :
    get? name es = some v ↔ ∃ key, (key, v) ∈ es ∧ key.text? = some name := by
  refine ⟨get?_mem, ?_⟩
  rintro ⟨key, hmem, hkey⟩
  unfold HasDistinctNames at hdistinct
  induction es with
  | nil => cases hmem
  | cons e es ih =>
      rcases List.mem_cons.mp hmem with rfl | hmem
      · simp [get?, hkey]
      · by_cases hhead : e.1.text? = some name
        · rw [List.map_cons, List.filterMap_cons_some hhead, List.nodup_cons] at hdistinct
          have hmem : key ∈ es.map Prod.fst := List.mem_map.mpr ⟨_, hmem, rfl⟩
          exact absurd (List.mem_filterMap.mpr ⟨key, hmem, hkey⟩) hdistinct.1
        · have hsub := ((List.sublist_cons_self e es).map Prod.fst).filterMap Key.text?
          simpa [get?, hhead] using ih (hdistinct.sublist hsub) hmem

theorem HasDistinctNames.getD_eq (hdistinct : es.HasDistinctNames) (horder : es.Perm fs)
    (name : String) : es.getD name = fs.getD name := by
  have hother : fs.HasDistinctNames := ((horder.map _).filterMap _).nodup_iff.mp hdistinct
  have hget : get? name es = get? name fs := by
    refine Option.ext fun v => ?_
    simp only [get?_eq_some_iff hdistinct, get?_eq_some_iff hother, horder.mem_iff]
  rw [getD, getD, hget]

/-- Entries with the same keys have related values under each name. -/
theorem getD_related
    {R : Value → Value → Prop} (hnull : R .null .null)
    (hentries : List.Forall₂ (fun e f => e.1 = f.1 ∧ R e.2 f.2) es fs) (name : String) :
    R (es.getD name) (fs.getD name) := by
  induction hentries with
  | nil => exact hnull
  | @cons e f es fs hentry _ ih =>
      obtain ⟨key, v⟩ := e
      obtain ⟨_, w⟩ := f
      obtain ⟨rfl, hvalue⟩ := hentry
      unfold getD get? at ih ⊢
      rw [List.find?_cons, List.find?_cons]
      cases key.text? == some name with
      | true => exact hvalue
      | false => exact ih

theorem forall₂_of_keys
    {R : Value → Value → Prop} (hkeys : es.map Prod.fst = fs.map Prod.fst)
    (hvalues : List.Forall₂ R (es.map Prod.snd) (fs.map Prod.snd)) :
    List.Forall₂ (fun e f => e.1 = f.1 ∧ R e.2 f.2) es fs := by
  induction es generalizing fs with
  | nil =>
      rw [List.map_eq_nil_iff.mp hkeys.symm]
      exact .nil
  | cons e es ih =>
      cases fs with
      | nil => cases hkeys
      | cons f fs =>
          obtain ⟨hkey, hkeys⟩ := List.cons_eq_cons.mp hkeys
          obtain ⟨hvalue, hvalues⟩ := List.forall₂_cons.mp hvalues
          exact .cons ⟨hkey, hvalue⟩ (ih hkeys hvalues)

end Entries

/-! ## Entries of collections -/

namespace Rules

variable {kind : CollectionKind} {rule : Rule} {seen seen' : List Step}
  {steps steps' : List (Step × Value)}

/-- The report of a key that was seen before. -/
def repeated (kind : CollectionKind) (seen : List Step) (step : Step) : List Finding :=
  if seen.contains step then report (.keyTwice kind step.render) [.name kind.name, step] else []

theorem entries_cons (x : Step × Value) (rest : List (Step × Value)) :
    entries kind rule seen (x :: rest) =
      repeated kind seen x.1 ++ rule x.2 [.name kind.name, x.1] ++
        entries kind rule (x.1 :: seen) rest := rfl

theorem repeated_cons_of_ne {step other : Step} (hne : step ≠ other) :
    repeated kind (other :: seen) step = repeated kind seen step := by
  simp [repeated, hne]

theorem entries_congr (hseen : ∀ step, step ∈ seen ↔ step ∈ seen') :
    entries kind rule seen steps = entries kind rule seen' steps := by
  induction steps generalizing seen seen' with
  | nil => rfl
  | cons x rest ih =>
      have hhead : repeated kind seen x.1 = repeated kind seen' x.1 := by
        simp only [repeated, List.contains_iff_mem, hseen]
      have hrest (step : Step) : step ∈ x.1 :: seen ↔ step ∈ x.1 :: seen' := by
        rw [List.mem_cons, List.mem_cons, hseen]
      rw [entries_cons, entries_cons, hhead, ih hrest]

/-- Entries in another order have the same findings in another order.  Where two entries change
places, the second of them is reported as before if their keys have equal texts. -/
theorem entries_perm (horder : steps.Perm steps') (kind : CollectionKind) (rule : Rule)
    (seen : List Step) :
    (entries kind rule seen steps).Perm (entries kind rule seen steps') := by
  induction horder generalizing seen with
  | nil => exact .refl _
  | cons x _ ih => exact (ih _).append_left _
  | swap x y rest =>
      have hrest : entries kind rule (x.1 :: y.1 :: seen) rest =
          entries kind rule (y.1 :: x.1 :: seen) rest :=
        entries_congr fun step => by simp only [List.mem_cons, or_left_comm]
      simp only [entries_cons, hrest]
      classical
      rw [List.perm_iff_count]
      intro f
      simp only [List.count_append]
      by_cases hsame : x.1 = y.1
      · rw [hsame]
        omega
      · rw [repeated_cons_of_ne hsame, repeated_cons_of_ne (Ne.symm hsame)]
        omega
  | trans _ _ ihfirst ihnext => exact (ihfirst seen).trans (ihnext seen)

end Rules

namespace Value

/-- No mapping in the tree has two entries of the same name. -/
inductive HasDistinctNames : Value → Prop
  | node {v : Value} (hown : ∀ es, v = .map es → Entries.HasDistinctNames es)
      (hchildren : ∀ x ∈ v.children, HasDistinctNames x) : HasDistinctNames v

variable {v w : Value} {es : Entries}

theorem HasDistinctNames.own (hdistinct : (Value.map es).HasDistinctNames) :
    es.HasDistinctNames := by
  cases hdistinct with
  | node hown => exact hown es rfl

theorem HasDistinctNames.child (hdistinct : v.HasDistinctNames) {x : Value} (hx : x ∈ v.children) :
    x.HasDistinctNames := by
  cases hdistinct with
  | node _ hchildren => exact hchildren x hx

theorem hasDistinctNames_map
    (hown : es.HasDistinctNames) (hvalues : ∀ e ∈ es, e.2.HasDistinctNames) :
    (Value.map es).HasDistinctNames := by
  refine .node ?_ (List.forall_mem_map.mpr hvalues)
  rintro _ ⟨⟩
  exact hown

theorem hasDistinctNames_of_not_map
    (hmap : v.isMap = false) (hchildren : ∀ x ∈ v.children, x.HasDistinctNames) :
    v.HasDistinctNames :=
  .node (by rintro es rfl; cases hmap) hchildren

theorem hasDistinctNames_of_leaf (hleaf : v.children = []) (hmap : v.isMap = false) :
    v.HasDistinctNames :=
  hasDistinctNames_of_not_map hmap (hleaf ▸ List.forall_mem_nil _)

theorem HasDistinctNames.getD (hdistinct : (Value.map es).HasDistinctNames) (name : String) :
    (es.getD name).HasDistinctNames := by
  unfold Entries.getD
  cases hget : Entries.get? name es with
  | none => exact hasDistinctNames_of_leaf rfl rfl
  | some v =>
      obtain ⟨key, hmem, -⟩ := Entries.get?_mem hget
      exact hdistinct.child (List.mem_map_of_mem hmem)

end Value

/-! ## Trees in another order -/

namespace Rules

/-- Trees in another order, the first of which has distinct names. -/
structure IsTurned (v w : Value) : Prop where
  distinct : v.HasDistinctNames
  reordered : v.Reordered w

variable {v w : Value} {es fs : Entries}

theorem isTurned_self (hdistinct : v.HasDistinctNames) : IsTurned v v := ⟨hdistinct, .refl v⟩

theorem isTurned_items
    {xs ys : List Value} (hdistinct : ∀ x ∈ xs, x.HasDistinctNames)
    (hitems : List.Forall₂ Value.Reordered xs ys) : List.Forall₂ IsTurned xs ys :=
  ((List.forall₂_and_left _ _).mpr ⟨hdistinct, hitems⟩).imp fun _ _ h => ⟨h.1, h.2⟩

/-- A mapping is turned by turning its values first and then changing the order of its entries. -/
theorem IsTurned.exists_between (hturned : IsTurned (.map es) (.map fs)) :
    ∃ between : Entries, List.Forall₂ (fun e f => e.1 = f.1 ∧ IsTurned e.2 f.2) es between ∧
      between.HasDistinctNames ∧ between.Perm fs := by
  obtain ⟨hdistinct, hreordered⟩ := hturned
  have hvalues {ws : List Value} (hrelated : List.Forall₂ Value.Reordered (es.map Prod.snd) ws) :=
    isTurned_items (fun x hx => hdistinct.child hx) hrelated
  cases hreordered with
  | refl =>
      have hsame := hvalues (Value.forall₂_reordered_refl _)
      exact ⟨es, Entries.forall₂_of_keys rfl hsame, hdistinct.own, .refl _⟩
  | @map _ _ gs keys values order =>
      refine ⟨gs, Entries.forall₂_of_keys keys (hvalues values), ?_, order⟩
      have hown := hdistinct.own
      unfold Entries.HasDistinctNames at hown ⊢
      rwa [← keys]

theorem IsTurned.sameParts (hturned : IsTurned v w) : SameParts IsTurned v w := by
  have hitems {xs ys : List Value} (hxs : xs = v.children)
      (hrelated : List.Forall₂ Value.Reordered xs ys) :=
    isTurned_items (fun x hx => hturned.distinct.child (hxs ▸ hx)) hrelated
  cases v with
  | map es =>
      have hmap : ∃ fs, w = .map fs := by
        cases hturned.reordered with
        | refl => exact ⟨_, rfl⟩
        | map => exact ⟨_, rfl⟩
      obtain ⟨fs, rfl⟩ := hmap
      obtain ⟨between, hentries, hdistinct, horder⟩ := hturned.exists_between
      refine .map fun name => ?_
      rw [← hdistinct.getD_eq horder name]
      have hnull : IsTurned .null .null := isTurned_self (Value.hasDistinctNames_of_leaf rfl rfl)
      exact Entries.getD_related hnull hentries name
  | list xs =>
      cases hturned.reordered with
      | refl => exact .list (hitems rfl (Value.forall₂_reordered_refl xs))
      | list items => exact .list (hitems rfl items)
  | tuple xs =>
      cases hturned.reordered with
      | refl => exact .tuple (hitems rfl (Value.forall₂_reordered_refl xs))
      | tuple items => exact .tuple (hitems rfl items)
  | _ =>
      cases hturned.reordered with
      | refl => exact .leaf (by rintro (h | h) <;> cases h)

/-- Where a finding is reported and of what kind, and whether its message can be written. -/
def trace (f : Finding) : (DiagnosticKind × Location) × Bool := (f.site, f.problem.hasText)

theorem isPartwise_perm :
    IsPartwise fun fs gs => (fs.map trace).Perm (gs.map trace) where
  refl _ := .refl _
  append hfs hgs := by
    rw [List.map_append, List.map_append]
    exact hfs.append hgs

/-- Two runs under the same settings on trees whose entries are in different orders. -/
def turned (settings : Settings) : Comparison settings settings where
  Alike := IsTurned
  Compared fs gs := (fs.map trace).Perm (gs.map trace)
  partwise := isPartwise_perm
  parts := IsTurned.sameParts
  displayOnly _ _ := .refl _
  placeholder _ _ := .refl _
  reworded := by
    intro v w hturned problem hkind htext location
    have hsame : v.hasText = w.hasText := Bool.eq_iff_iff.mpr hturned.reordered.hasText_iff
    simp only [report, List.map_cons, List.map_nil, trace, Finding.site, Finding.kind,
      hkind v w, htext, hsame, List.Perm.refl]
  keyed := by
    intro es fs hturned rule other hrule kind
    obtain ⟨between, hentries, -, horder⟩ := hturned.exists_between
    have hsteps : List.Forall₂ (fun x y => x.1 = y.1 ∧ ∀ location,
        ((rule x.2 location).map trace).Perm ((other y.2 location).map trace))
        (Collection.keyed es).steps (Collection.keyed between).steps := by
      simp only [Collection.steps, List.forall₂_map_left_iff, List.forall₂_map_right_iff]
      exact hentries.imp fun e f h => ⟨by rw [h.1], hrule _ _ h.2⟩
    exact (isPartwise_perm.entries hsteps kind []).trans
      ((entries_perm (horder.map _) kind other []).map _)

end Rules

namespace Value

variable {tree other : Value}

theorem Reordered.isWithin_iff (hreordered : tree.Reordered other) (settings : Settings) :
    tree.IsWithin settings ↔ other.IsWithin settings := by
  have hsize := hreordered.size_eq
  have hdepth := hreordered.forall_length_iff fun n => (n : Int) < settings.maxDepth
  exact ⟨fun h => ⟨hsize ▸ h.size, hdepth.mp h.depth⟩,
    fun h => ⟨hsize ▸ h.size, hdepth.mpr h.depth⟩⟩

/-- The kinds and the paths of what is reported. -/
def reports (settings : Settings) (positions : Positions) (tree : Value) :
    Except NoText (List (DiagnosticKind × String)) :=
  (tree.check settings positions).map (List.map fun d => (d.kind, d.path))

theorem IsWithin.reports_eq_ok_iff
    {settings : Settings} (hwithin : tree.IsWithin settings) {positions : Positions}
    {rs : List (DiagnosticKind × String)} :
    tree.reports settings positions = .ok rs ↔
      tree.IsLocatable ∧ (∀ x ∈ (Rules.root settings tree).map Rules.trace, x.2 = true) ∧
        rs = ((Rules.root settings tree).map Rules.trace).map fun x => (x.1.1, x.1.2.render) := by
  have hcheck {ds : List Diagnostic} : tree.check settings positions = .ok ds ↔
      tree.IsLocatable ∧ (∀ f ∈ Rules.root settings tree, f.problem.hasText = true) ∧
        ds = (Rules.root settings tree).map (Finding.diagnose positions) := by
    rw [check_eq_ok_iff]
    simp only [hwithin.findings_eq_ok_iff]
    constructor
    · rintro ⟨fs, ⟨hlocatable, rfl⟩, htext, hds⟩
      exact ⟨hlocatable, htext, hds⟩
    · rintro ⟨hlocatable, htext, hds⟩
      exact ⟨_, ⟨hlocatable, rfl⟩, htext, hds⟩
  rw [List.forall_mem_map, List.map_map]
  constructor
  · intro hreports
    cases hds : tree.check settings positions with
    | error cause =>
        rw [reports, hds] at hreports
        cases hreports
    | ok ds =>
        obtain ⟨hlocatable, htext, rfl⟩ := hcheck.mp hds
        rw [reports, hds] at hreports
        cases hreports
        exact ⟨hlocatable, htext, List.map_map⟩
  · rintro ⟨hlocatable, htext, rfl⟩
    rw [reports, hcheck.mpr ⟨hlocatable, htext, rfl⟩]
    exact congrArg _ List.map_map

/-- Reports about a tree in another order are the same reports in another order. -/
theorem IsWithin.exists_reports
    {settings : Settings} (hwithin : tree.IsWithin settings) {positions others : Positions}
    (hother : other.IsWithin settings) (hlocatable : tree.IsLocatable → other.IsLocatable)
    (hturned : ((Rules.root settings tree).map Rules.trace).Perm
      ((Rules.root settings other).map Rules.trace))
    {rs : List (DiagnosticKind × String)} (hrs : tree.reports settings positions = .ok rs) :
    ∃ rs', other.reports settings others = .ok rs' ∧ rs.Perm rs' := by
  obtain ⟨htree, htext, rfl⟩ := hwithin.reports_eq_ok_iff.mp hrs
  refine ⟨_, hother.reports_eq_ok_iff.mpr ⟨hlocatable htree, ?_, rfl⟩, hturned.map _⟩
  exact fun x hx => htext x (hturned.mem_iff.mpr hx)

theorem reports_eq_ok_nil_iff {settings : Settings} {positions : Positions} :
    tree.reports settings positions = .ok [] ↔ tree.check settings positions = .ok [] := by
  rw [reports]
  cases tree.check settings positions <;> simp [Except.map]

end Value

/-- A tree with the entries of any of its mappings in another order is within the ceilings if the
tree is, and then reports of the same kinds are made about it, at the same paths and as often; there
are none about either where something in them cannot be written.  So the one is accepted if and only
if the other is. -/
theorem reports_of_reordered
    {tree other : Value} (hdistinct : tree.HasDistinctNames) (hreordered : tree.Reordered other)
    (settings : Settings) (positions others : Positions) :
    (tree.IsWithin settings ↔ other.IsWithin settings) ∧
      (tree.IsWithin settings →
        (∀ rs, tree.reports settings positions = .ok rs →
          ∃ rs', other.reports settings others = .ok rs' ∧ rs.Perm rs') ∧
        ∀ rs', other.reports settings others = .ok rs' →
          ∃ rs, tree.reports settings positions = .ok rs ∧ rs.Perm rs') ∧
      (tree.check settings positions = .ok [] ↔ other.check settings others = .ok []) := by
  have hwithin_iff := hreordered.isWithin_iff settings
  have hturned := (Rules.turned settings).compared_root ⟨hdistinct, hreordered⟩
  have hlocatable := hreordered.isLocatable_iff
  have hforth (hwithin : tree.IsWithin settings) (rs : List (DiagnosticKind × String))
      (hrs : tree.reports settings positions = .ok rs) :
      ∃ rs', other.reports settings others = .ok rs' ∧ rs.Perm rs' :=
    hwithin.exists_reports (hwithin_iff.mp hwithin) hlocatable.mp hturned hrs
  have hback (hwithin : tree.IsWithin settings) (rs' : List (DiagnosticKind × String))
      (hrs' : other.reports settings others = .ok rs') :
      ∃ rs, tree.reports settings positions = .ok rs ∧ rs.Perm rs' := by
    obtain ⟨rs, hrs, hperm⟩ :=
      (hwithin_iff.mp hwithin).exists_reports hwithin hlocatable.mpr hturned.symm hrs'
    exact ⟨rs, hrs, hperm.symm⟩
  refine ⟨hwithin_iff, fun hwithin => ⟨hforth hwithin, hback hwithin⟩, ?_⟩
  constructor
  · intro hnone
    have hwithin := Value.isWithin_of_check_eq_nil hnone
    obtain ⟨rs', hrs', hperm⟩ := hforth hwithin [] (Value.reports_eq_ok_nil_iff.mpr hnone)
    rw [List.nil_perm.mp hperm] at hrs'
    exact Value.reports_eq_ok_nil_iff.mp hrs'
  · intro hnone
    have hwithin := hwithin_iff.mpr (Value.isWithin_of_check_eq_nil hnone)
    obtain ⟨rs, hrs, hperm⟩ := hback hwithin [] (Value.reports_eq_ok_nil_iff.mpr hnone)
    rw [List.perm_nil.mp hperm] at hrs
    exact Value.reports_eq_ok_nil_iff.mp hrs

/-- A screen under a number, and one without a title under the text of the number. -/
def numbered : Value :=
  .map [(.text "view", .map [(.scalar (.integer 1), .map [(.text "name", .text "Home"),
    (.text "title", .text "Home")]), (.text "1", .map [])])]

/-- The same screens, the one without a title first. -/
def numberedTurned : Value :=
  .map [(.text "view", .map [(.text "1", .map []), (.scalar (.integer 1), .map [(.text "title",
    .text "Home"), (.text "name", .text "Home")])])]

theorem hasDistinctNames_numbered : numbered.HasDistinctNames := by
  have hleaf (s : String) : (Value.text s).HasDistinctNames :=
    Value.hasDistinctNames_of_leaf rfl rfl
  refine Value.hasDistinctNames_map (by decide) (List.forall_mem_singleton.mpr ?_)
  refine Value.hasDistinctNames_map (by decide) (List.forall_mem_cons.mpr
    ⟨Value.hasDistinctNames_map (by decide) ?_, List.forall_mem_singleton.mpr ?_⟩)
  · exact List.forall_mem_cons.mpr ⟨hleaf _, List.forall_mem_singleton.mpr (hleaf _)⟩
  · exact Value.hasDistinctNames_map (by decide) nofun

theorem reordered_numbered : numbered.Reordered numberedTurned := by
  refine .map ?_ (.cons ?_ .nil) (.refl _)
  · rfl
  refine .map ?_ (.cons ?_ (.cons (.refl _) .nil)) (.swap _ _ [])
  · rfl
  · exact .map rfl (Value.forall₂_reordered_refl _) (.swap _ _ _)

/-- The key that is reported as the second one is the other one of the two. -/
theorem reports_of_reordered_numbered :
    numbered.HasDistinctNames ∧ numbered.Reordered numberedTurned ∧
      numbered.IsWithin Settings.default ∧ numberedTurned.IsWithin Settings.default ∧
      numbered.reports Settings.default [] =
        .ok [(.badValue, "view.1"), (.missingAttribute, "view.1")] ∧
      numberedTurned.reports Settings.default [] =
        .ok [(.missingAttribute, "view.1"), (.badValue, "view.1")] ∧
      ∃ rs', numberedTurned.reports Settings.default [] = .ok rs' ∧
        [(.badValue, "view.1"), (.missingAttribute, "view.1")].Perm rs' := by
  have hwithin : numbered.IsWithin Settings.default := Value.isWithin_of_depthExcess? rfl rfl
  obtain ⟨hceilings, hreports, -⟩ :=
    reports_of_reordered hasDistinctNames_numbered reordered_numbered Settings.default [] []
  exact ⟨hasDistinctNames_numbered, reordered_numbered, hwithin, hceilings.mp hwithin, rfl, rfl,
    (hreports hwithin).1 _ rfl⟩

end Wireframe
