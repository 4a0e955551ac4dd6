import Mathlib.Tactic
import Wireframe.Proofs.Ceilings
import Wireframe.Proofs.FindingLocations

/-!
# Reports of the depth

The check of a tree reports that the tree is nested too deeply only if it is not too large, and
then it reports nothing else.  No rule reports it, and nothing else is worded like it.  So it is
reported if, and only if, a tree of an allowed size has a chain of containers that is longer than
allowed.
-/

namespace Wireframe

namespace Problem

theorem getLast?_toList_append {s t : String} {c : Char} (ht : t.toList.getLast? = some c) :
    (s ++ t).toList.getLast? = some c := by
  rw [String.toList_append, List.getLast?_append, ht, Option.some_or]

theorem append_values_ne_append_levels (s t : String) : s ++ " values" ≠ t ++ " levels" := by
  intro h
  have hchars := congrArg String.toList h
  rw [String.toList_append, String.toList_append] at hchars
  exact absurd (List.append_inj' hchars (by simp)).2 (by simp)

/-- Only the reports of the size and of the depth end in this character. -/
theorem eq_tooManyValues_or_tooDeep
    {problem : Problem} (hlast : problem.message.toList.getLast? = some 's') :
    (∃ n, problem = .tooManyValues n) ∨ ∃ n, problem = .tooDeep n := by
  have hother {c : Char} (hc : problem.message.toList.getLast? = some c) (hne : c ≠ 's') :
      (∃ n, problem = .tooManyValues n) ∨ ∃ n, problem = .tooDeep n :=
    absurd (Option.some.inj (hc.symm.trans hlast)) hne
  cases problem with
  | tooManyValues n => exact .inl ⟨n, rfl⟩
  | tooDeep n => exact .inr ⟨n, rfl⟩
  | actionType text =>
      exact hother (c := 't') (getLast?_toList_append (by decide +kernel)) (by decide)
  | componentType text =>
      exact hother (c := 'e') (getLast?_toList_append (by decide +kernel)) (by decide)
  | notOptions | emptyOptions | noDestination | notName | noScreenName | rootNotObject =>
      exact hother rfl (by decide)
  | _ => exact hother (getLast?_toList_append rfl) (by decide)

/-- Nothing else is worded like the report that a tree is too deep. -/
theorem eq_tooDeep_of_message
    {problem : Problem} {limit : Int} (hmessage : problem.message = (tooDeep limit).message) :
    ∃ n, problem = .tooDeep n := by
  have hlast : problem.message.toList.getLast? = some 's' := by
    rw [hmessage]
    exact getLast?_toList_append rfl
  rcases eq_tooManyValues_or_tooDeep hlast with ⟨n, rfl⟩ | hdeep
  · exact absurd hmessage (append_values_ne_append_levels _ _)
  · exact hdeep

end Problem

namespace Value

variable {tree : Value} {settings : Settings} {positions : Positions}

/-- The rules report no problem of a tree as a whole but that it is no mapping. -/
theorem eq_rootNotObject_of_mem_root
    {f : Finding} (hf : f ∈ Rules.root settings tree) (habout : f.problem.IsAboutTree) :
    f.problem = .rootNotObject := by
  cases tree with
  | map document => exact absurd habout (Rules.areAt_root settings document f hf).1
  | _ => rw [List.mem_singleton.mp hf]

/-- The depth is reported if nothing is wrong with the size and something is too deep. -/
theorem exists_report_iff {ds : List Diagnostic} (hcheck : tree.check settings positions = .ok ds) :
    (∃ d ∈ ds, d.message = (Problem.tooDeep settings.maxDepth).message) ↔
      tree.isTooLarge settings = false ∧
        ∃ location, tree.depthExcess? settings.maxDepth = .ok (some location) := by
  obtain ⟨fs, hfindings, -, rfl⟩ := check_eq_ok_iff.mp hcheck
  rcases findings_eq_ok_iff.mp hfindings with
    ⟨hlarge, rfl⟩ | ⟨hsize, ⟨location, hdeep, rfl⟩ | ⟨hnone, rfl⟩⟩
  · refine iff_of_false ?_ fun ⟨hsize, _⟩ => Bool.false_ne_true (hsize.symm.trans hlarge)
    rintro ⟨d, hd, hmessage⟩
    rw [List.mem_singleton.mp hd] at hmessage
    exact absurd hmessage (Problem.append_values_ne_append_levels _ _)
  · exact iff_of_true ⟨_, List.mem_singleton_self _, rfl⟩ ⟨hsize, location, hdeep⟩
  · refine iff_of_false ?_ fun ⟨_, location, hdeep⟩ => by cases hnone.symm.trans hdeep
    rintro ⟨d, hd, hmessage⟩
    obtain ⟨f, hf, rfl⟩ := List.mem_map.mp hd
    obtain ⟨n, hproblem⟩ := Problem.eq_tooDeep_of_message hmessage
    have hroot := eq_rootNotObject_of_mem_root hf (hproblem ▸ .tooDeep n)
    rw [hproblem] at hroot
    cases hroot

/-- The container at the place is the one after so many others in a chain of containers. -/
def IsPast (tree : Value) (limit : Nat) (place : List Nat) : Prop :=
  ∃ chain, tree.IsNest chain ∧ chain[limit]? = some place

theorem depthExcess?_eq_none_iff {limit : Nat} :
    tree.depthExcess? limit = .ok none ↔
      tree.IsLocatable ∧ ∀ chain, tree.IsNest chain → chain.length ≤ limit := by
  rw [forall_isNest_iff, depthExcess?_eq, tooDeep?_eq_none_iff_place]
  simp

theorem exists_isPast_of_depthExcess?
    {limit : Nat} {found : Location} (hfound : tree.depthExcess? limit = .ok (some found)) :
    found.length = limit ∧ ∃ place x, tree.node? place = some (found, x) ∧
      tree.IsPast limit place ∧ ∀ other, tree.IsPast limit other → ¬ other < place := by
  obtain ⟨place, ⟨l, x, hnode, hx, hl⟩, hdeep, htight, hfirst⟩ := exists_isFirstAt hfound
  obtain rfl : found = l := hl
  have hlength := length_of_node? hnode
  simp only [List.length_nil] at hdeep htight hfirst
  refine ⟨by omega, place, x, hnode, ?_, fun other hother => ?_⟩
  · exact exists_isNest_iff.mpr ⟨⟨found, x, hnode, hx⟩, by omega⟩
  · obtain ⟨hcontainer, hle⟩ := exists_isNest_iff.mp hother
    exact hfirst other hcontainer (by omega)

theorem IsLocatable.exists_depthExcess? (hlocatable : tree.IsLocatable) (limit : Int) :
    ∃ found, tree.depthExcess? limit = .ok found := by
  cases hdepth : tree.depthExcess? limit with
  | ok found => exact ⟨found, rfl⟩
  | error cause =>
      rw [depthExcess?_eq] at hdepth
      exact absurd hlocatable (not_isLocatable_of_tooDeep? hdepth)

/-- Where the depth is told, something is found too deep if and only if a chain is too long. -/
theorem exists_depthExcess?_iff
    {limit : Nat} {found : Option Location} (hfound : tree.depthExcess? limit = .ok found) :
    (∃ location, tree.depthExcess? limit = .ok (some location)) ↔
      ∃ chain, tree.IsNest chain ∧ (limit : Int) < chain.length := by
  cases found with
  | none =>
      refine iff_of_false (by rw [hfound]; nofun) fun ⟨chain, hnest, hlong⟩ => ?_
      have hshort := (depthExcess?_eq_none_iff.mp hfound).2 chain hnest
      omega
  | some location =>
      obtain ⟨-, place, -, -, ⟨chain, hnest, hget⟩, -⟩ := exists_isPast_of_depthExcess? hfound
      have hlong := (List.getElem?_eq_some_iff.mp hget).1
      exact iff_of_true ⟨location, hfound⟩ ⟨chain, hnest, by omega⟩

/-- The check has reports, and one of them is that the tree is nested too deeply. -/
def ReportsDepth (tree : Value) (settings : Settings) (positions : Positions) : Prop :=
  ∃ ds, tree.check settings positions = .ok ds ∧
    ∃ d ∈ ds, d.message = (Problem.tooDeep settings.maxDepth).message

theorem reportsDepth_of_tooDeep
    {location : Location} (hsize : tree.isTooLarge settings = false)
    (hdeep : tree.depthExcess? settings.maxDepth = .ok (some location)) :
    tree.ReportsDepth settings positions := by
  have hfindings : tree.findings settings =
      .ok (Rules.report (.tooDeep settings.maxDepth) location) :=
    findings_eq_ok_iff.mpr (.inr ⟨hsize, .inl ⟨location, hdeep, rfl⟩⟩)
  have hwritten : ∀ f ∈ Rules.report (.tooDeep settings.maxDepth) location,
      f.problem.hasText = true := fun f hf => by
    rw [List.mem_singleton.mp hf]
    rfl
  exact ⟨_, check_eq_ok_iff.mpr ⟨_, hfindings, hwritten, rfl⟩, _, List.mem_singleton_self _, rfl⟩

/-- Nothing is found too deep if and only if no chain of nested containers is longer than the
limit and all keys can be written.  What is found is the first container of the document that comes
after as many others in a chain, and its location has as many steps.  The depth is told of every
tree whose keys can be written.  So the check reports it only if the tree has no more values than
are allowed and has a chain that is longer than allowed, and does so for every such tree whose
keys can be written. -/
theorem depth_is_exact (tree : Value) :
    (∀ limit : Nat,
      (tree.depthExcess? limit = .ok none ↔
        tree.IsLocatable ∧ ∀ chain, tree.IsNest chain → chain.length ≤ limit) ∧
      (∀ found, tree.depthExcess? limit = .ok (some found) →
        found.length = limit ∧ ∃ place x, tree.node? place = some (found, x) ∧
          tree.IsPast limit place ∧ ∀ other, tree.IsPast limit other → ¬ other < place) ∧
      (tree.IsLocatable → ∃ found, tree.depthExcess? limit = .ok found)) ∧
    ∀ (settings : Settings) (positions : Positions), 1 ≤ settings.maxDepth →
      (tree.ReportsDepth settings positions →
        tree.size ≤ settings.maxNodes ∧
          ∃ chain, tree.IsNest chain ∧ settings.maxDepth < chain.length) ∧
      (tree.IsLocatable → tree.size ≤ settings.maxNodes →
        (∃ chain, tree.IsNest chain ∧ settings.maxDepth < chain.length) →
          tree.ReportsDepth settings positions) := by
  refine ⟨fun limit => ⟨depthExcess?_eq_none_iff, fun _ => exists_isPast_of_depthExcess?,
    fun hlocatable => hlocatable.exists_depthExcess? limit⟩, ?_⟩
  intro settings positions hpositive
  obtain ⟨limit, hlimit⟩ := Int.eq_ofNat_of_zero_le (show 0 ≤ settings.maxDepth by omega)
  constructor
  · rintro ⟨ds, hcheck, hreport⟩
    obtain ⟨hsize, location, hdeep⟩ := (exists_report_iff hcheck).mp hreport
    rw [hlimit] at hdeep ⊢
    exact ⟨isTooLarge_eq_false_iff.mp hsize, (exists_depthExcess?_iff hdeep).mp ⟨_, hdeep⟩⟩
  · intro hlocatable hsize hnest
    obtain ⟨found, hfound⟩ := hlocatable.exists_depthExcess? limit
    rw [hlimit] at hnest
    obtain ⟨location, hdeep⟩ := (exists_depthExcess?_iff hfound).mpr hnest
    exact reportsDepth_of_tooDeep (isTooLarge_eq_false_iff.mpr hsize) (hlimit ▸ hdeep)

/-- A mapping with a list in a list in a list, and with an empty list behind. -/
def nested : Value :=
  Canonical.object [("rows", .list [.integer 1, .list [.list []]]), ("notes", .list [])]

theorem isNest_nested : nested.IsNest [[], [0], [0, 1], [0, 1, 0]] where
  containers := by
    simp only [List.forall_mem_cons, List.not_mem_nil, false_implies, implies_true, and_true]
    exact ⟨⟨_, _, rfl, .inl rfl⟩, ⟨_, _, rfl, .inr rfl⟩, ⟨_, _, rfl, .inr rfl⟩,
      ⟨_, _, rfl, .inr rfl⟩⟩
  nested := by decide

theorem depth_is_exact_nested :
    nested.depthExcess? 2 = .ok (some [.name "rows", .place 1]) ∧
      (∃ place x, nested.node? place = some ([.name "rows", .place 1], x) ∧
        nested.IsPast 2 place ∧ ∀ other, nested.IsPast 2 other → ¬ other < place) ∧
      1 ≤ ({ Settings.default with maxDepth := 2 } : Settings).maxDepth ∧
      nested.IsLocatable ∧ nested.ReportsDepth { Settings.default with maxDepth := 2 } [] := by
  obtain ⟨hlimit, hcheck⟩ := depth_is_exact nested
  obtain ⟨-, hfound, -⟩ := hlimit 2
  obtain ⟨-, hplace⟩ := hfound [.name "rows", .place 1] rfl
  have hlocatable : nested.IsLocatable := isLocatable_of_hasText (by decide)
  obtain ⟨-, hreport⟩ := hcheck { Settings.default with maxDepth := 2 } [] (by decide)
  exact ⟨rfl, hplace, by decide, hlocatable,
    hreport hlocatable (by decide) ⟨_, isNest_nested, by decide⟩⟩

/-- A mapping whose only key cannot be written. -/
def longKeyed : Value := .map [(.scalar .long, .null)]

/-- No chain in the mapping is longer than one, and yet nothing is told about its depth. -/
theorem not_depthExcess?_longKeyed :
    ¬ (longKeyed.depthExcess? 64 = .ok none ↔
      ∀ chain, longKeyed.IsNest chain → chain.length ≤ 64) := by
  have hshort : ∀ chain, longKeyed.IsNest chain → chain.length ≤ 64 := by
    have hcontainer : longKeyed.IsContainer := .inl rfl
    rw [forall_isNest_iff, hcontainer.forall_length_iff fun n => n < 64]
    refine ⟨by decide, fun part hpart place hplace => ?_⟩
    rw [List.mem_singleton.mp hpart] at hplace
    rcases hplace.isContainer with hmap | hsequence
    · cases hmap
    · cases hsequence
  have hlong : ¬ longKeyed.IsLocatable := by
    intro hlocatable
    have htexts : ∀ e ∈ [(Key.scalar .long, Value.null)], e.1.hasText = true :=
      List.all_eq_true.mp (isLocatable_iff.mp hlocatable).1
    have hkey := htexts _ (List.mem_singleton_self _)
    rw [Key.hasText_scalar] at hkey
    cases Scalar.hasText_long.symm.trans hkey
  exact fun hiff => hlong (depthExcess?_eq_none_iff.mp (hiff.mpr hshort)).1

end Value

end Wireframe
