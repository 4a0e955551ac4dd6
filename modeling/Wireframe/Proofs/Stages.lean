import Mathlib.Tactic
import Wireframe.Proofs.Builders
import Wireframe.Proofs.Ceilings
import Wireframe.Proofs.DiagnosticPaths

/-!
# Stages of the work

An input is read, measured, checked by the rules and built.  A diagnostic tells by its kind and
its path which of these stages it comes from.  That an input cannot be read, that a document is
too large or that its root is no mapping is reported alone, and only the lack of the screens is
reported at the root of a document.
-/

namespace Wireframe

namespace Location

theorem extend_ne_empty
    {path : String} (hpath : path ≠ "") (step : Step) :
    extend path step ≠ "" := by
  have hempty : path.isEmpty = false := by simpa using hpath
  cases step <;> simp [extend, hpath, hempty]

/-- The path of a location that starts with a name is not empty. -/
theorem render_ne_empty
    {name : String} (hname : name ≠ "") (l : Location) :
    render (.name name :: l) ≠ "" := by
  have hfold (path : String) (hpath : path ≠ "") : l.foldl extend path ≠ "" := by
    induction l generalizing path with
    | nil => exact hpath
    | cons step l ih => exact ih _ (extend_ne_empty hpath step)
  exact hfold _ hname

end Location

theorem CollectionKind.name_ne_empty (kind : CollectionKind) : kind.name ≠ "" := by
  cases kind <;> decide

/-- A diagnostic that a required attribute of the document itself is missing. -/
def Diagnostic.isMissingAtRoot (d : Diagnostic) : Bool :=
  d.kind == .missingAttribute && d.path.isEmpty

theorem Diagnostic.isMissingAtRoot_of_path
    {d : Diagnostic} (hpath : d.path ≠ "") :
    d.isMissingAtRoot = false := by
  simp [isMissingAtRoot, hpath]

namespace Problem

theorem kind_ne_unreadable (problem : Problem) : problem.kind ≠ .unreadable := by
  cases problem <;> nofun

theorem kind_eq_wrongRoot_iff (problem : Problem) :
    problem.kind = .wrongRoot ↔ problem = .rootNotObject := by
  cases problem <;> simp [kind]

end Problem

theorem Fault.kind_ne
    (f : Fault) :
    f.kind ≠ .unreadable ∧ f.kind ≠ .wrongRoot := by
  unfold Fault.kind
  split <;> simp

namespace Rules

/-- What is missing at the root of a document is the screens, and that is told once. -/
theorem length_filter_documentPart
    (settings : Settings) (document : Entries) (positions : Positions) (kind : CollectionKind) :
    (((documentPart settings document kind).map (Finding.diagnose positions)).filter
        Diagnostic.isMissingAtRoot).length =
      if kind.isRequired && !(document.getD kind.name).isPresent then 1 else 0 := by
  cases hpresent : (document.getD kind.name).isPresent with
  | false =>
      rw [documentPart_of_absent settings hpresent]
      cases kind <;> rfl
  | true =>
      have hnone : ∀ d ∈ (documentPart settings document kind).map (Finding.diagnose positions),
          ¬ d.isMissingAtRoot = true := by
        rw [List.forall_mem_map]
        intro f hf
        obtain ⟨-, l, x, hlocation, -⟩ := areAt_presentPart settings hpresent f hf
        have hpath : (f.diagnose positions).path ≠ "" := by
          change f.location.render ≠ ""
          rw [hlocation]
          exact Location.render_ne_empty kind.name_ne_empty l
        simp [Diagnostic.isMissingAtRoot_of_path hpath]
      rw [List.filter_eq_nil_iff.mpr hnone]
      simp

theorem length_filter_root
    (settings : Settings) (document : Entries) (positions : Positions) :
    (((root settings (.map document)).map (Finding.diagnose positions)).filter
        Diagnostic.isMissingAtRoot).length =
      if (document.getD CollectionKind.screens.name).isPresent then 0 else 1 := by
  have hpart := length_filter_documentPart settings document positions
  simp only [root, CollectionKind.all, List.flatMap_cons, List.flatMap_nil, List.append_nil,
    List.map_append, List.filter_append, List.length_append, hpart]
  cases (document.getD CollectionKind.screens.name).isPresent <;> rfl

end Rules

namespace Verdict

/-- What is reported.  Nothing is if a document is accepted. -/
def diagnostics : Verdict → List Diagnostic
  | accepted _ => []
  | rejected ds => ds

/-- The tree has more values than the settings allow, or a container that is nested deeper. -/
def Exceeds (settings : Settings) (tree : Yaml.SharedTree) : Prop :=
  (∃ depth, settings.maxNodes < nodesWithin tree.children depth tree.root) ∨
    ∃ l x, tree.toValue.At Step.Spells l x ∧ x.IsContainer ∧ settings.maxDepth ≤ l.length

/-- Each stage of the work on what was read reports its own kinds of diagnostics. -/
structure KeepsStages (settings : Settings) (read : Except Yaml.Failure Yaml.Reading)
    (ds : List Diagnostic) : Prop where
  unreadable_iff : (∃ d ∈ ds, d.kind = .unreadable) ↔ ∃ f, read = .error f
  unreadable_alone : ∀ d ∈ ds, d.kind = .unreadable → ds = [d] ∧ d.path = ""
  exceeding : ∀ reading, read = .ok reading → Exceeds settings reading.tree →
    ∃ d, ds = [d] ∧ d.kind = .badValue
  wrongRoot_iff : ∀ reading, read = .ok reading → ¬ Exceeds settings reading.tree →
    ((∃ d ∈ ds, d.kind = .wrongRoot) ↔ reading.tree.toValue.isMap = false)
  wrongRoot_alone : ∀ d ∈ ds, d.kind = .wrongRoot → ds = [d]
  missingAtRoot : ∀ reading (document : Entries), read = .ok reading →
    ¬ Exceeds settings reading.tree →
    reading.tree.toValue = .map document →
      (ds.filter Diagnostic.isMissingAtRoot).length =
        if (document.getD CollectionKind.screens.name).isPresent then 0 else 1
  building : ∀ reading, read = .ok reading → check settings reading = .ok [] →
    ∀ d ∈ ds, d.kind ≠ .unreadable ∧ d.kind ≠ .wrongRoot ∧ d.path ≠ ""

variable {settings : Settings} {reading : Yaml.Reading}

/-! ## Reading -/

theorem keepsStages_of_error
    {f : Yaml.Failure} {d : Diagnostic} (hd : f.diagnose? = some d) :
    KeepsStages settings (.error f) [d] := by
  have hreport : d.kind = .unreadable ∧ d.path = "" := by
    unfold Yaml.Failure.diagnose? at hd
    split at hd <;> cases hd <;> exact ⟨rfl, rfl⟩
  exact {
    unreadable_iff := iff_of_true ⟨d, List.mem_singleton_self d, hreport.1⟩ ⟨f, rfl⟩
    unreadable_alone := fun e he _ => by
      rw [List.mem_singleton.mp he]
      exact ⟨rfl, hreport.2⟩
    exceeding := nofun
    wrongRoot_iff := nofun
    wrongRoot_alone := fun e he _ => by rw [List.mem_singleton.mp he]
    missingAtRoot := nofun
    building := nofun }

/-! ## Checking -/

/-- What the check reports is one finding if the tree exceeds a ceiling, and else what the rules
find. -/
theorem check_cases
    {ds : List Diagnostic} (hcheck : check settings reading = .ok ds) :
    (Exceeds settings reading.tree ∧ ∃ d, ds = [d] ∧ d.kind = .badValue) ∨
      ¬ Exceeds settings reading.tree ∧
        ds = (Rules.root settings reading.tree.toValue).map
          (Finding.diagnose reading.positions) := by
  unfold check at hcheck
  split_ifs at hcheck with hlarge
  · obtain ⟨-, rfl⟩ := Value.reportAll_eq_ok_iff.mp hcheck
    exact .inl ⟨.inl ((lt_countNodes_iff _ _ _).mp hlarge), _, rfl, rfl⟩
  · have hcount := mt (lt_countNodes_iff _ _ _).mpr hlarge
    obtain ⟨fs, hfindings, -, rfl⟩ := Value.check_eq_ok_iff.mp hcheck
    rcases Value.findings_eq_ok_iff.mp hfindings with
      ⟨hmany, -⟩ | ⟨-, ⟨location, hdeep, rfl⟩ | ⟨hnone, rfl⟩⟩
    · obtain ⟨depth, hmany⟩ := (lt_countNodes_iff _ _ _).mp (of_decide_eq_true hmany)
      have hunfold := reading.tree.nodesWithin_unfold_le
        (2 * reading.tree.containers.size + 2) [] reading.tree.root depth
      exact absurd ⟨depth, by unfold Yaml.SharedTree.toValue at hmany; omega⟩ hcount
    · obtain ⟨place, ⟨l, x, hnode, hx, -⟩, hlimit, -, -⟩ := Value.exists_isFirstAt hdeep
      have hat := Value.at_iff_exists_node?.mpr ⟨place, hnode⟩
      rw [← Value.length_of_node? hnode, List.length_nil, Nat.cast_zero, zero_add] at hlimit
      exact .inl ⟨.inr ⟨l, x, hat, hx, hlimit⟩, _, rfl, rfl⟩
    · refine .inr ⟨not_or.mpr ⟨hcount, ?_⟩, rfl⟩
      rintro ⟨l, x, hat, hx, hlimit⟩
      have hdepth := (Value.tooDeep?_eq_none_iff.mp hnone).2 l x hat hx
      simp only [List.length_nil] at hdepth
      omega

/-- The root of a tree is reported alone, and only if it is no mapping. -/
theorem kinds_of_root
    {positions : Positions} {tree : Value} {ds : List Diagnostic}
    (hds : ds = (Rules.root settings tree).map (Finding.diagnose positions)) :
    (∀ d ∈ ds, d.kind ≠ .unreadable) ∧
      (tree.isMap = false → ∃ d, ds = [d] ∧ d.kind = .wrongRoot) ∧
      (tree.isMap = true → ∀ d ∈ ds, d.kind ≠ .wrongRoot) := by
  subst hds
  simp only [List.forall_mem_map]
  refine ⟨fun f _ => f.problem.kind_ne_unreadable, fun hmap => ?_, fun hmap => ?_⟩
  · cases tree with
    | map document => cases hmap
    | _ => exact ⟨_, rfl, rfl⟩
  · cases tree with
    | map document =>
        intro f hf
        have hproblem := (Rules.areAt_root settings document f hf).1
        exact fun hkind =>
          hproblem ((Problem.kind_eq_wrongRoot_iff f.problem).mp hkind ▸ .rootNotObject)
    | _ => cases hmap

theorem keepsStages_of_exceeds
    (hexceeds : Exceeds settings reading.tree) (hfound : check settings reading ≠ .ok [])
    {d : Diagnostic} (hkind : d.kind = .badValue) :
    KeepsStages settings (.ok reading) [d] := by
  have hnone : ∀ e ∈ [d], e.kind ≠ .unreadable ∧ e.kind ≠ .wrongRoot := by
    intro e he
    rw [List.mem_singleton.mp he, hkind]
    decide
  exact {
    unreadable_iff := iff_of_false (fun ⟨e, he, h⟩ => (hnone e he).1 h) (by simp)
    unreadable_alone := fun e he h => absurd h (hnone e he).1
    exceeding := fun r hr _ => ⟨d, rfl, hkind⟩
    wrongRoot_iff := fun r hr hnot => by cases hr; exact absurd hexceeds hnot
    wrongRoot_alone := fun e he h => absurd h (hnone e he).2
    missingAtRoot := fun r document hr hnot => by cases hr; exact absurd hexceeds hnot
    building := fun r hr hnil => by cases hr; exact absurd hnil hfound }

theorem keepsStages_of_root
    (hexceeds : ¬ Exceeds settings reading.tree) (hfound : check settings reading ≠ .ok [])
    {ds : List Diagnostic}
    (hds : ds =
      (Rules.root settings reading.tree.toValue).map (Finding.diagnose reading.positions)) :
    KeepsStages settings (.ok reading) ds := by
  obtain ⟨hreadable, hroot, hmap⟩ := kinds_of_root hds
  exact {
    unreadable_iff := iff_of_false (fun ⟨e, he, h⟩ => hreadable e he h) (by simp)
    unreadable_alone := fun e he h => absurd h (hreadable e he)
    exceeding := fun r hr h => by cases hr; exact absurd h hexceeds
    wrongRoot_iff := fun r hr _ => by
      cases hr
      cases hkind : reading.tree.toValue.isMap with
      | false =>
          obtain ⟨d, rfl, hwrong⟩ := hroot hkind
          exact iff_of_true ⟨d, List.mem_singleton_self d, hwrong⟩ rfl
      | true => exact iff_of_false (fun ⟨e, he, h⟩ => hmap hkind e he h) nofun
    wrongRoot_alone := fun e he h => by
      cases hkind : reading.tree.toValue.isMap with
      | false =>
          obtain ⟨d, rfl, -⟩ := hroot hkind
          rw [List.mem_singleton.mp he]
      | true => exact absurd h (hmap hkind e he)
    missingAtRoot := fun r document hr _ hdocument => by
      cases hr
      rw [hds, hdocument]
      exact Rules.length_filter_root settings document reading.positions
    building := fun r hr hnil => by cases hr; exact absurd hnil hfound }

/-- What the check of a tree reports comes from the ceilings, from the root or from the rules
below the root. -/
theorem keepsStages_check
    {ds : List Diagnostic} (hcheck : check settings reading = .ok ds) (hfound : ds ≠ []) :
    KeepsStages settings (.ok reading) ds := by
  have hsome : check settings reading ≠ .ok [] := fun hnil =>
    hfound (Except.ok.inj (hcheck.symm.trans hnil))
  rcases check_cases hcheck with ⟨hexceeds, d, rfl, hkind⟩ | ⟨hexceeds, hds⟩
  · exact keepsStages_of_exceeds hexceeds hsome hkind
  · exact keepsStages_of_root hexceeds hsome hds

/-! ## Building -/

theorem kinds_of_ofTree
    {tree : Value} (hroot : Rules.root settings tree = []) {verdict : Verdict}
    {renamings : List Renaming} (htree : ofTree settings tree = .ok (verdict, renamings)) :
    ∀ d ∈ verdict.diagnostics, d.kind ≠ .unreadable ∧ d.kind ≠ .wrongRoot ∧ d.path ≠ "" := by
  cases verdict with
  | accepted document => nofun
  | rejected ds =>
      obtain ⟨document, other, -, -, hrooted⟩ := isRooted_of_ofTree hroot htree
      obtain ⟨canonical, -, hverdict⟩ := ofTree_eq_ok_iff.mp htree
      obtain ⟨faults, -, rfl⟩ := exists_faults_of_rejected hverdict
      intro d hd
      have hkind : d.kind ≠ .unreadable ∧ d.kind ≠ .wrongRoot := by
        obtain ⟨f, -, rfl⟩ := List.mem_map.mp hd
        exact f.kind_ne
      obtain ⟨l, hpath, hl⟩ := hrooted d hd
      refine ⟨hkind.1, hkind.2, ?_⟩
      rw [hpath]
      cases hl
      exact Location.render_ne_empty (CollectionKind.name_ne_empty _) _

/-- A tree that the rules find nothing in has the screens, so nothing is missing at its root. -/
theorem keepsStages_ofTree
    (hcheck : check settings reading = .ok []) {verdict : Verdict} {renamings : List Renaming}
    (htree : ofTree settings reading.tree.toValue = .ok (verdict, renamings)) :
    KeepsStages settings (.ok reading) verdict.diagnostics := by
  have hexceeds : ¬ Exceeds settings reading.tree := by
    rcases check_cases hcheck with ⟨-, d, hd, -⟩ | ⟨hexceeds, -⟩
    · cases hd
    · exact hexceeds
  have hroot := root_eq_nil_of_check hcheck
  have hkinds := kinds_of_ofTree hroot htree
  have hmap : reading.tree.toValue.isMap = true := by
    obtain ⟨document, hdocument, -⟩ := Rules.root_eq_nil_iff.mp hroot
    rw [hdocument]
    rfl
  exact {
    unreadable_iff := iff_of_false (fun ⟨e, he, h⟩ => (hkinds e he).1 h) (by simp)
    unreadable_alone := fun e he h => absurd h (hkinds e he).1
    exceeding := fun r hr h => by cases hr; exact absurd h hexceeds
    wrongRoot_iff := fun r hr _ => by
      cases hr
      exact iff_of_false (fun ⟨e, he, h⟩ => (hkinds e he).2.1 h) (by simp [hmap])
    wrongRoot_alone := fun e he h => absurd h (hkinds e he).2.1
    missingAtRoot := fun r document hr _ hdocument => by
      cases hr
      have hnone := Rules.length_filter_root settings document []
      rw [← hdocument, hroot] at hnone
      rw [← hnone]
      refine congrArg List.length (List.filter_eq_nil_iff.mpr fun e he => ?_)
      simp [Diagnostic.isMissingAtRoot_of_path (hkinds e he).2.2]
    building := fun r hr _ => hkinds }

/-! ## All stages -/

/-- Whatever the verdict for an input, each stage has reported its own kinds of diagnostics. -/
theorem keepsStages_ofInput
    {input : Yaml.Input} {verdict : Verdict} {renamings : List Renaming}
    (hinput : ofInput settings input = .ok (verdict, renamings)) :
    KeepsStages settings (Yaml.Reading.ofInput .strict settings.maxDepth input)
      verdict.diagnostics := by
  unfold ofInput at hinput
  split at hinput
  next => cases hinput
  next f hmisfit hread =>
    cases hinput
    rw [hread]
    cases hd : f.diagnose? with
    | some d => exact keepsStages_of_error hd
    | none =>
        cases f with
        | misfit m => exact absurd rfl (hmisfit m)
        | _ => cases hd
  next reading hread =>
    rw [hread]
    split at hinput
    next => cases hinput
    next hcheck => exact keepsStages_ofTree hcheck hinput
    next hfound hcheck =>
      cases hinput
      exact keepsStages_check hcheck hfound

/-- A document whose screens are null and whose components are no collection. -/
def nullScreens : Yaml.Input := .text "common_components: 3\nview: null\n".toList

/-- The lack of the screens is told at the root, whatever is wrong with the components. -/
theorem keepsStages_ofInput_nullScreens :
    ∃ verdict renamings, ofInput .default nullScreens = .ok (verdict, renamings) ∧
      verdict.diagnostics.length = 2 ∧
        KeepsStages .default
          (Yaml.Reading.ofInput .strict Settings.default.maxDepth nullScreens)
          verdict.diagnostics := by
  obtain ⟨r, hinput, hlength⟩ : ∃ r, ofInput .default nullScreens = .ok r ∧
      (r.1.diagnostics.length == 2) = true :=
    Yaml.exists_eq_ok_of_any (by decide +kernel)
  exact ⟨r.1, r.2, hinput, of_decide_eq_true hlength, keepsStages_ofInput hinput⟩

end Verdict

end Wireframe
