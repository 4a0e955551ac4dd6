import Mathlib.Data.List.Forall2
import Mathlib.Tactic
import Wireframe.Proofs.FindingLocations

/-!
# Reported nodes

The check of a tree reports one diagnostic for each finding, in order.  A diagnostic leads to a
node of the tree by its path, and it has the place that is recorded for the location of the
node, or no place if none is recorded.
-/

namespace Wireframe

/-- The place of the diagnostic is the one that is recorded for a location. -/
structure Diagnostic.HasPlaceOf (d : Diagnostic) (positions : Positions) (location : Location) :
    Prop where
  known : ∀ place, (location, place) ∈ positions →
    d.line = some place.line ∧ d.column = some place.column
  unknown : (∀ place, (location, place) ∉ positions) → d.line = none ∧ d.column = none

/-- The diagnostic tells a finding about a node of the tree, by its path and its place. -/
structure Diagnostic.Reports (d : Diagnostic) (tree : Value) (positions : Positions)
    (f : Finding) : Prop where
  kind : d.kind = f.kind
  message : d.message = f.problem.message
  node : ∃ x, tree.At Step.Spells f.location x
  path : d.path = f.location.render
  place : d.HasPlaceOf positions f.location

namespace Positions

variable {positions : Positions} {location : Location}

theorem placeOf?_eq_some_iff
    (hdistinct : (positions.map Prod.fst).Nodup) {place : Position} :
    positions.placeOf? location = some place ↔ (location, place) ∈ positions := by
  unfold placeOf?
  constructor
  · intro hplace
    obtain ⟨p, hfind, rfl⟩ := Option.map_eq_some_iff.mp hplace
    obtain rfl : p.1 = location := by simpa using List.find?_some hfind
    exact List.mem_of_find?_eq_some hfind
  · intro hmem
    rw [find?_fst_of_mem hdistinct hmem]
    rfl

theorem placeOf?_eq_none
    (hnone : ∀ place, (location, place) ∉ positions) :
    positions.placeOf? location = none := by
  unfold placeOf?
  rw [Option.map_eq_none_iff, List.find?_eq_none]
  rintro ⟨other, place⟩ hmem hsame
  obtain rfl : other = location := by simpa using hsame
  exact hnone place hmem

end Positions

theorem Finding.hasPlaceOf_diagnose
    {positions : Positions} (hdistinct : (positions.map Prod.fst).Nodup) (f : Finding) :
    (f.diagnose positions).HasPlaceOf positions f.location where
  known place hmem := by
    have hplace := (Positions.placeOf?_eq_some_iff hdistinct).mpr hmem
    exact ⟨congrArg (Option.map Position.line) hplace,
      congrArg (Option.map Position.column) hplace⟩
  unknown hnone := by
    have hplace := Positions.placeOf?_eq_none hnone
    exact ⟨congrArg (Option.map Position.line) hplace,
      congrArg (Option.map Position.column) hplace⟩

namespace Value

/-- Whatever the tree, the settings and the recorded positions are, the diagnostics of a check
report the findings one by one, each at a node of the tree.  There are diagnostics and findings
if the tree can be written. -/
theorem check_reports_findings
    (settings : Settings) (tree : Value) {positions : Positions}
    (hdistinct : (positions.map Prod.fst).Nodup) :
    (∀ ds, tree.check settings positions = .ok ds → ∃ fs, tree.findings settings = .ok fs ∧
        List.Forall₂ (fun d f => d.Reports tree positions f) ds fs) ∧
      (tree.hasText = true → ∃ ds, tree.check settings positions = .ok ds) := by
  refine ⟨fun ds hcheck => ?_, fun htext => exists_check htext settings positions⟩
  obtain ⟨fs, hfindings, -, rfl⟩ := check_eq_ok_iff.mp hcheck
  refine ⟨fs, hfindings, ?_⟩
  rw [List.forall₂_map_left_iff, List.forall₂_same]
  intro f hf
  exact {
    kind := rfl
    message := rfl
    node := exists_at_of_mem_findings hfindings hf
    path := rfl
    place := f.hasPlaceOf_diagnose hdistinct }

/-- A document with a keyed screen whose action is of no known type and has no label. -/
def jumping : Value :=
  .map [(.text "view", .map [(.text "home", .map [
    (.text "title", .text "Home"),
    (.text "actions", .list [.map [(.text "id", .text "go"), (.text "type", .text "jump")]])])])]

/-- The places of the action and of its type. -/
def jumpingPositions : Positions :=
  let action : Location := [.name "view", .name "home", .name "actions", .place 0]
  [(action ++ [.name "type"], ⟨4, 21⟩), (action, ⟨4, 9⟩)]

/-- The type of the action is reported at its own place and the missing label at that of the
action. -/
theorem check_reports_findings_jumping :
    (jumpingPositions.map Prod.fst).Nodup ∧ jumping.hasText = true ∧
      ∃ ds fs, jumping.check .default jumpingPositions = .ok ds ∧
        jumping.findings .default = .ok fs ∧ ds.map Diagnostic.line = [some 4, some 4] ∧
        List.Forall₂ (fun d f => d.Reports jumping jumpingPositions f) ds fs := by
  have hdistinct : (jumpingPositions.map Prod.fst).Nodup := by decide
  have htext : jumping.hasText = true := by decide
  obtain ⟨hreports, hthere⟩ := check_reports_findings .default jumping hdistinct
  obtain ⟨ds, hds⟩ := hthere htext
  obtain ⟨fs, hfs, hall⟩ := hreports ds hds
  have hlines : (jumping.check .default jumpingPositions).map (List.map Diagnostic.line) =
      .ok [some 4, some 4] := by
    decide +kernel
  rw [hds] at hlines
  exact ⟨hdistinct, htext, ds, fs, hds, hfs, Except.ok.inj hlines, hall⟩

end Value

end Wireframe
