import Mathlib.Tactic
import Wireframe.DiagnosticForm
import Wireframe.Proofs.CalmForms

/-!
# Verdicts for everything that can be read

Nothing keeps a tree that can be written from being checked and, if nothing is found in it, from
being brought into canonical form, and what cannot be built from that is rejected with a report.
No report is empty, and the checks of diagnostics accept all that is reported.
-/

namespace Wireframe

namespace Diagnostic

/-- A line or a column as an attribute. -/
def placeValue : Option Nat → Value
  | none => .null
  | some i => .integer i

/-- The attributes that a diagnostic is made from. -/
def attributes (d : Diagnostic) : List (String × Value) :=
  [("kind", .text d.kind.name), ("message", .text d.message), ("path", .text d.path),
    ("line", placeValue d.line), ("column", placeValue d.column)]

/-- The checks of diagnostics accept what the diagnostic is made from. -/
def IsAccepted (d : Diagnostic) : Prop := ofAttributes d.attributes = .ok d

theorem readKind_name (kind : DiagnosticKind) : readKind (.text kind.name) = .ok kind := by
  cases kind <;> decide

theorem readPlace_placeValue (place : Option Nat) : readPlace (placeValue place) = .ok place := by
  cases place with
  | none => rfl
  | some i =>
      have hleast : ¬ (i : Int) < 0 := by omega
      have hcoerce : Coercion.toIntegerFrom (some 0) (.integer i) = .ok ⟨i, true⟩ := by
        change (if (i : Int) < 0 then Except.error (.below 0) else Except.ok _) = _
        rw [if_neg hleast]
      have hpresent : (placeValue (some i)).isPresent = true := rfl
      unfold readPlace
      rw [if_pos hpresent]
      unfold placeValue Given.readScalar
      rw [hcoerce]
      rfl

theorem isAccepted (d : Diagnostic) : d.IsAccepted := by
  have hkind : readNeeded d.attributes "kind" readKind = .ok d.kind := by
    change (readKind (.text d.kind.name)).mapError _ = _
    rw [readKind_name]
    rfl
  have hline : Given.readNamed d.attributes "line" none readPlace = .ok d.line := by
    change (readPlace (placeValue d.line)).mapError _ = _
    rw [readPlace_placeValue]
    rfl
  have hcolumn : Given.readNamed d.attributes "column" none readPlace = .ok d.column := by
    change (readPlace (placeValue d.column)).mapError _ = _
    rw [readPlace_placeValue]
    rfl
  unfold IsAccepted ofAttributes
  simp only [hkind, hline, hcolumn]
  rfl

/-- A report of a failure has diagnostics, and all of them are accepted. -/
structure IsReport (ds : List Diagnostic) : Prop where
  ne_nil : ds ≠ []
  accepted : ∀ d ∈ ds, d.IsAccepted

end Diagnostic

namespace Document

/-- What cannot be built is told by at least one fault. -/
theorem faults_ne_nil
    {canonical : Value} {faults : List Fault} (hbuild : build canonical = .error faults) :
    faults ≠ [] := by
  have htells := (Reading.offerTells_of canonical).one (.record .document)
  exact htells faults (build_eq_error_iff.mp hbuild)

end Document

namespace Verdict

open Diagnostic

/-- A canonical form is accepted with the document that is built from it, or rejected with a
report of the faults that stand in the way, unless one of these ends all reading. -/
theorem ofCanonical_cases (canonical : Value) :
    (∃ d, Document.build canonical = .ok d ∧ ofCanonical canonical = .ok (.accepted d)) ∨
      ∃ faults, Document.build canonical = .error faults ∧
        (ofCanonical canonical = .ok (.rejected (faults.map (Fault.diagnose canonical))) ∧
            IsReport (faults.map (Fault.diagnose canonical)) ∨
          (∃ cause, ofCanonical canonical = .error (.notWritten cause)) ∧
            ¬ Reading.Calm faults) := by
  unfold ofCanonical
  cases hbuild : Document.build canonical with
  | ok d => exact .inl ⟨d, rfl, rfl⟩
  | error faults =>
      refine .inr ⟨faults, rfl, ?_⟩
      dsimp only
      split
      next cause hcause =>
        obtain ⟨f, hf, habrupt⟩ := List.exists_of_findSome?_eq_some hcause
        exact .inr ⟨⟨cause, rfl⟩, fun hcalm => by cases (hcalm f hf).symm.trans habrupt⟩
      next =>
        have hfaults := Document.faults_ne_nil hbuild
        exact .inl ⟨rfl, by simpa using hfaults, fun d _ => d.isAccepted⟩

/-- A canonical form is rejected for the faults of building it only. -/
theorem exists_faults_of_rejected
    {canonical : Value} {ds : List Diagnostic}
    (hrejected : ofCanonical canonical = .ok (.rejected ds)) :
    ∃ faults, Document.build canonical = .error faults ∧
      ds = faults.map (Fault.diagnose canonical) := by
  rcases ofCanonical_cases canonical with
    ⟨d, -, haccepted⟩ | ⟨faults, hbuild, ⟨hreport, -⟩ | ⟨⟨cause, hfail⟩, -⟩⟩
  · cases haccepted.symm.trans hrejected
  · cases hreport.symm.trans hrejected
    exact ⟨faults, hbuild, rfl⟩
  · cases hfail.symm.trans hrejected

theorem ofTree_eq
    {settings : Settings} {tree canonical : Value} {renamings : List Renaming}
    (hrestructure : Canonical.restructure settings tree = .ok (canonical, renamings)) :
    ofTree settings tree = (ofCanonical canonical).map fun verdict => (verdict, renamings) := by
  simp only [ofTree, hrestructure, Except.mapError, bind, Except.bind]
  cases ofCanonical canonical <;> rfl

/-- The verdict for a tree is that for its canonical form. -/
theorem ofTree_eq_ok_iff
    {settings : Settings} {tree : Value} {verdict : Verdict} {renamings : List Renaming} :
    ofTree settings tree = .ok (verdict, renamings) ↔
      ∃ canonical, Canonical.restructure settings tree = .ok (canonical, renamings) ∧
        ofCanonical canonical = .ok verdict := by
  cases hrestructure : Canonical.restructure settings tree with
  | error o => simp [ofTree, hrestructure, Except.mapError, bind, Except.bind]
  | ok r =>
      obtain ⟨canonical, others⟩ := r
      rw [ofTree_eq hrestructure]
      cases hverdict : ofCanonical canonical with
      | error mishap => simp [Except.map, hverdict]
      | ok v => simp [Except.map, hverdict, and_comm]

/-- Checking a tree that can be written reports what is accepted as diagnostics.  If it reports
nothing, the tree has a canonical form, and that is built or rejected with a report. -/
theorem ofTree_total
    (settings : Settings) (positions : Positions) {tree : Value} (htext : tree.hasText = true) :
    ∃ ds, tree.check settings positions = .ok ds ∧ (∀ d ∈ ds, d.IsAccepted) ∧
      (ds = [] →
        ∃ canonical renamings,
          Canonical.restructure settings tree = .ok (canonical, renamings) ∧
            ((∃ d, Document.build canonical = .ok d ∧
                ofTree settings tree = .ok (.accepted d, renamings)) ∨
              ∃ faults, Document.build canonical = .error faults ∧
                ofTree settings tree =
                    .ok (.rejected (faults.map (Fault.diagnose canonical)), renamings) ∧
                  IsReport (faults.map (Fault.diagnose canonical)))) := by
  obtain ⟨ds, hcheck⟩ := Value.exists_check htext settings positions
  refine ⟨ds, hcheck, fun d _ => d.isAccepted, ?_⟩
  rintro rfl
  have hroot := Value.root_eq_nil_of_check hcheck
  obtain ⟨⟨canonical, renamings⟩, hrestructure⟩ :=
    (Canonical.succeedsFor_restructure hroot).exists_ok htext
  refine ⟨canonical, renamings, hrestructure, ?_⟩
  rw [ofTree_eq hrestructure]
  rcases ofCanonical_cases canonical with
    ⟨d, hbuild, haccepted⟩ | ⟨faults, hbuild, ⟨hrejected, hreport⟩ | ⟨-, habrupt⟩⟩
  · exact .inl ⟨d, hbuild, by rw [haccepted]; rfl⟩
  · exact .inr ⟨faults, hbuild, by rw [hrejected]; rfl, hreport⟩
  · exact absurd (Document.calm_of_build htext hroot hrestructure hbuild) habrupt

/-- A screen that is titled by a list, which is present but is no text. -/
def listTitled : Value :=
  Canonical.object [("view", Canonical.object [("home", Canonical.object [
    ("title", .list [.text "Home"])])])]

theorem ofTree_total_listTitled :
    listTitled.hasText = true ∧ listTitled.check .default [] = .ok [] ∧
      ∃ ds, ofTree .default listTitled = .ok (.rejected ds, []) ∧ IsReport ds := by
  have htext : listTitled.hasText = true := by decide
  have hnone : listTitled.check .default [] = .ok [] := rfl
  refine ⟨htext, hnone, ?_⟩
  have hrejected : ∃ ds, ofTree .default listTitled = .ok (.rejected ds, []) := ⟨_, rfl⟩
  obtain ⟨ds, hds⟩ := hrejected
  obtain ⟨found, hcheck, -, htotal⟩ := ofTree_total .default [] htext
  obtain ⟨canonical, renamings, -, ⟨d, -, htree⟩ | ⟨faults, -, htree, hreport⟩⟩ :=
    htotal (Except.ok.inj (hcheck.symm.trans hnone))
  · rw [hds] at htree
    cases htree
  · rw [hds] at htree
    cases htree
    exact ⟨_, hds, hreport⟩

end Verdict

end Wireframe
