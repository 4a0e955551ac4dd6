import Mathlib.Tactic
import Wireframe.Proofs.Builders
import Wireframe.Proofs.FailureLines
import Wireframe.Proofs.FindingLines

/-!
# Lines of a report

A report has a line for each diagnostic if, and only if, no path and no message holds the end of
a line.  That is so for what is found wrong with a tree whose keys and texts are one line each,
and for what keeps a text from being read, unless it is a character that is refused.
-/

namespace Wireframe

open Text

namespace Diagnostic

/-- Nothing that the diagnostic shows ends the line. -/
structure IsOneLine (d : Diagnostic) : Prop where
  path : Text.IsOneLine d.path
  message : Text.IsOneLine d.message

theorem render_eq (d : Diagnostic) :
    d.render = "[" ++ d.kind.name ++ "]" ++ d.locationText ++ ": " ++ d.message := rfl

theorem render_ne_empty (d : Diagnostic) : d.render ≠ "" := by
  intro hempty
  have hlist := congrArg String.toList hempty
  simp [render_eq, String.toList_append] at hlist

theorem isOneLine_place (line column : Option Nat) :
    Text.IsOneLine (match line, column with
      | none, _ => ""
      | some line, none => " (line " ++ toString (line + 1) ++ ")"
      | some line, some column =>
        " (line " ++ toString (line + 1) ++ ", column " ++ toString (column + 1) ++ ")") := by
  split
  · decide
  · simp only [isOneLine_append, isOneLine_natText, and_true]
    decide
  · simp only [isOneLine_append, isOneLine_natText, and_true]
    decide

theorem isOneLine_locationText_iff (d : Diagnostic) :
    Text.IsOneLine d.locationText ↔ Text.IsOneLine d.path := by
  have hpath : Text.IsOneLine
      (if d.path.isEmpty then "" else " at \"" ++ d.path ++ "\"") ↔ Text.IsOneLine d.path := by
    split_ifs with hempty
    · rw [String.isEmpty_iff.mp hempty]
    · simp only [isOneLine_append]
      exact ⟨fun h => h.1.2, fun h => ⟨⟨by decide, h⟩, by decide⟩⟩
  refine (isOneLine_append (t := _)).trans ?_
  exact ⟨fun h => hpath.mp h.1, fun h => ⟨hpath.mpr h, isOneLine_place d.line d.column⟩⟩

theorem isOneLine_render_iff (d : Diagnostic) : Text.IsOneLine d.render ↔ d.IsOneLine := by
  have hname : Text.IsOneLine d.kind.name := by cases d.kind <;> decide
  simp only [render_eq, isOneLine_append, isOneLine_locationText_iff, hname, and_true]
  constructor
  · rintro ⟨⟨⟨-, hpath⟩, -⟩, hmessage⟩
    exact ⟨hpath, hmessage⟩
  · rintro ⟨hpath, hmessage⟩
    exact ⟨⟨⟨⟨by decide, by decide⟩, hpath⟩, by decide⟩, hmessage⟩

/-- A report has the diagnostics as its lines iff nothing that they show ends a line. -/
theorem lines_renderAll_iff (ds : List Diagnostic) :
    lines (renderAll ds) = ds.map render ↔ ∀ d ∈ ds, d.IsOneLine := by
  have hne : ∀ s ∈ ds.map render, s ≠ "" := by
    intro s hs
    obtain ⟨d, -, rfl⟩ := List.mem_map.mp hs
    exact d.render_ne_empty
  unfold renderAll
  rw [lines_intercalate_iff hne, List.forall_mem_map]
  exact forall₂_congr fun d _ => d.isOneLine_render_iff

end Diagnostic

namespace Value

/-- What is found wrong with a tree of one-lined keys and texts is told in one line each. -/
theorem isOneLine_of_mem_findings
    {settings : Settings} {positions : Positions} {tree : Value} (htree : tree.IsOneLined)
    {fs : List Finding} (hfindings : tree.findings settings = .ok fs) {f : Finding}
    (hf : f ∈ fs) :
    (f.diagnose positions).IsOneLine := by
  obtain ⟨x, hx⟩ := exists_at_of_mem_findings hfindings hf
  exact {
    path := Location.isOneLine_render (htree.keys f.location x hx)
    message := areTerse_findings htree hfindings f hf }

end Value

namespace Verdict

theorem isOneLine_of_mem_check
    {settings : Settings} {reading : Yaml.Reading} (htree : reading.tree.toValue.IsOneLined)
    {ds : List Diagnostic} (hcheck : check settings reading = .ok ds) {d : Diagnostic}
    (hd : d ∈ ds) :
    d.IsOneLine := by
  obtain ⟨fs, rfl, hfs⟩ := exists_findings_of_check hcheck
  obtain ⟨f, hf, rfl⟩ := List.mem_map.mp hd
  rcases hfs with rfl | hfindings
  · cases List.mem_singleton.mp hf
    exact ⟨isOneLine_of_all rfl, Problem.isOneLine_message nofun⟩
  · exact Value.isOneLine_of_mem_findings htree hfindings hf

/-- The report of a text that is rejected has its diagnostics as its lines if the text cannot be
read and no complaint about it shows the end of a line, or if the rules find something in its
tree and no key and no text of the tree has one. -/
theorem lines_of_rejected
    {settings : Settings} {input : Yaml.Input} {ds : List Diagnostic} {renamings : List Renaming}
    (hrejected : ofInput settings input = .ok (.rejected ds, renamings))
    (hfailure : ∀ f, Yaml.Reading.ofInput .strict settings.maxDepth input = .error f → f.IsTerse)
    (hreading : ∀ reading, Yaml.Reading.ofInput .strict settings.maxDepth input = .ok reading →
      check settings reading ≠ .ok [] ∧ reading.tree.toValue.IsOneLined) :
    lines (Diagnostic.renderAll ds) = ds.map Diagnostic.render := by
  rw [Diagnostic.lines_renderAll_iff]
  unfold ofInput at hrejected
  cases hread : Yaml.Reading.ofInput .strict settings.maxDepth input with
  | error f =>
      rw [hread] at hrejected
      have hds : ds = f.diagnose?.toList := by
        cases f <;> cases hrejected <;> rfl
      intro d hd
      rw [hds, Option.mem_toList] at hd
      obtain ⟨hpath, hmessage⟩ := Yaml.Failure.isOneLine_of_diagnose? (hfailure f hread) hd
      exact ⟨hpath ▸ isOneLine_of_all rfl, hmessage⟩
  | ok reading =>
      obtain ⟨hcheck, htree⟩ := hreading reading hread
      rw [hread] at hrejected
      simp only at hrejected
      split at hrejected
      next => cases hrejected
      next hnone => exact absurd hnone hcheck
      next hreport =>
        cases hrejected
        exact fun d hd => isOneLine_of_mem_check htree hreport hd

theorem ofInput_of_check
    {settings : Settings} {input : Yaml.Input} {reading : Yaml.Reading} {d : Diagnostic}
    {ds : List Diagnostic}
    (hread : Yaml.Reading.ofInput .strict settings.maxDepth input = .ok reading)
    (hcheck : check settings reading = .ok (d :: ds)) :
    ofInput settings input = .ok (.rejected (d :: ds), []) := by
  unfold ofInput
  rw [hread]
  simp only [hcheck]

/-- A screen whose key holds what looks like a line of a report. -/
def forging : Yaml.Input := .text "view: \x7b\"home\\n[SYNTAX]: forged\": \x7b\x7d\x7d\n".toList

/-- What is reported about the screen. -/
def forged : Diagnostic where
  kind := .missingAttribute
  message := "Screen must have a \"title\""
  path := "view.home\n[SYNTAX]: forged"
  line := some 0
  column := some 33

/-- The report about the screen has one diagnostic and two lines, none of which tells it. -/
theorem exists_forged_line :
    ∃ d renamings, ofInput .default forging = .ok (.rejected [d], renamings) ∧
      lines (Diagnostic.renderAll [d]) =
        ["[MISSING_REQUIRED_FIELD] at \"view.home",
          "[SYNTAX]: forged\" (line 1, column 34): Screen must have a \"title\""] := by
  obtain ⟨reading, hread, hcheck⟩ : ∃ reading,
      Yaml.Reading.ofInput .strict Settings.default.maxDepth forging = .ok reading ∧
        ((check .default reading).toOption == some [forged]) = true :=
    Yaml.exists_eq_ok_of_any (by decide +kernel)
  exact ⟨forged, [], ofInput_of_check hread (Yaml.eq_ok_of_toOption (beq_iff_eq.mp hcheck)),
    by decide +kernel⟩

end Verdict

end Wireframe
