import Mathlib.Tactic
import Wireframe.Proofs.FlatSections
import Wireframe.Proofs.Inheritance
import Wireframe.Proofs.Reports

/-!
# Entries of built documents

A document has a table of entries for each of its collections.  Every entry of a document
that is built from a canonical form was read from the canonical form of an entry of the
tree, so what the rules say about the entries of the tree is passed on to those of the
document.
-/

namespace Wireframe

theorem Value.root_eq_nil_of_check
    {settings : Settings} {positions : Positions} {tree : Value}
    (hcheck : tree.check settings positions = .ok []) :
    Rules.root settings tree = [] := by
  rcases findings_eq_ok_iff.mp (check_eq_ok_nil_iff.mp hcheck) with
    ⟨-, hreport⟩ | ⟨-, ⟨location, -, hreport⟩ | ⟨-, hroot⟩⟩
  · exact absurd hreport.symm (Rules.report_ne_nil _)
  · exact absurd hreport.symm (Rules.report_ne_nil _)
  · exact hroot.symm

theorem Verdict.root_eq_nil_of_check
    {settings : Settings} {reading : Yaml.Reading} (hcheck : check settings reading = .ok []) :
    Rules.root settings reading.tree.toValue = [] := by
  unfold check at hcheck
  split_ifs at hcheck
  · obtain ⟨-, hreport⟩ := Value.reportAll_eq_ok_iff.mp hcheck
    cases hreport
  · exact Value.root_eq_nil_of_check hcheck

namespace Canonical

open Element Reading

/-- Only what cannot be written keeps a tree without findings from having a canonical form. -/
theorem restructure_eq_error
    {settings : Settings} {positions : Positions} {tree : Value}
    (hcheck : tree.check settings positions = .ok [])
    (hnone : ∀ r, restructure settings tree ≠ .ok r) :
    restructure settings tree = .error (.notWritten .longInteger) := by
  rcases succeedsFor_restructure (Value.root_eq_nil_of_check hcheck) with
    ⟨r, hok⟩ | ⟨⟨⟨⟩, hfail⟩, -⟩
  · exact absurd hok (hnone r)
  · exact hfail

/-- What the entries of a collection are in a document. -/
def entryType : CollectionKind → RecordType
  | .screens => .screen
  | .components => .component
  | .rules => .rule

theorem exists_documentAttribute (kind : CollectionKind) :
    ∃ a ∈ RecordType.document.attributes, a.name = kind.name ∧
      a.shape.kinds = [.tableOf (.record (entryType kind))] ∧
        a.shape.nullable = !kind.isRequired := by
  cases kind <;> decide

theorem exists_collectionKind
    {a : Attribute} (ha : a ∈ RecordType.document.attributes) :
    a.spellings = [a.name] ∧ ∃ kind, a.name = kind.name ∧
      a.shape.kinds = [.tableOf (.record (entryType kind))] := by
  have hall : ∀ a ∈ RecordType.document.attributes, a.spellings = [a.name] ∧
      ∃ kind ∈ CollectionKind.all, a.name = kind.name ∧
        a.shape.kinds = [.tableOf (.record (entryType kind))] := by decide
  obtain ⟨hsingle, kind, -, hkind⟩ := hall a ha
  exact ⟨hsingle, kind, hkind⟩

/-- Every entry of a built document is read from the canonical form of an entry of the tree,
whatever the tree is. -/
theorem exists_step_of_build
    {settings : Settings} {document : Entries} {r : Value × List Renaming}
    (hrestructure : restructure settings (.map document) = .ok r) {q : Reading}
    (hread : ofValue r.1 (.one (.record .document)) = .ok q) (kind : CollectionKind)
    {table : List (String × Element)}
    (htable : q.element.attribute? kind.name = some (.table table))
    {x : String × Element} (hx : x ∈ table) :
    ∃ c w, Collection.ofValue? (document.getD kind.name) = some c ∧ ∃ step ∈ c.steps,
      entryOf settings kind c step.2 = .ok w ∧ ReadsAs (.record (entryType kind)) w x.2 := by
  obtain ⟨document', attributes, heq, hobject, -, hcanonical⟩ := restructure_eq_ok hrestructure
  cases heq
  rw [hobject] at hread
  obtain ⟨a, ha, hname, hkind, -⟩ := exists_documentAttribute kind
  obtain ⟨e, he, hreads⟩ := exists_attribute? (by simp) hread ha
  rw [reads_iff_of_single (exists_collectionKind ha).1, hname] at hreads
  rw [hname] at he
  have hsame : e = .table table := Option.some.inj (he.symm.trans htable)
  subst hsame
  cases hget : Entries.get? kind.name (Entries.named attributes) with
  | none =>
      rw [hget] at hreads
      cases hdefault : a.default <;> rw [hdefault] at hreads <;> cases hreads
  | some w =>
      rw [hget] at hreads
      obtain ⟨exact, hreads⟩ := hreads
      have hfound := hcanonical kind
      rw [hget, IsCanonical] at hfound
      cases hc : Collection.ofValue? (document.getD kind.name) with
      | none => simp [hc] at hfound
      | some c =>
          simp only [hc, Option.some.injEq] at hfound
          obtain ⟨es, rfl, hes⟩ := hfound
          obtain ⟨y, hy, hentry⟩ := exists_of_mem_table hkind hreads hx
          obtain ⟨step, hstep, hok⟩ := hes y hy
          exact ⟨c, y.2, rfl, step, hstep, hok, hentry⟩

/-- What the rules say about the entries of a raw tree is passed on to the document. -/
theorem exists_entry_of_build
    {settings : Settings} {document : Entries} (hraw : ∀ e ∈ document, e.2.isRaw = true)
    (hroot : Rules.root settings (.map document) = []) {r : Value × List Renaming}
    (hrestructure : restructure settings (.map document) = .ok r) {q : Reading}
    (hread : ofValue r.1 (.one (.record .document)) = .ok q) (kind : CollectionKind)
    {table : List (String × Element)}
    (htable : q.element.attribute? kind.name = some (.table table))
    {x : String × Element} (hx : x ∈ table) :
    ∃ c v w, Collection.ofValue? (document.getD kind.name) = some c ∧ v.isRaw = true ∧
      Rules.IsEntry settings kind c v ∧ entryOf settings kind c v = .ok w ∧
        ReadsAs (.record (entryType kind)) w x.2 := by
  obtain ⟨c, w, hc, step, hstep, hok, hentry⟩ :=
    exists_step_of_build hrestructure hread kind htable hx
  obtain ⟨document', heq, hkinds⟩ := Rules.root_eq_nil_iff.mp hroot
  cases heq
  have hkind := hkinds kind
  simp only [Rules.HasCollection, hc] at hkind
  exact ⟨c, step.2, w, hc, isInherited_isRaw.steps (Entries.isRaw_getD hraw) hc step hstep,
    hkind.2 step hstep, hok, hentry⟩

/-- The screens of a built document have the fields of their sections, whatever the tree is. -/
theorem hasFlatSections_of_build
    {settings : Settings} {document : Entries} {r : Value × List Renaming}
    (hrestructure : restructure settings (.map document) = .ok r) {q : Reading}
    (hread : ofValue r.1 (.one (.record .document)) = .ok q) :
    ∀ screens, q.element.attribute? "view" = some (.table screens) →
      ∀ x ∈ screens, x.2.HasFlatSections := by
  intro screens hscreens x hx
  obtain ⟨c, w, -, step, -, hok, hscreen⟩ :=
    exists_step_of_build hrestructure hread .screens hscreens hx
  rw [entryOf_screens] at hok
  exact hasFlatSections_of_screen hok hscreen

end Canonical

namespace Document

open Reading

theorem build_eq_ok_iff
    {tree : Value} {d : Document} :
    build tree = .ok d ↔
      ∃ exact, ofValue tree (.one (.record .document)) = .ok ⟨d.root, exact⟩ := by
  obtain ⟨root⟩ := d
  unfold build Value.readAs
  cases ofValue tree (.one (.record .document)) with
  | error faults => simp [Except.map]
  | ok r =>
      obtain ⟨element, exact⟩ := r
      simp [Except.map]

theorem build_eq_error_iff
    {tree : Value} {faults : List Fault} :
    build tree = .error faults ↔ ofValue tree (.one (.record .document)) = .error faults := by
  unfold build Value.readAs
  cases ofValue tree (.one (.record .document)) <;> simp [Except.map]

theorem exists_table_of_mem
    {d : Document} {kind : CollectionKind} {x : String × Element} (hx : x ∈ d.collection kind) :
    ∃ table, d.root.attribute? kind.name = some (.table table) ∧ x ∈ table := by
  unfold collection at hx
  cases he : d.root.attribute? kind.name with
  | none =>
      rw [he] at hx
      cases hx
  | some e =>
      rw [he] at hx
      cases e with
      | table entries => exact ⟨entries, rfl, hx⟩
      | _ => cases hx

end Document

end Wireframe
