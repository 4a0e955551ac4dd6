import Mathlib.Tactic
import Wireframe.Proofs.Documents
import Wireframe.Proofs.Shorthands

/-!
# Calm readings of canonical forms

Reading ends abruptly where an integer of too many digits should become text.  The canonical form
of a tree that can be written holds no such integer, but for the sizes of pages that the settings
have and that no reading wants as text.  So it is read calmly, whatever the settings are.
-/

namespace Wireframe

namespace Canonical

open Reading

variable {settings : Settings}

/-- A record is read calmly if its attributes are, for a missing one does not end the reading. -/
theorem calm_object
    {t : RecordType} (ht : ∀ f, t ≠ .field f) {attributes : List (String × Value)}
    (hwritten : ∀ a ∈ t.attributes, ∀ name ∈ a.spellings, ∀ v,
      Entries.get? name (Entries.named attributes) = some v → Fails Calm (ofValue v a.shape)) :
    Fails Calm (ofValue (object attributes) (.one (.record t))) := by
  rw [object, ofValue_record]
  apply fails_readRecord isStable_calm.add
  · intro a ha
    rw [expand_of_not_field ht]
    apply fails_readAttribute
    · intro spelling o hspelled
      obtain ⟨hspelling, hfind⟩ := written?_eq_some hspelled
      rw [find?_offers] at hfind
      obtain ⟨v, hget, rfl⟩ := Option.map_eq_some_iff.mp hfind
      exact isStable_calm.mono_under (hwritten a ha spelling hspelling v hget) _
    · exact fun _ _ => isStable_calm.missing a.name
  · exact fun heq => absurd heq (ht _)

theorem calm_tables
    {labels filterLabels : List String} {name : String} {s : Shape}
    (hkinds : s.kinds = [.listOf .field]) :
    Fails Calm (ofValue (.list [tableOf settings labels filterLabels name]) s) := by
  apply fails_of_items isStable_calm.add hkinds
  intro i x hx
  rw [List.mem_singleton.mp (List.mem_of_getElem? hx)]
  exact (isReadable_tableOf settings labels filterLabels name).fails _

/-- A screen is read calmly if what it does not have from a table can be written. -/
theorem calm_screen
    {attributes : List (String × Value)}
    (hattributes : ∀ a ∈ attributes, a.2.hasText = true ∨ IsTable settings a) :
    Fails Calm (ofValue (object attributes) (.one (.record .screen))) := by
  have hfields : ∀ a ∈ RecordType.screen.attributes, "fields" ∈ a.spellings →
      a.shape.kinds = [.listOf .field] := by decide
  refine calm_object (by simp) fun a ha name hname v hget => ?_
  rw [Entries.get?_named] at hget
  obtain ⟨e, he, rfl⟩ := Option.map_eq_some_iff.mp hget
  obtain rfl : e.1 = name := by simpa using List.find?_some he
  rcases hattributes e (List.mem_of_find?_eq_some he) with htext | ⟨_, _, _, rfl⟩
  · exact calm_of_hasText htext (RecordType.kinds_ne_nil ha)
  · exact calm_tables (hfields a ha hname)

theorem calm_of_inherits
    {kind : CollectionKind} {w : Value}
    (hw : Inherits settings (fun v => v.hasText = true) kind w) :
    Fails Calm (ofValue w (.one (.record (entryType kind)))) := by
  rcases hw with htext | ⟨rfl, attributes, rfl, hattributes⟩
  · exact calm_of_hasText htext (List.cons_ne_nil _ _)
  · exact calm_screen hattributes

theorem calm_collection
    {kind : CollectionKind} {es : List (String × Value)}
    (hes : ∀ x ∈ es, Inherits settings (fun v => v.hasText = true) kind x.2) {s : Shape}
    (hkinds : s.kinds = [.tableOf (.record (entryType kind))]) :
    Fails Calm (ofValue (object es) s) := by
  rw [object, ofValue_of_single hkinds rfl (by simp)]
  apply fails_readTable isStable_calm.add
  intro o ho
  obtain ⟨e, he, rfl⟩ := List.mem_map.mp ho
  obtain ⟨x, hx, rfl⟩ := List.mem_map.mp he
  apply fails_readEntry isStable_calm.add
  · exact fun cause hcause => by cases hcause
  · exact isStable_calm.mono_under (calm_of_inherits (hes x hx)) _

/-- The canonical form of a tree that can be written is read calmly. -/
theorem calm_restructure
    {tree : Value} (htext : tree.hasText = true) (hroot : Rules.root settings tree = [])
    {r : Value × List Renaming} (hrestructure : restructure settings tree = .ok r) :
    Fails Calm (ofValue r.1 (.one (.record .document))) := by
  obtain ⟨document, attributes, rfl, hobject, -, hcanonical⟩ := restructure_eq_ok hrestructure
  obtain ⟨document', heq, hkinds⟩ := Rules.root_eq_nil_iff.mp hroot
  cases heq
  rw [hobject]
  refine calm_object (by simp) fun a ha name hname w hget => ?_
  obtain ⟨hsingle, kind, hkind, hshape⟩ := exists_collectionKind ha
  rw [hsingle, List.mem_singleton, hkind] at hname
  subst hname
  obtain ⟨es, rfl, hes⟩ :=
    exists_entries isInherited_hasText htext (hkinds kind) (hget ▸ hcanonical kind)
  exact calm_collection hes hshape

end Canonical

namespace Document

/-- What cannot be built of a tree that can be written has no abrupt fault. -/
theorem calm_of_build
    {settings : Settings} {tree : Value} (htext : tree.hasText = true)
    (hroot : Rules.root settings tree = []) {canonical : Value} {renamings : List Renaming}
    (hrestructure : Canonical.restructure settings tree = .ok (canonical, renamings))
    {faults : List Fault} (hbuild : build canonical = .error faults) :
    Reading.Calm faults :=
  Canonical.calm_restructure htext hroot hrestructure faults (build_eq_error_iff.mp hbuild)

end Document

end Wireframe
