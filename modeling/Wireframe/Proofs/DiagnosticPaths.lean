import Mathlib.Tactic
import Wireframe.Proofs.FaultOrigins
import Wireframe.Proofs.FindingLocations
import Wireframe.Proofs.Totality

/-!
# Paths of diagnostics

What the rules find is reported at a node of the tree that was read.  What cannot be built is
reported at a node of its canonical form, which is a value that is written in an entry of the
tree.
-/

namespace Wireframe

namespace Canonical

open Reading Rules

/-- The location in the canonical form of a document leads to a value that is written in an
entry of the document. -/
inductive IsRooted (document : Entries) (canonical : Value) : Location → Prop
  | entry {kind : CollectionKind} {c : Collection} {keys : List String} {i : Nat} {step : Step}
      {raw : Entries} {key : String} {source below : Location} {x : Value}
      (hcollection : Collection.ofValue? (document.getD kind.name) = some c)
      (hentry : c.steps[i]? = some (step, .map raw))
      (hkeys : AreKeysOf kind c keys) (hkey : keys[i]? = some key)
      (hcarries : Carries raw kind c.isKeyed source below)
      (hsource : (Value.map document).At Step.Meets (.name kind.name :: step :: source) x)
      (hcanonical : canonical.At Step.Meets (.name kind.name :: .name key :: below) x) :
      IsRooted document canonical (.name kind.name :: .name key :: below)

/-- The faults of the canonical form of a document lead to values that are written in it. -/
def AreRooted (document : Entries) (canonical : Value) (faults : List Fault) : Prop :=
  ∀ f ∈ faults, IsRooted document canonical (canonical.trail f.location)

theorem isAdditive_areRooted
    (document : Entries) (canonical : Value) :
    IsAdditive (AreRooted document canonical) :=
  isAdditive_forall _

section Document

variable {settings : Settings} {document : Entries} {kind : CollectionKind} {c : Collection}
  {entries : Entries} {es : List (String × Value)}

theorem isRooted_of_isTraced
    (hc : Collection.ofValue? (document.getD kind.name) = some c)
    (hget : Entries.get? kind.name entries = some (object es))
    (hnodup : (es.map Prod.fst).Nodup) (hkeys : AreKeysOf kind c (es.map Prod.fst)) {i : Nat}
    {x : String × Value} (hx : es[i]? = some x) {step : Step} {raw : Entries}
    (hstep : c.steps[i]? = some (step, .map raw)) {l : Location}
    (htraced : IsTraced raw kind c.isKeyed x.2 l) :
    IsRooted document (.map entries)
      ((Value.map entries).trail (.name kind.name :: .name x.1 :: l)) := by
  obtain ⟨source, y, hcarries, hsource, hat⟩ := htraced
  have hentry : Entries.get? x.1 (Entries.named es) = some x.2 :=
    Entries.get?_named_of_mem hnodup (List.mem_of_getElem? hx)
  have hdescend : (Value.map entries).descend? [.name kind.name, .name x.1] = some x.2 := by
    rw [Value.descend?_name hget]
    exact Value.descend?_name hentry []
  have hchild := Value.child_of_isPresent (Collection.isPresent_of_ofValue? hc)
  have hpart := child_of_mem_steps hc (List.mem_of_getElem? hstep)
  have hroot : (Value.map document).At Step.Spells [.name kind.name, step] (.map raw) :=
    .child hchild hpart.at
  have htrail := Value.trail_append hdescend l
  rw [List.cons_append, List.cons_append, List.nil_append] at htrail
  rw [htrail]
  refine .entry hc hstep hkeys ?_ hcarries (hroot.meets.append hsource) ?_
  · rw [List.getElem?_map, hx]
    rfl
  · exact (Value.at_of_descend? hdescend).append hat

theorem fails_collection
    (hc : Collection.ofValue? (document.getD kind.name) = some c)
    (hget : Entries.get? kind.name entries = some (object es))
    (hnodup : (es.map Prod.fst).Nodup) (hkeys : AreKeysOf kind c (es.map Prod.fst))
    (hforms : List.Forall₂ (fun step x => entryOf settings kind c step.2 = .ok x.2) c.steps es)
    (hentries : ∀ y ∈ c.steps, IsEntry settings kind c y.2) {s : Shape}
    (hkinds : s.kinds = [.tableOf (.record (entryType kind))]) :
    Fails (fun faults => AreRooted document (.map entries)
      (Fault.under (.name kind.name) faults)) (ofValue (object es) s) := by
  have hadd := isAdditive_under (isAdditive_areRooted document (.map entries)) (.name kind.name)
  rw [object, ofValue_of_single hkinds rfl (by simp)]
  apply fails_readTable hadd
  intro o ho
  obtain ⟨e, he, rfl⟩ := List.mem_map.mp ho
  obtain ⟨x, hx, rfl⟩ := List.mem_map.mp he
  apply fails_readEntry hadd
  · intro cause hcause
    cases hcause
  · intro faults hfaults
    obtain ⟨i, hi⟩ := List.getElem?_of_mem hx
    obtain ⟨⟨step, v⟩, hstep, hw⟩ := exists_getElem?_of_forall₂ hforms hi
    obtain ⟨raw, rfl, hfails⟩ := fails_entryOf (hentries _ (List.mem_of_getElem? hstep)) hw
    simp only [AreRooted, Fault.under, List.forall_mem_map]
    intro f hf
    exact isRooted_of_isTraced hc hget hnodup hkeys hi hstep (hfails faults hfaults f hf)

/-- What the canonical form has of a collection is made of the entries of the collection, and
what it has to have is there. -/
theorem isWritten_or_isAbsent
    (hkinds : ∀ kind, HasCollection settings document kind) {renamings : List Renaming}
    (hrestructure : restructure settings (.map document) = .ok (.map entries, renamings))
    (kind : CollectionKind) :
    (∃ c es, Collection.ofValue? (document.getD kind.name) = some c ∧
      Entries.get? kind.name entries = some (object es) ∧ (es.map Prod.fst).Nodup ∧
      AreKeysOf kind c (es.map Prod.fst) ∧
      List.Forall₂ (fun step x => entryOf settings kind c step.2 = .ok x.2) c.steps es ∧
      ∀ y ∈ c.steps, IsEntry settings kind c y.2) ∨
    (Entries.get? kind.name entries = none ∧ kind.isRequired = false) := by
  obtain ⟨attributes, hobject, hfound⟩ := exists_found_of_restructure hrestructure kind
  cases Value.map.inj hobject
  have hhas := hkinds kind
  unfold HasCollection at hhas
  cases hc : Collection.ofValue? (document.getD kind.name) with
  | none =>
      simp only [hc] at hfound hhas
      exact .inr ⟨hfound, hhas.2⟩
  | some c =>
      simp only [hc] at hfound hhas
      obtain ⟨one, hcollection, hget⟩ := hfound
      obtain ⟨es, heq, hnodup, hkeys, hforms⟩ :=
        exists_entries_of_collection hhas.1 hcollection
      rw [heq] at hget
      exact .inl ⟨c, es, rfl, hget, hnodup, hkeys, hforms, hhas.2⟩

/-- Whatever is wrong with the canonical form of a document is written in its entries. -/
theorem fails_restructure
    (hkinds : ∀ kind, HasCollection settings document kind) {canonical : Value}
    {renamings : List Renaming}
    (hrestructure : restructure settings (.map document) = .ok (canonical, renamings)) :
    Fails (AreRooted document canonical) (ofValue canonical (.one (.record .document))) := by
  have hrequired : ∀ a ∈ RecordType.document.attributes,
      a.default = .required → a.name = CollectionKind.screens.name := by decide
  have hentries : ∃ entries, canonical = .map entries := by
    obtain ⟨attributes, hobject, -⟩ := exists_found_of_restructure hrestructure .screens
    exact ⟨_, hobject⟩
  obtain ⟨entries, rfl⟩ := hentries
  have hwritten := isWritten_or_isAbsent hkinds hrestructure
  rw [ofValue_record]
  apply fails_of_written (isAdditive_areRooted _ _) (by simp) (expand_of_not_field (by simp) _)
  · intro a ha name hname v hget
    obtain ⟨hsingle, kind, hkind, hshape⟩ := exists_collectionKind ha
    have hsame : name = kind.name := by
      rw [hsingle, List.mem_singleton] at hname
      rw [hname, hkind]
    subst hsame
    rcases hwritten kind with ⟨c, es, hc, hsome, hnodup, hkeys, hforms, hall⟩ | ⟨hnone, -⟩
    · rw [hsome] at hget
      cases hget
      exact fails_collection hc hsome hnodup hkeys hforms hall hshape
    · rw [hnone] at hget
      cases hget
  · intro a ha hdefault hnone
    rw [hrequired a ha hdefault] at hnone
    rcases hwritten .screens with ⟨c, es, -, hsome, -⟩ | ⟨-, hoptional⟩
    · rw [hsome] at hnone
      cases hnone
    · cases hoptional

end Document

end Canonical

namespace Verdict

open Canonical

theorem isRooted_of_ofTree
    {settings : Settings} {tree : Value} (hroot : Rules.root settings tree = [])
    {ds : List Diagnostic} {renamings : List Renaming}
    (hrejected : ofTree settings tree = .ok (.rejected ds, renamings)) :
    ∃ document canonical, tree = .map document ∧
      restructure settings tree = .ok (canonical, renamings) ∧
        ∀ d ∈ ds, ∃ l, d.path = l.render ∧ IsRooted document canonical l := by
  obtain ⟨document, rfl, hkinds⟩ := Rules.root_eq_nil_iff.mp hroot
  obtain ⟨canonical, hrestructure, hverdict⟩ := ofTree_eq_ok_iff.mp hrejected
  refine ⟨document, canonical, rfl, hrestructure, ?_⟩
  obtain ⟨faults, hbuild, rfl⟩ := exists_faults_of_rejected hverdict
  intro d hd
  obtain ⟨f, hf, rfl⟩ := List.mem_map.mp hd
  have hread := Document.build_eq_error_iff.mp hbuild
  have hrooted := fails_restructure hkinds hrestructure faults hread f hf
  exact ⟨canonical.trail f.location, rfl, hrooted⟩

/-- The paths of all diagnostics of a text that can be read lead to what is written in it: to
nodes of the tree that was read if the rules find something, and otherwise to values in its
canonical form that are written in its entries. -/
theorem diagnostics_are_rooted
    {settings : Settings} {input : Yaml.Input} {reading : Yaml.Reading}
    (hread : Yaml.Reading.ofInput .strict settings.maxDepth input = .ok reading)
    {ds : List Diagnostic} {renamings : List Renaming}
    (hrejected : ofInput settings input = .ok (.rejected ds, renamings)) :
    (check settings reading = .ok ds ∧
        ∀ d ∈ ds, ∃ l x, d.path = l.render ∧ reading.tree.toValue.At Step.Spells l x) ∨
      (check settings reading = .ok [] ∧
        ∃ document canonical, reading.tree.toValue = .map document ∧
          restructure settings reading.tree.toValue = .ok (canonical, renamings) ∧
            ∀ d ∈ ds, ∃ l, d.path = l.render ∧ IsRooted document canonical l) := by
  unfold ofInput at hrejected
  rw [hread] at hrejected
  dsimp only at hrejected
  split at hrejected
  next => cases hrejected
  next hcheck => exact .inr ⟨hcheck, isRooted_of_ofTree (root_eq_nil_of_check hcheck) hrejected⟩
  next hcheck =>
    cases hrejected
    exact .inl ⟨hcheck, fun d hd => exists_at_of_mem_check hcheck hd⟩

/-- A screen in a list, whose field has a number of rows that is no number. -/
def manyRows : Yaml.Input :=
  .text ("view:\n  - name: Home\n    fields:\n" ++
    "      - \x7bfield_name: notes, type: textarea, rows: many\x7d\n").toList

/-- A path among the diagnostics is the path of no node of the tree. -/
def leadsOutside (tree : Value) : Verdict → Bool
  | accepted _ => false
  | rejected ds => ds.any fun d => tree.locations.all fun l => l.render != d.path

theorem exists_rejected_manyRows :
    ∃ reading ds renamings,
      Yaml.Reading.ofInput .strict Settings.default.maxDepth manyRows = .ok reading ∧
        ofInput .default manyRows = .ok (.rejected ds, renamings) ∧
          ∃ d ∈ ds, ∀ l ∈ reading.tree.toValue.locations, l.render ≠ d.path := by
  have houtside : ((Yaml.Reading.ofInput .strict Settings.default.maxDepth manyRows).toOption.any
      fun reading => (ofInput .default manyRows).toOption.any fun r =>
        leadsOutside reading.tree.toValue r.1) = true := by
    decide +kernel
  cases hread : Yaml.Reading.ofInput .strict Settings.default.maxDepth manyRows with
  | error f =>
      rw [hread] at houtside
      cases houtside
  | ok reading =>
      cases hinput : ofInput .default manyRows with
      | error mishap =>
          rw [hread, hinput] at houtside
          cases houtside
      | ok r =>
          rw [hread, hinput] at houtside
          obtain ⟨verdict, renamings⟩ := r
          cases verdict with
          | accepted d => cases houtside
          | rejected ds =>
              obtain ⟨d, hd, hall⟩ := List.any_eq_true.mp houtside
              refine ⟨reading, ds, renamings, rfl, rfl, d, hd, fun l hl => ?_⟩
              simpa using List.all_eq_true.mp hall l hl

/-- What is wrong with the field of the listed screen is written in the screen. -/
theorem diagnostics_are_rooted_manyRows :
    ∃ reading ds renamings document canonical,
      Yaml.Reading.ofInput .strict Settings.default.maxDepth manyRows = .ok reading ∧
        ofInput .default manyRows = .ok (.rejected ds, renamings) ∧
          restructure .default (.map document) = .ok (canonical, renamings) ∧
            ∀ d ∈ ds, ∃ l, d.path = l.render ∧ IsRooted document canonical l := by
  obtain ⟨reading, ds, renamings, hread, hrejected, d, hd, houtside⟩ := exists_rejected_manyRows
  rcases diagnostics_are_rooted hread hrejected with
    ⟨-, hpaths⟩ | ⟨-, document, canonical, htree, hrestructure, hrooted⟩
  · obtain ⟨l, x, hpath, hat⟩ := hpaths d hd
    exact absurd hpath.symm (houtside l (Value.mem_locations_of_at hat))
  · rw [htree] at hrestructure
    exact ⟨reading, ds, renamings, document, canonical, hread, hrejected, hrestructure, hrooted⟩

/-- A path by the key of a listed entry is the path of no node of the tree that was read. -/
theorem exists_path_outside_tree :
    ∃ reading ds renamings,
      Yaml.Reading.ofInput .strict Settings.default.maxDepth manyRows = .ok reading ∧
        ofInput .default manyRows = .ok (.rejected ds, renamings) ∧
          ∃ d ∈ ds, ¬ ∃ l x, d.path = l.render ∧ reading.tree.toValue.At Step.Spells l x := by
  obtain ⟨reading, ds, renamings, hread, hrejected, d, hd, houtside⟩ := exists_rejected_manyRows
  refine ⟨reading, ds, renamings, hread, hrejected, d, hd, ?_⟩
  rintro ⟨l, x, hpath, hat⟩
  exact houtside l (Value.mem_locations_of_at hat) hpath.symm

end Verdict

end Wireframe
