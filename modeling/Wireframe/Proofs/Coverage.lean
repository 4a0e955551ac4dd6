import Mathlib.Tactic
import Wireframe.Proofs.CompleteEntries
import Wireframe.Proofs.Needs

/-!
# The rules cover what screens need

What the rules ask for is never missing when the canonical form of a checked tree is read.
Every screen gets a title, and every action of a screen, a label that stands for one
included, has a known tag, an identifier, a label and a destination if it navigates.  In
screens by name that goes for wizards, their steps and the options of fields too.
-/

namespace Wireframe

/-- Whether the entries of a collection are keyed. -/
def Collection.isKeyed : Collection → Bool
  | keyed _ => true
  | listed _ => false

theorem Collection.isKeyed_of_ofValue?
    {v : Value} {c : Collection} (hc : ofValue? v = some c) :
    c.isKeyed = v.isMap := by
  cases v <;> cases hc <;> rfl

theorem Fault.kind_diagnose_ne
    {f : Fault} (htag : f.cause.isTag = false) (tree : Value) :
    (f.diagnose tree).kind ≠ .unknownType := by
  have hkind : (f.diagnose tree).kind = f.kind := rfl
  rw [hkind, Fault.kind]
  split
  · simp
  next tag known hcause =>
    rw [hcause] at htag
    cases htag
  · simp

namespace Canonical

open Needed Reading Rules

/-! ## Screens -/

/-- A label that stands for an action becomes an action that submits. -/
theorem isAction_expandAction
    {v : Value} (hv : v.isText = true ∨ v.IsMapOf IsAction) (place : Nat) :
    (expandAction v place).IsMapOf IsAction := by
  rcases hv with htext | hmap
  · obtain ⟨label, rfl⟩ := Value.eq_text_of_isText htext
    refine ⟨_, rfl, ?_, .submit, rfl, by simp⟩
    intro key hkey
    fin_cases hkey <;> rfl
  · obtain ⟨entries, rfl, haction⟩ := hmap
    exact ⟨entries, rfl, haction⟩

theorem mayHave_actions
    {settings : Settings} {raw : Entries} {parts : List (String × Value)}
    (hparts : HasContent settings raw parts)
    (hactions : raw.MayHave "actions" fun v => v.isText = true ∨ v.IsMapOf IsAction) :
    Entries.MayHave "actions" (Value.IsMapOf IsAction)
      (Entries.named (screenAttributes raw parts)) := by
  unfold Entries.MayHave Entries.getD
  rw [get?_screenAttributes_actions hparts]
  unfold actions
  cases hitems : (raw.getD "actions").items? with
  | none =>
      intro hpresent
      cases hpresent
  | some items =>
      refine fun _ => ⟨_, rfl, fun v hv => ?_⟩
      obtain ⟨x, hx, rfl⟩ := List.mem_map.mp hv
      exact isAction_expandAction
        (hactions.forall_items hitems x.1 (List.fst_mem_of_mem_zipIdx hx)) x.2

section Screen

variable {settings : Settings} {raw : Entries} {parts : List (String × Value)}
  (hparts : HasContent settings raw parts)

include hparts in
theorem fails_actions
    (hactions : raw.MayHave "actions" fun v => v.isText = true ∨ v.IsMapOf IsAction)
    {strict : Bool} {v : Value}
    (hv : Entries.get? "actions" (Entries.named (screenAttributes raw parts)) = some v) :
    Fails (Spare fun l => OfScreen strict (.name "actions" :: l))
      (ofValue v (Attribute.may "actions" (.listOf .action)).shape) := by
  apply fails_items (a := .may "actions" (.listOf .action)) rfl (mayHave_actions hparts hactions)
    _ hv
  intro x hx i
  exact (fails_action hx).spare_mono fun _ hneeded => hneeded.of_item.1 rfl

theorem titled_of_needed
    {strict : Bool} {name : String} (hneeded : OfScreen strict [.name name]) :
    (Entries.getD name (Entries.named (screenAttributes raw parts))).isPresent = true := by
  cases hneeded with
  | own =>
      rw [Entries.getD, get?_screenAttributes_title]
      exact isPresent_title raw
  | wizard hstrict hrest => cases hrest

include hparts

theorem fails_listedScreen
    (hscreen : IsListedScreen raw) :
    Fails (Spare (OfScreen false))
      (readRecord .screen (Entries.offers (Entries.named (screenAttributes raw parts)))) := by
  have hattributes : ∀ a ∈ RecordType.screen.attributes, a.name ∈ ["actions"] →
      a = .may "actions" (.listOf .action) := by decide
  have hleads : RecordType.screen.LeadsBy ["actions"] := by decide
  apply fails_record hleads
  · decide
  · intro name l hneeded
    cases hneeded with
    | own => exact .inl rfl
    | action hrest => exact .inr (List.mem_singleton_self _)
    | _ => contradiction
  · exact fun name _ hneeded => ⟨by simp, titled_of_needed hneeded⟩
  · intro a ha hname v hv
    obtain rfl := hattributes a ha hname
    exact fails_actions hparts hscreen.actions hv

theorem fails_wizardAttribute
    (hscreen : IsScreen settings raw) {v : Value}
    (hv : Entries.get? "wizard" (Entries.named (screenAttributes raw parts)) = some v) :
    Fails (Spare fun l => OfScreen true (.name "wizard" :: l))
      (ofValue v (Attribute.may "wizard" (.record .wizard)).shape) := by
  rw [get?_screenAttributes_kept hparts (by decide)] at hv
  split_ifs at hv with hpresent
  cases hv
  have hwizard := hscreen.wizard (by simpa [Entries.Has] using hpresent)
  have hread : ofValue (raw.getD "wizard") (Attribute.may "wizard" (.record .wizard)).shape =
      ofValue (raw.getD "wizard") (.one (.record .wizard)) :=
    ofValue_of_kinds (s := (Attribute.may "wizard" (.record .wizard)).shape)
      (t := .one (.record .wizard)) rfl hpresent
  rw [hread]
  exact (fails_wizard hwizard).spare_mono fun _ => OfScreen.of_wizard

theorem fails_keyedScreen
    (hscreen : IsScreen settings raw) :
    Fails (Spare (OfScreen true))
      (readRecord .screen (Entries.offers (Entries.named (screenAttributes raw parts)))) := by
  have hattributes : ∀ a ∈ RecordType.screen.attributes,
      a.name ∈ ["wizard", "sections", "fields", "actions"] →
        a = .may "wizard" (.record .wizard) ∨ a = .may "sections" (.listOf (.record .formSection)) ∨
          a = .may "fields" (.listOf .field) ∨ a = .may "actions" (.listOf .action) := by decide
  have hleads : RecordType.screen.LeadsBy ["wizard", "sections", "fields", "actions"] := by decide
  apply fails_record hleads
  · decide
  · intro name l hneeded
    cases hneeded with
    | own => exact .inl rfl
    | _ => exact .inr (by decide)
  · exact fun name _ hneeded => ⟨by simp, titled_of_needed hneeded⟩
  · intro a ha hname v hv
    rcases hattributes a ha hname with rfl | rfl | rfl | rfl
    · exact fails_wizardAttribute hparts hscreen hv
    · apply fails_items rfl (Element.mayHave_sections hscreen hparts) _ hv
      exact fun x hx i => (fails_section hx).spare_mono fun _ hneeded => hneeded.of_item.2.1 rfl
    · apply fails_fieldList rfl (Element.mayHave_fields hscreen hparts) _ hv
      exact fun place l hneeded => hneeded.of_item.2.2 rfl
    · refine fails_actions hparts (mayHave_mono ?_ hscreen.actions) hv
      exact fun _ => .inr

end Screen

/-! ## Collections of screens -/

theorem fails_entry
    {settings : Settings} {c : Collection} {v w : Value} (hentry : IsEntry settings .screens c v)
    (hw : entryOf settings .screens c v = .ok w) :
    Fails (Spare (OfScreen c.isKeyed)) (ofValue w (.one (.record .screen))) := by
  obtain ⟨raw, rfl, hwalkable⟩ := isWalkable_of_isEntry hentry
  rw [entryOf_screens] at hw
  obtain ⟨parts, hparts, rfl⟩ := screen_eq_ok hwalkable hw
  rw [object, ofValue_record]
  cases c with
  | keyed entries =>
      obtain ⟨raw', heq, hscreen⟩ := hentry
      cases heq
      exact fails_keyedScreen hparts hscreen
  | listed items =>
      obtain ⟨raw', heq, hscreen⟩ := hentry
      cases heq
      exact fails_listedScreen hparts hscreen

theorem fails_screens
    {settings : Settings} {c : Collection} {es : List (String × Value)}
    (hes : ∀ x ∈ es, ∃ v, IsEntry settings .screens c v ∧
      entryOf settings .screens c v = .ok x.2)
    {s : Shape} (hkinds : s.kinds = [.tableOf (.record .screen)]) :
    Fails (Spare fun l => ∃ key rest, l = key :: rest ∧ OfScreen c.isKeyed rest)
      (ofValue (object es) s) := by
  have hread : ofValue (object es) s =
      readTable (.record .screen) (Entries.offers (Entries.named es)) :=
    ofValue_of_single hkinds rfl nofun
  rw [hread]
  apply fails_readTable (isAdditive_spare _)
  intro o ho
  obtain ⟨e, he, rfl⟩ := List.mem_map.mp ho
  obtain ⟨x, hx, rfl⟩ := List.mem_map.mp he
  obtain ⟨v, hentry, hw⟩ := hes x hx
  apply fails_readEntry (isAdditive_spare _)
  · exact fun cause hcause => spare_under (spare_under (spare_toText hcause))
  · apply (fails_entry hentry hw).spare_below
    rintro l ⟨key, rest, heq, hneeded⟩
    cases heq
    exact hneeded

theorem exists_screens
    {settings : Settings} {document : Entries} {found : Option Value}
    (hscreens : HasCollection settings document .screens)
    (hfound : IsCanonical settings document .screens found) :
    ∃ c es, Collection.ofValue? (document.getD CollectionKind.screens.name) = some c ∧
      found = some (object es) ∧
        ∀ x ∈ es, ∃ v, IsEntry settings .screens c v ∧ entryOf settings .screens c v = .ok x.2 := by
  unfold HasCollection IsCanonical at *
  cases hc : Collection.ofValue? (document.getD CollectionKind.screens.name) with
  | none =>
      simp only [hc] at hscreens
      cases hscreens.2
  | some c =>
      simp only [hc] at hscreens hfound
      obtain ⟨es, rfl, hes⟩ := hfound
      refine ⟨c, es, rfl, rfl, fun x hx => ?_⟩
      obtain ⟨y, hy, hentry⟩ := hes x hx
      exact ⟨y.2, hscreens.2 y hy, hentry⟩

theorem fails_document
    {settings : Settings} {c : Collection} {attributes es : List (String × Value)}
    (hget : Entries.get? CollectionKind.screens.name (Entries.named attributes) =
      some (object es))
    (hes : ∀ x ∈ es, ∃ v, IsEntry settings .screens c v ∧
      entryOf settings .screens c v = .ok x.2) :
    Fails (SpareBelow (.name CollectionKind.screens.name) fun l =>
        ∃ key rest, l = key :: rest ∧ OfScreen c.isKeyed rest)
      (ofValue (object attributes) (.one (.record .document))) := by
  rw [object, ofValue_record]
  apply fails_readRecord (isAdditive_spareBelow _ _)
  · intro a ha
    obtain ⟨hsingle, kind, hname, hkinds⟩ := exists_collectionKind ha
    apply fails_readAttribute
    · intro spelling o hwritten faults hfaults
      apply spareBelow_under
      intro hview
      -- Only what is written under this name is read as screens.
      have hplain : a.name ≠ "id" ∧ a.name ≠ "label" ∧ a.name ≠ "text" := by
        rw [hname]
        cases kind <;> decide
      rw [written?_expand_of_single hsingle hplain] at hwritten
      obtain ⟨v, hvalue, heq⟩ := Option.map_eq_some_iff.mp hwritten
      cases heq
      have hview := Step.name.inj hview
      rw [hview, hget] at hvalue
      cases hvalue
      cases name_injective (hname.symm.trans hview)
      exact fails_screens hes hkinds faults hfaults
    · intro _ _
      apply spareBelow_under
      intro _ f hf
      rw [List.mem_singleton.mp hf]
      refine ⟨rfl, fun _ => ?_⟩
      rintro ⟨key, rest, heq, -⟩
      cases heq
  · exact fun _ key => spareBelow_under fun _ => spare_here rfl

end Canonical

namespace Document

open Canonical Needed Reading

/-- What a checked tree cannot be built for is never a tag below its screens, and never
something that a screen needs. -/
theorem faults_below_view
    {settings : Settings} {positions : Positions} {tree : Value}
    (hcheck : tree.check settings positions = .ok []) :
    ∃ document : Entries, tree = .map document ∧
      (tree.hasText = true → ∃ r, restructure settings tree = .ok r) ∧
      ∀ canonical renamings, restructure settings tree = .ok (canonical, renamings) →
        ∀ faults, build canonical = .error faults → ∀ f ∈ faults, ∀ below,
          f.location = .name CollectionKind.screens.name :: below →
            f.cause.isTag = false ∧ (f.diagnose canonical).kind ≠ .unknownType ∧
              (f.cause = .missing → ∀ key rest, below = key :: rest →
                ¬ OfScreen (document.getD CollectionKind.screens.name).isMap rest) := by
  have hroot := Value.root_eq_nil_of_check hcheck
  obtain ⟨document, rfl, hkinds⟩ := Rules.root_eq_nil_iff.mp hroot
  refine ⟨document, rfl, (succeedsFor_restructure hroot).exists_ok, ?_⟩
  intro canonical renamings hrestructure faults hbuild f hf below hbelow
  obtain ⟨document', attributes, heq, hobject, -, hcanonical⟩ := restructure_eq_ok hrestructure
  cases heq
  obtain ⟨c, es, hc, hget, hes⟩ := exists_screens (hkinds .screens) (hcanonical .screens)
  have hread := build_eq_error_iff.mp hbuild
  have hobject : canonical = object attributes := hobject
  rw [hobject] at hread
  obtain ⟨htag, hmissing⟩ := fails_document hget hes faults hread f hf below hbelow
  refine ⟨htag, Fault.kind_diagnose_ne htag canonical, ?_⟩
  · intro hcause key rest hrest hneeded
    rw [← Collection.isKeyed_of_ofValue? hc] at hneeded
    exact hmissing hcause ⟨key, rest, hrest, hneeded⟩

/-- A screen with an action and an option that have all they need, but for lists where texts
are wanted. -/
def listValued : Value :=
  object [("view", object [("home", object [
    ("title", .text "Home"),
    ("actions", .list [object [("id", .text "save"), ("type", .text "submit"),
      ("label", .list [])]]),
    ("fields", .list [object [
      ("id", .text "size"), ("type", .text "select"), ("label", .text "Size"),
      ("options", .list [object [("value", .list []), ("label", .text "Large")]])]])])])]

theorem faults_below_view_listValued :
    listValued.check .default [] = .ok [] ∧
      ∃ canonical renamings faults, restructure .default listValued = .ok (canonical, renamings) ∧
        build canonical = .error faults ∧
          (∃ f ∈ faults, ∃ rest, f.location = .name "view" :: .name "home" :: rest) ∧
          ∀ f ∈ faults, ∀ rest, f.location = .name "view" :: .name "home" :: rest →
            f.cause.isTag = false ∧ (f.cause = .missing → ¬ OfScreen true rest) := by
  refine ⟨rfl, _, _, _, rfl, rfl, ⟨_, List.mem_cons_self, _, rfl⟩, ?_⟩
  intro f hf rest hlocation
  obtain ⟨document, hdocument, -, hall⟩ := @faults_below_view .default [] listValued rfl
  cases hdocument
  obtain ⟨htag, -, hmissing⟩ := hall _ _ rfl _ rfl f hf _ hlocation
  exact ⟨htag, fun hcause => hmissing hcause _ _ rfl⟩

end Document

end Wireframe
