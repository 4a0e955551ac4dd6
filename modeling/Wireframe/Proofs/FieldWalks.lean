import Mathlib.Data.List.Nodup
import Mathlib.Tactic
import Wireframe.Proofs.FieldPositions

/-!
# Walks over fields

A walk lists the fields that a rule looks at, in its order and with their locations.  The
walk over a tree lists the strict fields of the tree.  It comes to no location twice if the
keys of a collection have different texts, since a location is left by different steps.
-/

namespace Wireframe

namespace Rules

abbrev Walk := Value → Location → List (Location × Value)

def walkMap (walk : Entries → Location → List (Location × Value)) : Walk
  | .map entries, location => walk entries location
  | _, _ => []

def walkItems (walk : Walk) (key : String) (entries : Entries) (location : Location) :
    List (Location × Value) :=
  ((entries.getD key).items?.getD []).zipIdx.flatMap fun item =>
    walk item.1 (location ++ [.name key, .place item.2])

def fieldsInStep : Walk := walkMap (walkItems fieldsBelow "fields")

def fieldsInWizard : Walk := walkMap (walkItems fieldsInStep "steps")

def fieldsInSection : Walk := walkMap (walkItems fieldsBelow "input_fields")

def fieldsInScreen : Walk :=
  walkMap fun entries location =>
    fieldsInWizard (entries.getD "wizard") (location ++ [.name "wizard"]) ++
    walkItems fieldsInSection "sections" entries location ++
    walkItems fieldsBelow "fields" entries location ++
    walkItems fieldsBelow "input_fields" entries location

def fieldsInComponent : Walk :=
  walkMap fun entries location =>
    if componentType? (entries.getD "type") == some .fieldGroup then
      walkItems fieldsBelow "fields" entries location
    else []

def fieldsInEntry : CollectionKind → Walk
  | .screens => fieldsInScreen
  | .components => fieldsInComponent
  | .rules => fun _ _ => []

def fieldsInCollection (document : Entries) (kind : CollectionKind) : List (Location × Value) :=
  match document.getD kind.name with
  | .map es => es.flatMap fun e => fieldsInEntry kind e.2 [.name kind.name, .name e.1.render]
  | _ => []

/-- The fields of a tree that strict rules look at. -/
def fieldsInTree : Value → List (Location × Value)
  | .map document => CollectionKind.all.flatMap (fieldsInCollection document)
  | _ => []

theorem fieldsBelow_map
    (entries : Entries) (location : Location) :
    fieldsBelow (.map entries) location =
      (location, .map entries) ::
        if isRepeater entries then walkItems fieldsBelow "item_fields" entries location
        else [] := by
  rw [fieldsBelow, fieldsOfEntries_eq]
  unfold walkItems
  cases (entries.getD "item_fields").items? with
  | none => rfl
  | some items =>
      simp only [fieldsOfItems_eq_flatMap, Option.getD_some, List.append_assoc,
        List.singleton_append]

theorem fieldsBelow_of_not_map
    {v : Value} (hmap : v.isMap = false) (location : Location) :
    fieldsBelow v location = [(location, v)] := by
  cases v with
  | map entries => cases hmap
  | _ => rfl

/-! ## Fields of walks -/

section Membership

variable {tree : Value} {entries : Entries} {location : Location} {p : Location × Value}

theorem mem_walkMap
    {walk : Entries → Location → List (Location × Value)} {v : Value} :
    p ∈ walkMap walk v location ↔ ∃ entries, v = .map entries ∧ p ∈ walk entries location := by
  cases v <;> simp [walkMap]

theorem mem_walkItems
    {walk : Walk} {key : String} :
    p ∈ walkItems walk key entries location ↔
      ∃ i v, Entries.HasItem key i v entries ∧
        p ∈ walk v (location ++ [.name key, .place i]) := by
  unfold walkItems Entries.HasItem
  rw [List.mem_flatMap]
  cases hitems : (entries.getD key).items? with
  | none => simp
  | some items =>
      simp only [Option.getD_some, Option.some.injEq, exists_eq_left']
      constructor
      · rintro ⟨⟨v, i⟩, hv, hp⟩
        exact ⟨i, v, List.mk_mem_zipIdx_iff_getElem?.mp hv, hp⟩
      · rintro ⟨i, v, hv, hp⟩
        exact ⟨(v, i), List.mk_mem_zipIdx_iff_getElem?.mpr hv, hp⟩

theorem mem_fieldsInTree :
    p ∈ fieldsInTree tree ↔
      ∃ kind key entries, tree.HasKeyed kind key entries ∧
        p ∈ fieldsInEntry kind (.map entries) [.name kind.name, .name key.render] := by
  constructor
  · intro hp
    cases tree with
    | map document =>
        obtain ⟨kind, -, hkind⟩ := List.mem_flatMap.mp hp
        unfold fieldsInCollection at hkind
        cases hes : Entries.getD kind.name document with
        | map es =>
            rw [hes] at hkind
            obtain ⟨⟨key, v⟩, he, hfield⟩ := List.mem_flatMap.mp hkind
            have hmap : ∃ entries, v = .map entries := by
              cases kind with
              | screens => exact (mem_walkMap.mp hfield).imp fun _ h => h.1
              | components => exact (mem_walkMap.mp hfield).imp fun _ h => h.1
              | rules => cases hfield
            obtain ⟨entries, rfl⟩ := hmap
            exact ⟨kind, key, entries, ⟨document, es, rfl, hes, he⟩, hfield⟩
        | _ =>
            rw [hes] at hkind
            cases hkind
    | _ => cases hp
  · rintro ⟨kind, key, entries, ⟨document, es, rfl, hes, he⟩, hp⟩
    refine List.mem_flatMap.mpr ⟨kind, by cases kind <;> decide, ?_⟩
    rw [fieldsInCollection, hes]
    exact List.mem_flatMap.mpr ⟨_, he, hp⟩

theorem mem_fieldsInTree_of_top
    {v : Value} (htop : IsTopField tree location v) (hp : p ∈ fieldsBelow v location) :
    p ∈ fieldsInTree tree := by
  rw [mem_fieldsInTree]
  cases htop with
  | @own key screen name i _ hscreen hname hv =>
      refine ⟨.screens, key, screen, hscreen, ?_⟩
      have hitem : p ∈ walkItems fieldsBelow name screen [.name "view", .name key.render] :=
        mem_walkItems.mpr ⟨i, v, hv, hp⟩
      rcases hname with rfl | rfl
      · exact List.mem_append_left _ (List.mem_append_right _ hitem)
      · exact List.mem_append_right _ hitem
  | @ofSection key screen part i j _ hscreen hsection hv =>
      refine ⟨.screens, key, screen, hscreen, ?_⟩
      have hitem : p ∈ walkItems fieldsInSection "sections" screen
          [.name "view", .name key.render] :=
        mem_walkItems.mpr ⟨i, _, hsection, mem_walkItems.mpr ⟨j, v, hv, hp⟩⟩
      exact List.mem_append_left _ (List.mem_append_left _ (List.mem_append_right _ hitem))
  | @ofStep key screen wizard step i j _ hscreen hwizard hstep hv =>
      refine ⟨.screens, key, screen, hscreen, ?_⟩
      have hitem : p ∈ fieldsInWizard (Entries.getD "wizard" screen)
          [.name "view", .name key.render, .name "wizard"] := by
        rw [hwizard]
        exact mem_walkItems.mpr ⟨i, _, hstep, mem_walkItems.mpr ⟨j, v, hv, hp⟩⟩
      exact List.mem_append_left _ (List.mem_append_left _ (List.mem_append_left _ hitem))
  | @ofComponent key component i _ hcomponent htype hv =>
      refine ⟨.components, key, component, hcomponent, ?_⟩
      have hknown :
          (componentType? (Entries.getD "type" component) == some .fieldGroup) = true := by
        rw [beq_iff_eq, componentType?_eq_fieldGroup_iff, htype]
      have hitem : p ∈ walkItems fieldsBelow "fields" component
          [.name "common_components", .name key.render] :=
        mem_walkItems.mpr ⟨i, v, hv, hp⟩
      simp only [fieldsInEntry, fieldsInComponent, walkMap, hknown, if_true]
      exact hitem

theorem exists_top_of_mem
    (hp : p ∈ fieldsInTree tree) :
    ∃ location v, IsTopField tree location v ∧ p ∈ fieldsBelow v location := by
  obtain ⟨kind, key, entries, hkeyed, hp⟩ := mem_fieldsInTree.mp hp
  cases kind with
  | screens =>
      simp only [fieldsInEntry, fieldsInScreen, walkMap, List.mem_append] at hp
      rcases hp with ((hwizard | hsections) | hfields) | hfields
      · obtain ⟨wizard, hget, hsteps⟩ := mem_walkMap.mp hwizard
        obtain ⟨i, v, hstep, hfields⟩ := mem_walkItems.mp hsteps
        obtain ⟨step, rfl, hfields⟩ := mem_walkMap.mp hfields
        obtain ⟨j, v, hv, hp⟩ := mem_walkItems.mp hfields
        exact ⟨_, v, .ofStep hkeyed hget hstep hv, hp⟩
      · obtain ⟨i, v, hsection, hfields⟩ := mem_walkItems.mp hsections
        obtain ⟨part, rfl, hfields⟩ := mem_walkMap.mp hfields
        obtain ⟨j, v, hv, hp⟩ := mem_walkItems.mp hfields
        exact ⟨_, v, .ofSection hkeyed hsection hv, hp⟩
      · obtain ⟨i, v, hv, hp⟩ := mem_walkItems.mp hfields
        exact ⟨_, v, .own hkeyed (.inl rfl) hv, hp⟩
      · obtain ⟨i, v, hv, hp⟩ := mem_walkItems.mp hfields
        exact ⟨_, v, .own hkeyed (.inr rfl) hv, hp⟩
  | components =>
      simp only [fieldsInEntry, fieldsInComponent, walkMap] at hp
      split_ifs at hp with htype
      · obtain ⟨i, v, hv, hp⟩ := mem_walkItems.mp hp
        rw [beq_iff_eq, componentType?_eq_fieldGroup_iff] at htype
        exact ⟨_, v, .ofComponent hkeyed htype hv, hp⟩
      · cases hp
  | rules => cases hp

theorem mem_fieldsBelow_self (v : Value) (location : Location) :
    (location, v) ∈ fieldsBelow v location := by
  cases v <;> exact List.mem_cons_self

theorem isRepeater_iff_type :
    isRepeater entries = true ↔ Entries.getD "type" entries = .text FieldType.repeater.tag := by
  rw [isRepeater, beq_iff_eq, Value.text?_eq_some_iff]

/-- What the items of a mapping are is decided by its entries. -/
theorem exists_mem_of_hasItem
    {key : String} {i : Nat} {v : Value} (hv : Entries.HasItem key i v entries) :
    ∃ e ∈ entries, ∃ items, e.2.items? = some items ∧ v ∈ items := by
  obtain ⟨items, hitems, hget⟩ := hv
  obtain ⟨k, hmem, -⟩ :=
    Entries.get?_mem (Entries.get?_of_isPresent (Value.isPresent_of_items? hitems))
  exact ⟨_, hmem, items, hitems, List.mem_of_getElem? hget⟩

theorem isStrictField_of_mem_fieldsBelow
    {v : Value} (hfield : IsStrictField tree location v) (hp : p ∈ fieldsBelow v location) :
    IsStrictField tree p.1 p.2 := by
  induction v using Value.mapInductionOn generalizing location p with
  | map entries ih =>
      rw [fieldsBelow_map] at hp
      rcases List.mem_cons.mp hp with rfl | hbelow
      · exact hfield
      · split_ifs at hbelow with hrepeater
        · obtain ⟨i, w, hw, hp⟩ := mem_walkItems.mp hbelow
          obtain ⟨e, he, items, hitems, hmem⟩ := exists_mem_of_hasItem hw
          exact ih e he items hitems w hmem
            (.repeated hfield (isRepeater_iff_type.mp hrepeater) hw) hp
        · cases hbelow
  | other v hmap =>
      rw [fieldsBelow_of_not_map hmap, List.mem_singleton] at hp
      subst hp
      exact hfield

theorem mem_fieldsBelow_of_repeated
    {v w : Value} {below : Location} {i : Nat}
    (hmem : (below, .map entries) ∈ fieldsBelow v location)
    (htype : Entries.getD "type" entries = .text FieldType.repeater.tag)
    (hw : Entries.HasItem "item_fields" i w entries) :
    (below ++ [.name "item_fields", .place i], w) ∈ fieldsBelow v location := by
  induction v using Value.mapInductionOn generalizing location with
  | map outer ih =>
      rw [fieldsBelow_map] at hmem ⊢
      rcases List.mem_cons.mp hmem with heq | hbelow
      · cases heq
        rw [if_pos (isRepeater_iff_type.mpr htype)]
        exact List.mem_cons_of_mem _
          (mem_walkItems.mpr ⟨i, w, hw, mem_fieldsBelow_self w _⟩)
      · split_ifs at hbelow ⊢ with hrepeater
        · obtain ⟨j, u, hu, hmem⟩ := mem_walkItems.mp hbelow
          obtain ⟨e, he, items, hitems, hitem⟩ := exists_mem_of_hasItem hu
          exact List.mem_cons_of_mem _
            (mem_walkItems.mpr ⟨j, u, hu, ih e he items hitems u hitem hmem⟩)
        · cases hbelow
  | other v hmap =>
      rw [fieldsBelow_of_not_map hmap, List.mem_singleton] at hmem
      cases hmem
      cases hmap

/-- The walk over a tree comes to its strict fields. -/
theorem mem_fieldsInTree_iff
    {v : Value} :
    (location, v) ∈ fieldsInTree tree ↔ IsStrictField tree location v := by
  constructor
  · intro hp
    obtain ⟨_, _, htop, hbelow⟩ := exists_top_of_mem hp
    exact isStrictField_of_mem_fieldsBelow (.top htop) hbelow
  · intro hfield
    induction hfield with
    | top htop => exact mem_fieldsInTree_of_top htop (mem_fieldsBelow_self _ _)
    | repeated hfield htype hv ih =>
        obtain ⟨_, _, htop, hbelow⟩ := exists_top_of_mem ih
        exact mem_fieldsInTree_of_top htop (mem_fieldsBelow_of_repeated hbelow htype hv)

end Membership

/-! ## Locations of walks -/

/-- No location comes twice, and all of them go on from a location. -/
def Spread (location : Location) (fields : List (Location × Value)) : Prop :=
  (fields.map Prod.fst).Nodup ∧ ∀ p ∈ fields, location <+: p.1

section Spread

variable {location : Location} {entries : Entries}

theorem spread_nil (location : Location) : Spread location [] := by simp [Spread]

theorem Spread.of_append
    {more : Location} {fields : List (Location × Value)}
    (hspread : Spread (location ++ more) fields) :
    Spread location fields :=
  ⟨hspread.1, fun p hp => (List.prefix_append location more).trans (hspread.2 p hp)⟩

theorem step_eq_of_starts
    {s t : Step} {long : Location} (hs : location ++ [s] <+: long) (ht : location ++ [t] <+: long) :
    s = t := by
  have hsame : location ++ [s] = location ++ [t] := by
    rw [List.prefix_iff_eq_take.mp hs, List.prefix_iff_eq_take.mp ht]
    simp
  simpa using hsame

/-- Walks that leave a location by different steps do not meet. -/
theorem spread_flatMap
    {α : Type} {parts : List α} (step : α → Step) {walk : α → List (Location × Value)}
    (hsteps : (parts.map step).Nodup)
    (hparts : ∀ a ∈ parts, Spread (location ++ [step a]) (walk a)) :
    Spread location (parts.flatMap walk) := by
  constructor
  · induction parts with
    | nil => exact List.nodup_nil
    | cons a rest ih =>
        rw [List.map_cons, List.nodup_cons] at hsteps
        rw [List.flatMap_cons, List.map_append, List.nodup_append]
        refine ⟨(hparts a List.mem_cons_self).1,
          ih hsteps.2 fun b hb => hparts b (List.mem_cons_of_mem _ hb), ?_⟩
        intro x hx y hy heq
        obtain ⟨p, hp, rfl⟩ := List.mem_map.mp hx
        obtain ⟨q, hq, rfl⟩ := List.mem_map.mp hy
        obtain ⟨b, hb, hq⟩ := List.mem_flatMap.mp hq
        have ha := (hparts a List.mem_cons_self).2 p hp
        have hb' := (hparts b (List.mem_cons_of_mem _ hb)).2 q hq
        rw [← heq] at hb'
        rw [step_eq_of_starts ha hb'] at hsteps
        exact hsteps.1 (List.mem_map_of_mem hb)
  · intro p hp
    obtain ⟨a, ha, hp⟩ := List.mem_flatMap.mp hp
    exact ((hparts a ha).of_append).2 p hp

/-- A location in front of those that go on from it by one step. -/
theorem Spread.cons
    {fields : List (Location × Value)} (step : Step) (v : Value)
    (hspread : Spread (location ++ [step]) fields) :
    Spread location ((location, v) :: fields) := by
  constructor
  · rw [List.map_cons, List.nodup_cons]
    refine ⟨?_, hspread.1⟩
    intro hmem
    obtain ⟨p, hp, heq⟩ := List.mem_map.mp hmem
    have hlength := (hspread.2 p hp).length_le
    rw [show p.1 = location from heq, List.length_append, List.length_singleton] at hlength
    omega
  · intro p hp
    rcases List.mem_cons.mp hp with rfl | hp
    · exact List.prefix_rfl
    · exact hspread.of_append.2 p hp

theorem nodup_places (items : List Value) :
    (items.zipIdx.map fun item => Step.place item.2).Nodup := by
  have hplaces : items.zipIdx.map (fun item => Step.place item.2) =
      (items.zipIdx.map Prod.snd).map fun i : Nat => Step.place i := by
    rw [List.map_map]
    rfl
  rw [hplaces, List.zipIdx_map_snd]
  apply List.Nodup.map _ List.nodup_range'
  intro i j heq
  injection heq with heq
  exact Int.ofNat.inj heq

theorem spread_walkItems
    {walk : Walk} {key : String} (location : Location)
    (hwalk : ∀ i v, Entries.HasItem key i v entries → ∀ location,
      Spread location (walk v location)) :
    Spread (location ++ [.name key]) (walkItems walk key entries location) := by
  unfold walkItems
  cases hitems : (entries.getD key).items? with
  | none => exact spread_nil _
  | some items =>
      apply spread_flatMap _ (nodup_places _)
      rintro ⟨v, i⟩ hmem
      have hv : Entries.HasItem key i v entries :=
        ⟨items, hitems, List.mk_mem_zipIdx_iff_getElem?.mp hmem⟩
      rw [List.append_assoc]
      exact hwalk i v hv _

theorem spread_walkMap
    {walk : Entries → Location → List (Location × Value)}
    (hwalk : ∀ entries location, Spread location (walk entries location)) (v : Value)
    (location : Location) :
    Spread location (walkMap walk v location) := by
  cases v with
  | map entries => exact hwalk entries location
  | _ => exact spread_nil location

theorem spread_fieldsBelow (v : Value) (location : Location) :
    Spread location (fieldsBelow v location) := by
  induction v using Value.mapInductionOn generalizing location with
  | map entries ih =>
      rw [fieldsBelow_map]
      apply Spread.cons (.name "item_fields")
      split_ifs
      · apply spread_walkItems
        intro i v hv location
        obtain ⟨e, he, items, hitems, hmem⟩ := exists_mem_of_hasItem hv
        exact ih e he items hitems v hmem location
      · exact spread_nil _
  | other v hmap =>
      rw [fieldsBelow_of_not_map hmap]
      exact Spread.cons (.name "item_fields") v (spread_nil _)

theorem spread_fieldItems
    (key : String) (entries : Entries) (location : Location) :
    Spread (location ++ [.name key]) (walkItems fieldsBelow key entries location) :=
  spread_walkItems location fun _ v _ location => spread_fieldsBelow v location

theorem spread_fieldsInSection (v : Value) (location : Location) :
    Spread location (fieldsInSection v location) :=
  spread_walkMap (fun entries location => (spread_fieldItems _ entries location).of_append) v
    location

theorem spread_fieldsInStep (v : Value) (location : Location) :
    Spread location (fieldsInStep v location) :=
  spread_walkMap (fun entries location => (spread_fieldItems _ entries location).of_append) v
    location

theorem spread_fieldsInWizard (v : Value) (location : Location) :
    Spread location (fieldsInWizard v location) := by
  apply spread_walkMap
  intro entries location
  exact (spread_walkItems location fun _ v _ => spread_fieldsInStep v).of_append

theorem spread_fieldsInScreen (v : Value) (location : Location) :
    Spread location (fieldsInScreen v location) := by
  apply spread_walkMap
  intro entries location
  let parts := [("wizard", fieldsInWizard (entries.getD "wizard") (location ++ [.name "wizard"])),
    ("sections", walkItems fieldsInSection "sections" entries location),
    ("fields", walkItems fieldsBelow "fields" entries location),
    ("input_fields", walkItems fieldsBelow "input_fields" entries location)]
  have hsteps : (parts.map fun part => Step.name part.1).Nodup := by
    change [Step.name "wizard", .name "sections", .name "fields", .name "input_fields"].Nodup
    decide
  have hspread : Spread location (parts.flatMap Prod.snd) := by
    apply spread_flatMap _ hsteps
    simp only [parts, List.forall_mem_cons]
    refine ⟨spread_fieldsInWizard _ _, ?_, spread_fieldItems _ _ _, spread_fieldItems _ _ _, ?_⟩
    · exact spread_walkItems location fun _ v _ => spread_fieldsInSection v
    · simp
  simpa only [parts, List.flatMap_cons, List.flatMap_nil, List.append_nil,
    List.append_assoc] using hspread

theorem spread_fieldsInEntry
    (kind : CollectionKind) (v : Value) (location : Location) :
    Spread location (fieldsInEntry kind v location) := by
  cases kind with
  | screens => exact spread_fieldsInScreen v location
  | components =>
      apply spread_walkMap
      intro entries location
      split_ifs
      · exact (spread_fieldItems _ _ _).of_append
      · exact spread_nil location
  | rules => exact spread_nil location

/-- The keys of each keyed collection have different texts. -/
def HasDistinctTexts (tree : Value) : Prop :=
  ∀ document, tree = .map document → ∀ (kind : CollectionKind) (es : Entries),
    Entries.getD kind.name document = .map es → (es.map fun e => e.1.render).Nodup

theorem spread_fieldsInCollection
    {document : Entries} (hdistinct : HasDistinctTexts (.map document)) (kind : CollectionKind) :
    Spread [.name kind.name] (fieldsInCollection document kind) := by
  unfold fieldsInCollection
  cases hes : Entries.getD kind.name document with
  | map es =>
      have hsteps : (es.map fun e => Step.name e.1.render).Nodup := by
        have hnodup := (hdistinct document rfl kind es hes).map (fun _ _ h => Step.name.inj h)
        rwa [List.map_map] at hnodup
      exact spread_flatMap _ hsteps fun e _ => spread_fieldsInEntry kind e.2 _
  | _ => exact spread_nil _

/-- The walk over a tree comes to no location twice. -/
theorem nodup_fieldsInTree
    {tree : Value} (hdistinct : HasDistinctTexts tree) :
    ((fieldsInTree tree).map Prod.fst).Nodup := by
  cases tree with
  | map document =>
      have hsteps : (CollectionKind.all.map fun kind => Step.name kind.name).Nodup := by decide
      have hspread : Spread [] (fieldsInTree (.map document)) :=
        spread_flatMap _ hsteps fun kind _ => spread_fieldsInCollection hdistinct kind
      exact hspread.1
  | _ => exact List.nodup_nil

end Spread

end Rules

end Wireframe
