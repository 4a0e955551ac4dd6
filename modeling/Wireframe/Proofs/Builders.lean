import Mathlib.Tactic
import Wireframe.Yaml.Shared.Build

/-!
# What builders lead to

A builder leads from a site to a result and another site, or it fails.  What is shown of a
longer builder is put together from what is shown of its steps, one after the other.
-/

namespace Wireframe.Yaml

theorem eq_ok_of_toOption
    {ε α : Type} {x : Except ε α} {a : α} (hx : x.toOption = some a) :
    x = .ok a := by
  cases x with
  | error e => cases hx
  | ok b => exact congrArg Except.ok (Option.some.inj hx)

theorem exists_eq_ok_of_any
    {ε α : Type} {x : Except ε α} {p : α → Bool} (hx : x.toOption.any p = true) :
    ∃ a, x = .ok a ∧ p a = true := by
  obtain ⟨a, ha, hp⟩ := (Option.any_eq_true _ _).mp hx
  exact ⟨a, eq_ok_of_toOption ha, hp⟩

theorem exists_eq_ok_of_isOk
    {ε α : Type} {x : Except ε α} (hx : x.isOk = true) :
    ∃ a, x = .ok a := by
  cases x with
  | ok a => exact ⟨a, rfl⟩
  | error e => cases hx

theorem eq_error_of_map
    {ε α : Type} {x : Except ε α} {e : ε} (hx : x.map (fun _ => ()) = .error e) :
    x = .error e := by
  cases x with
  | error f =>
      cases hx
      rfl
  | ok a => cases hx

/-- A failure that reports a key that is written twice. -/
def Failure.isDuplicateKey : Failure → Bool
  | .trouble ⟨_, .duplicateKey _, _⟩ => true
  | _ => false

/-- A failure that has no report. -/
def Failure.isMisfit : Failure → Bool
  | .misfit _ => true
  | _ => false

/-- The node with a number among others, as `Graph.node` has it. -/
def nodeAt (nodes : Array Node) (id : Nat) : Node := nodes.getD id default

namespace Builder

/-- From the site, the builder leads to such a result and site, or it fails in such a way. -/
def Leads {α : Type} (x : Builder α) (s : Site) (post : α → Site → Prop)
    (fail : Failure → Prop) : Prop :=
  match x s with
  | .ok (a, s') => post a s'
  | .error f => fail f

section Steps

variable {α β : Type} {s : Site} {post : α → Site → Prop} {fail : Failure → Prop}

theorem Leads.mono
    {x : Builder α} {post' : α → Site → Prop} {fail' : Failure → Prop}
    (hleads : Leads x s post fail) (hpost : ∀ a s', post a s' → post' a s')
    (hfail : ∀ f, fail f → fail' f) :
    Leads x s post' fail' := by
  unfold Leads at *
  cases hx : x s with
  | ok r =>
      rw [hx] at hleads
      exact hpost _ _ hleads
  | error f =>
      rw [hx] at hleads
      exact hfail f hleads

theorem Leads.imp
    {x : Builder α} {post' : α → Site → Prop} (hleads : Leads x s post fail)
    (hpost : ∀ a s', post a s' → post' a s') :
    Leads x s post' fail :=
  hleads.mono hpost fun _ hfail => hfail

theorem leads_bind
    {x : Builder β} {next : β → Builder α} :
    Leads (x >>= next) s post fail ↔
      Leads x s (fun b s' => Leads (next b) s' post fail) fail := by
  have hbind : (x >>= next) s = match x s with
      | .ok (b, s') => next b s'
      | .error f => .error f := by
    change Except.bind (x s) (fun r => next r.1 r.2) = _
    cases x s <;> rfl
  unfold Leads
  rw [hbind]
  cases x s <;> rfl

theorem Leads.bind
    {x : Builder β} {next : β → Builder α} {mid : β → Site → Prop} (hleads : Leads x s mid fail)
    (hnext : ∀ b s', mid b s' → Leads (next b) s' post fail) :
    Leads (x >>= next) s post fail :=
  leads_bind.mpr (hleads.imp hnext)

@[simp] theorem leads_pure {a : α} : Leads (pure a) s post fail ↔ post a s := Iff.rfl

@[simp] theorem leads_throw {f : Failure} : Leads (throw f : Builder α) s post fail ↔ fail f :=
  Iff.rfl

@[simp] theorem leads_complain
    {activity : Option Activity} {complaint : Complaint} {position : Position} :
    Leads (Failure.complain activity complaint position : Builder α) s post fail ↔
      fail (.trouble ⟨activity, complaint, position⟩) :=
  Iff.rfl

@[simp] theorem leads_get
    {post : Site → Site → Prop} :
    Leads get s post fail ↔ post s s :=
  Iff.rfl

@[simp] theorem leads_modify
    {f : Site → Site} {post : PUnit → Site → Prop} :
    Leads (modify f) s post fail ↔ post ⟨⟩ (f s) :=
  Iff.rfl

@[simp] theorem leads_node
    {id : Nat} {post : Node → Site → Prop} :
    Leads (node id) s post fail ↔ post (nodeAt s.nodes id) s :=
  Iff.rfl

@[simp] theorem leads_entries
    {id : Nat} {post : List (Nat × Nat) → Site → Prop} :
    Leads (entries id) s post fail ↔ post (nodeAt s.nodes id).content.entries s :=
  Iff.rfl

end Steps

end Builder

end Wireframe.Yaml
