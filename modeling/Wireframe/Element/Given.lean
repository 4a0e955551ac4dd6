import Wireframe.Element.Coercion

/-!
# Values given by name

Settings and diagnostics are made from values that are given by name.  Each value is
read on its own, and the faults of all are reported together.
-/

namespace Wireframe.Given

def readScalar {α : Type} (coerce : Value → Except Cause (Coerced α)) (v : Value) :
    Except (List Fault) α :=
  match coerce v with
  | .ok c => .ok c.value
  | .error cause => .error (Fault.here cause)

/-- The readings of items, or the faults of all that failed. -/
def readEach {α : Type} (read : Value → Except (List Fault) α) (place : Nat) :
    List Value → Except (List Fault) (List α)
  | [] => .ok []
  | v :: vs =>
    match (read v).mapError (Fault.under (.place place)), readEach read (place + 1) vs with
    | .ok x, .ok xs => .ok (x :: xs)
    | .ok _, .error faults => .error faults
    | .error faults, .ok _ => .error faults
    | .error faults, .error more => .error (faults ++ more)

/-- A value of several items; lists, tuples and sets are accepted. -/
def readMany {α : Type} (refused : Cause) (read : Value → Except (List Fault) α) (v : Value) :
    Except (List Fault) (List α) :=
  match v with
  | .list xs | .tuple xs => readEach read 0 xs
  | .set ks => readEach read 0 (ks.map Value.ofKey)
  | _ => .error (Fault.here refused)

/-- Reads the value that is given under a name, or takes a default if there is none. -/
def readNamed {α : Type} (given : List (String × Value)) (name : String) (default : α)
    (read : Value → Except (List Fault) α) : Except (List Fault) α :=
  match given.find? fun g => g.1 == name with
  | some g => (read g.2).mapError (Fault.under (.name name))
  | none => .ok default

def faultsOf {α : Type} : Except (List Fault) α → List Fault
  | .ok _ => []
  | .error faults => faults

end Wireframe.Given
