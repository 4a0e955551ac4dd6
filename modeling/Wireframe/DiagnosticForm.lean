import Wireframe.Diagnostic
import Wireframe.Element.Given

/-!
# Diagnostics from attributes

A diagnostic can be made from attributes of untyped values.  Lines and columns must
not be negative.
-/

namespace Wireframe

open Given

namespace Diagnostic

def readKind (v : Value) : Except (List Fault) DiagnosticKind :=
  match v.text?.bind DiagnosticKind.ofName? with
  | some kind => .ok kind
  | none => .error (Fault.here (.notMember (DiagnosticKind.all.map fun k => Text.quote k.name)))

/-- A line or a column; null stands for an unknown one. -/
def readPlace (v : Value) : Except (List Fault) (Option Nat) :=
  if v.isPresent then
    (readScalar (Coercion.toIntegerFrom (some 0)) v).map fun i => some i.toNat
  else .ok none

def readNeeded {α : Type} (given : List (String × Value)) (name : String)
    (read : Value → Except (List Fault) α) : Except (List Fault) α :=
  match given.find? fun g => g.1 == name with
  | some g => (read g.2).mapError (Fault.under (.name name))
  | none => .error [⟨[.name name], .missing⟩]

/-- The diagnostic with the given attributes, or all faults in their order. -/
def ofAttributes (given : List (String × Value)) : Except (List Fault) Diagnostic :=
  let text := readScalar (Coercion.toText true)
  let kind := readNeeded given "kind" readKind
  let message := readNeeded given "message" text
  let path := readNamed given "path" "" text
  let line := readNamed given "line" none readPlace
  let column := readNamed given "column" none readPlace
  match kind, message, path, line, column with
  | .ok kind, .ok message, .ok path, .ok line, .ok column =>
    .ok ⟨kind, message, path, line, column⟩
  | kind, message, path, line, column =>
    .error (faultsOf kind ++ faultsOf message ++ faultsOf path ++ faultsOf line ++
      faultsOf column)

def emptyReport : List Fault := [⟨[.name "diagnostics"], .tooFew⟩]

end Diagnostic

end Wireframe
