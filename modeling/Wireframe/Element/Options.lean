import Wireframe.Value.Text

/-!
# Option lists

An item of an option list that is not a mapping stands for an option with the item
as its value and the text of the item as its label.  The list stands for nothing if
one of these texts cannot be written.
-/

namespace Wireframe

namespace Value

def expandOption : Value → Value
  | map entries => map entries
  | v => map [(.text "value", v), (.text "label", .text v.render)]

/-- Whether the label of the option that the value stands for can be written. -/
def hasLabel : Value → Bool
  | map _ => true
  | v => v.hasText

/-- Whether an option list can be expanded. -/
def hasLabels (v : Value) : Bool := (v.items?.getD []).all hasLabel

/-- An option list with every item expanded; any other value is left alone. -/
def expandOptions (v : Value) : Except NoText Value :=
  match v.items? with
  | some items =>
    if v.hasLabels then .ok (list (items.map expandOption)) else .error .longInteger
  | none => .ok v

end Value

end Wireframe
