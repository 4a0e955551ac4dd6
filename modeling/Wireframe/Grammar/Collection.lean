import Wireframe.Location
import Wireframe.Value.Text

/-!
# Collections

A document has three collections of named entries: its screens, the components
that screens share and the rules that fields share.  A collection is written
either as a mapping from names to entries or as a list of entries that carry their
names themselves.
-/

namespace Wireframe

inductive CollectionKind
  | screens
  | components
  | rules
  deriving DecidableEq, Repr

namespace CollectionKind

/-- The order in which collections are checked. -/
def all : List CollectionKind := [screens, components, rules]

def name : CollectionKind → String
  | screens => "view"
  | components => "common_components"
  | rules => "validations"

def element : CollectionKind → String
  | screens => "screen"
  | components => "component"
  | rules => "rule"

def elementTitle : CollectionKind → String
  | screens => "Screen"
  | components => "Component"
  | rules => "Rule"

def isRequired : CollectionKind → Bool
  | screens => true
  | components => false
  | rules => false

def nameKey : CollectionKind → String
  | screens => "name"
  | components => "component_name"
  | rules => "field"

end CollectionKind

/-- A collection as it is written. -/
inductive Collection
  | keyed (entries : Entries)
  | listed (entries : List Value)
  deriving Repr

namespace Collection

/-- A value as a collection, if it is a mapping, a list or a tuple. -/
def ofValue? : Value → Option Collection
  | .map es => some (keyed es)
  | .list xs => some (listed xs)
  | .tuple xs => some (listed xs)
  | _ => none

/-- The entries with the steps that lead to them: the text of their key or their place. -/
def steps : Collection → List (Step × Value)
  | keyed es => es.map fun e => (.name e.1.render, e.2)
  | listed xs => xs.zipIdx.map fun x => (.place x.2, x.1)

end Collection

end Wireframe
