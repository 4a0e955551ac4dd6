import Wireframe.Value.Basic

/-!
# JSON values

JSON with the order of its members kept and integers of any size.
-/

namespace Wireframe

inductive Json
  | null
  | bool (b : Bool)
  | integer (i : Int)
  | number (d : Decimal.Double)
  | string (s : String)
  | array (items : List Json)
  | object (members : List (String × Json))
  deriving Repr, Inhabited

namespace Json

/-- Puts a member under a name; a name that is there keeps its place. -/
def put (name : String) (value : Json) : List (String × Json) → List (String × Json)
  | [] => [(name, value)]
  | m :: ms => if m.1 == name then (name, value) :: ms else m :: put name value ms

def member? (name : String) : Json → Option Json
  | object ms => (ms.find? fun m => m.1 == name).map Prod.snd
  | _ => none

mutual

def toValue : Json → Value
  | null => .null
  | bool b => .flag b
  | integer i => .integer i
  | number d => .real d
  | string s => .text s
  | array items => .list (toValues items)
  | object members => .map (toEntries members)

def toValues : List Json → List Value
  | [] => []
  | j :: js => toValue j :: toValues js

def toEntries : List (String × Json) → List (Key × Value)
  | [] => []
  | (name, j) :: ms => (.text name, toValue j) :: toEntries ms

end

end Json

end Wireframe
