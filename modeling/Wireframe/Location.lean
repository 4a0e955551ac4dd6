/-!
# Locations

A location leads from the root of a tree to one of its nodes by names of entries
and places in sequences.  A truth value may stand for a place.  It is written as
a path: a name after a dot, a place in brackets.
-/

namespace Wireframe

inductive Step
  | name (s : String)
  | place (i : Int)
  | flag (b : Bool)
  deriving DecidableEq, Repr

abbrev Location := List Step

namespace Location

def extend (path : String) : Step → String
  | .place i => path ++ "[" ++ toString i ++ "]"
  | .flag b => path ++ (if b then "[True]" else "[False]")
  | .name s => if path.isEmpty then s else path ++ "." ++ s

def render (location : Location) : String :=
  location.foldl extend ""

end Location

end Wireframe
