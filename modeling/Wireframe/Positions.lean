import Wireframe.Diagnostic

/-!
# Positions

The nodes of a tree are recorded with the places in the text where they start.
-/

namespace Wireframe

abbrev Positions := List (Location × Position)

namespace Positions

def placeOf? (positions : Positions) (location : Location) : Option Position :=
  (positions.find? fun p => p.1 == location).map Prod.snd

/-- Records the start of a node.  The first record of a location stays. -/
def record (positions : Positions) (location : Location) (start : Position) : Positions :=
  if (positions.placeOf? location).isSome then positions else positions ++ [(location, start)]

end Positions

end Wireframe
