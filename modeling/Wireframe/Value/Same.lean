import Wireframe.Value.Basic

/-!
# Sameness of values

Two values are the same when they have the same parts, where equal numbers are the
same whatever their type and the entries of a mapping may come in any order.  An
undefined number is the same as itself only when both trees come from one reading.
-/

namespace Wireframe

namespace Key

/-- Whether two keys are the same, where `shared` tells if undefined numbers may be. -/
def agrees (shared : Bool) (a b : Key) : Bool :=
  a.same b && (shared || !a.isUndefined)

end Key

namespace Value

mutual

def same (shared : Bool) : Value → Value → Bool
  | scalar a, scalar b => a.same b && (shared || !a.isUndefined)
  | list xs, list ys => sameItems shared xs ys
  | tuple xs, tuple ys => sameItems shared xs ys
  | set xs, set ys => xs.length == ys.length && xs.all fun x => ys.any (x.agrees shared)
  | map es, map fs => es.length == fs.length && sameEntries shared es fs
  | back m, back n => m == n
  | _, _ => false

def sameItems (shared : Bool) : List Value → List Value → Bool
  | [], [] => true
  | x :: xs, y :: ys => same shared x y && sameItems shared xs ys
  | _, _ => false

/-- Whether each entry has its like in the other mapping. -/
def sameEntries (shared : Bool) : List (Key × Value) → List (Key × Value) → Bool
  | [], _ => true
  | (k, v) :: es, fs =>
    (match fs.find? fun f => k.agrees shared f.1 with
      | some f => same shared v f.2
      | none => false) && sameEntries shared es fs

end

end Value

end Wireframe
