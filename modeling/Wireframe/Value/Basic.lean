import Wireframe.Calendar
import Wireframe.Decimal.Double

/-!
# Untyped values

A document is read into a tree of scalars, sequences and mappings before anything
is known about its meaning.  Mappings keep the order in which their entries were
written.  Their keys are scalars or tuples of keys, and two keys of different
types are the same key when they are equal numbers.
-/

namespace Wireframe

open Wireframe.Decimal

inductive Scalar
  | null
  | flag (b : Bool)
  | integer (i : Int)
  | real (d : Double)
  | text (s : String)
  | bytes (b : List UInt8)
  | date (d : Date)
  | moment (m : Moment)
  deriving DecidableEq, Repr

inductive Key
  | scalar (s : Scalar)
  | tuple (items : List Key)
  deriving Repr

/-- A value; `back n` stands for the container `n` levels up in a tree that holds itself. -/
inductive Value
  | scalar (s : Scalar)
  | list (items : List Value)
  | tuple (items : List Value)
  | set (items : List Key)
  | map (entries : List (Key × Value))
  | back (levels : Nat)
  deriving Repr

instance : Inhabited Value := ⟨.scalar .null⟩

namespace Scalar

/-- The integer that a truth value, an integer or a number without a fraction is equal to. -/
def integer? : Scalar → Option Int
  | flag b => some (if b then 1 else 0)
  | integer i => some i
  | real d => d.toInt?
  | _ => none

/-- Whether two scalars are the same key. -/
def same (a b : Scalar) : Bool :=
  match a.integer?, b.integer? with
  | some i, some j => i == j
  | none, none =>
    match a, b with
    | moment m, moment n => m.instant == n.instant
    | _, _ => a == b
  | _, _ => false

/-- Whether the scalar is the undefined number, which is equal to no other. -/
def isUndefined : Scalar → Bool
  | real .nan => true
  | _ => false

end Scalar

namespace Key

@[match_pattern] abbrev text (s : String) : Key := .scalar (.text s)

mutual

def same : Key → Key → Bool
  | scalar a, scalar b => a.same b
  | tuple xs, tuple ys => sameItems xs ys
  | _, _ => false

def sameItems : List Key → List Key → Bool
  | [], [] => true
  | x :: xs, y :: ys => same x y && sameItems xs ys
  | _, _ => false

end

def isUndefined : Key → Bool
  | scalar s => s.isUndefined
  | tuple _ => false

def text? : Key → Option String
  | text s => some s
  | _ => none

end Key

namespace Value

@[match_pattern] abbrev null : Value := .scalar .null
@[match_pattern] abbrev flag (b : Bool) : Value := .scalar (.flag b)
@[match_pattern] abbrev integer (i : Int) : Value := .scalar (.integer i)
@[match_pattern] abbrev real (d : Double) : Value := .scalar (.real d)
@[match_pattern] abbrev text (s : String) : Value := .scalar (.text s)

/-- A value is present when it is not null. -/
def isPresent : Value → Bool
  | null => false
  | _ => true

def isMap : Value → Bool
  | map _ => true
  | _ => false

def items? : Value → Option (List Value)
  | list xs => some xs
  | tuple xs => some xs
  | _ => none

def isSequence (v : Value) : Bool := v.items?.isSome

def isText : Value → Bool
  | text _ => true
  | _ => false

/-- Truth values, numbers and text are plain; null, bytes and dates are not. -/
def isPlain : Value → Bool
  | flag _ | integer _ | real _ | text _ => true
  | _ => false

def text? : Value → Option String
  | text s => some s
  | _ => none

def ofKey : Key → Value
  | .scalar s => .scalar s
  | .tuple ks => .tuple (ofKeys ks)
where
  ofKeys : List Key → List Value
    | [] => []
    | k :: ks => ofKey k :: ofKeys ks

/-- Empty and zero values count as false. -/
def isTruthy : Value → Bool
  | null => false
  | flag b => b
  | integer i => i != 0
  | real d => !d.isZero
  | text s => !s.isEmpty
  | .scalar (.bytes b) => !b.isEmpty
  | .scalar _ => true
  | list xs => !xs.isEmpty
  | tuple xs => !xs.isEmpty
  | set xs => !xs.isEmpty
  | map es => !es.isEmpty
  | back _ => true

/-- The values directly below a mapping, a list or a tuple. -/
def children : Value → List Value
  | list xs => xs
  | tuple xs => xs
  | map es => es.map Prod.snd
  | _ => []

/-- The first present value. -/
def coalesce (values : List Value) : Value :=
  (values.find? isPresent).getD null

end Value

/-- The entries of a mapping in their written order. -/
abbrev Entries := List (Key × Value)

namespace Entries

def get? (name : String) (entries : Entries) : Option Value :=
  (entries.find? fun e => e.1.text? == some name).map Prod.snd

/-- The value under a name, null if there is none. -/
def getD (name : String) (entries : Entries) : Value :=
  (get? name entries).getD .null

/-- Puts a value under a key.  A key that is there keeps its place and spelling. -/
def insert {α : Type} (key : Key) (value : α) : List (Key × α) → List (Key × α)
  | [] => [(key, value)]
  | e :: es => if e.1.same key then (e.1, value) :: es else e :: insert key value es

/-- Puts every entry in turn into a mapping.  An undefined number is always a new key. -/
def insertAll (entries : Entries) (more : Entries) : Entries :=
  more.foldl (fun es e => if e.1.isUndefined then es ++ [e] else insert e.1 e.2 es) entries

def ofList (entries : List (Key × Value)) : Entries := insertAll [] entries

/-- A mapping whose keys are names. -/
def named (entries : List (String × Value)) : Entries :=
  entries.map fun e => (.text e.1, e.2)

/-- Puts something under a name; a name that is there keeps its place. -/
def putNamed {α : Type} (name : String) (x : α) : List (String × α) → List (String × α)
  | [] => [(name, x)]
  | e :: es => if e.1 == name then (name, x) :: es else e :: putNamed name x es

/-- One entry for every name, in the place of its first and with what its last has. -/
def distinct {α : Type} (entries : List (String × α)) : List (String × α) :=
  entries.foldl (fun es e => putNamed e.1 e.2 es) []

end Entries

end Wireframe
