import Wireframe.Decimal.Shortest
import Wireframe.Text.Quoted
import Wireframe.Value.Basic

/-!
# Values as text

Every value has a plain text, which names are made of, and a quoted text, which
it shows inside a container.  The two differ for text, where the quoted form has
quotes and escapes, and for dates.  Integers of more digits than an integer may have
to be read are not written either, and neither is a container with one in it.
-/

namespace Wireframe

open Wireframe.Decimal Wireframe.Text

/-- What keeps a value from being written. -/
inductive NoText
  | longInteger
  deriving DecidableEq, Repr

def NoText.message : NoText → String
  | longInteger =>
    "Exceeds the limit (4300 digits) for integer string conversion; use " ++
      "sys.set_int_max_str_digits() to increase the limit"

namespace Scalar

def render : Scalar → String
  | null => "None"
  | flag b => if b then "True" else "False"
  | integer i => toString i
  | real d => d.render
  | text s => s
  | bytes b => quoteBytes b
  | date d => d.render
  | moment m => m.render

def quote : Scalar → String
  | text s => Text.quote s
  | date d => d.quote
  | moment m => m.quote
  | s => s.render

/-- Whether the scalar is not an integer of too many digits. -/
def hasText : Scalar → Bool
  | integer i => (toString i.natAbs).length ≤ maxDigits
  | _ => true

end Scalar

/-- The items of a tuple between parentheses; a single one is followed by a comma. -/
def tupleText : List String → String
  | [item] => s!"({item},)"
  | items => "(" ++ ", ".intercalate items ++ ")"

mutual

def Key.quote : Key → String
  | .scalar s => s.quote
  | .tuple items => tupleText (Key.quoteItems items)

def Key.quoteItems : List Key → List String
  | [] => []
  | k :: ks => k.quote :: Key.quoteItems ks

end

def Key.render : Key → String
  | .scalar s => s.render
  | k => k.quote

mutual

def Value.quote : Value → String
  | .scalar s => s.quote
  | .list items => "[" ++ ", ".intercalate (Value.quoteItems items) ++ "]"
  | .tuple items => tupleText (Value.quoteItems items)
  | .set items =>
    if items.isEmpty then "set()" else "\x7b" ++ ", ".intercalate (Key.quoteItems items) ++ "\x7d"
  | .map entries => "\x7b" ++ ", ".intercalate (Value.quoteEntries entries) ++ "\x7d"
  | .back _ => "..."

def Value.quoteItems : List Value → List String
  | [] => []
  | v :: vs => v.quote :: Value.quoteItems vs

def Value.quoteEntries : List (Key × Value) → List String
  | [] => []
  | (k, v) :: es => s!"{k.quote}: {v.quote}" :: Value.quoteEntries es

end

def Value.render : Value → String
  | .scalar s => s.render
  | v => v.quote

/-! ## What can be written -/

mutual

def Key.hasText : Key → Bool
  | .scalar s => s.hasText
  | .tuple items => Key.haveText items

def Key.haveText : List Key → Bool
  | [] => true
  | k :: ks => k.hasText && Key.haveText ks

end

mutual

/-- Whether a value can be written, which takes a text for everything in it. -/
def Value.hasText : Value → Bool
  | .scalar s => s.hasText
  | .list items => Value.haveText items
  | .tuple items => Value.haveText items
  | .set items => Key.haveText items
  | .map entries => Value.entriesHaveText entries
  | .back _ => true

def Value.haveText : List Value → Bool
  | [] => true
  | v :: vs => v.hasText && Value.haveText vs

def Value.entriesHaveText : List (Key × Value) → Bool
  | [] => true
  | (k, v) :: es => k.hasText && v.hasText && Value.entriesHaveText es

end

/-- The plain text of a key. -/
def Key.write (k : Key) : Except NoText String :=
  if k.hasText then .ok k.render else .error .longInteger

/-- The plain text of a value. -/
def Value.write (v : Value) : Except NoText String :=
  if v.hasText then .ok v.render else .error .longInteger

/-- What a message has in place of a value of that type that cannot be written. -/
def unwritable (type : String) : String := s!"<unprintable {type} object>"

/-- The plain text of a value in a message. -/
def Value.told (v : Value) : String :=
  if v.hasText then v.render
  else
    unwritable (match v with
      | .list _ => "list"
      | .tuple _ => "tuple"
      | .set _ => "set"
      | .map _ => "dict"
      | _ => "int")

end Wireframe
