import Wireframe.Text.Blank
import Wireframe.Yaml.Timestamp

/-!
# Tags

A tag names the type of a node.  Where a plain scalar has no tag, its text decides.  A
dialect tells whether texts of dates are dates, and whether the keys of a mapping have to
be different.
-/

namespace Wireframe.Yaml

open Wireframe.Text Wireframe.Decimal

inductive Tag
  | null
  | bool
  | int
  | float
  | binary
  | timestamp
  | omap
  | pairs
  | set
  | str
  | seq
  | map
  | merge
  | value
  | yaml
  | other (name : String)
  deriving DecidableEq, Repr

/-- What is expected of documents beyond the general rules. -/
structure Dialect where
  /-- Plain texts of dates are dates. -/
  dates : Bool
  /-- A key written twice in a mapping is refused. -/
  uniqueKeys : Bool
  deriving DecidableEq, Repr

namespace Dialect

/-- Dates are dates, and the last of equal keys counts. -/
def standard : Dialect := ⟨true, false⟩

/-- Dates are text, and keys are different. -/
def strict : Dialect := ⟨false, true⟩

end Dialect

namespace Tag

/-- What the names of the well-known tags start with. -/
def stem : String := "tag:yaml.org,2002:"

def wellKnown : List (String × Tag) :=
  [("null", null), ("bool", bool), ("int", int), ("float", float), ("binary", binary),
   ("timestamp", timestamp), ("omap", omap), ("pairs", pairs), ("set", set), ("str", str),
   ("seq", seq), ("map", map), ("merge", merge), ("value", value), ("yaml", yaml)]

def ofName (name : String) : Tag :=
  match wellKnown.find? fun t => stem ++ t.1 == name with
  | some (_, t) => t
  | none => other name

def name : Tag → String
  | other name => name
  | t => stem ++ ((wellKnown.find? fun k => k.2 == t).map Prod.fst).getD ""

/-- The words for truth values, in the three ways of writing them. -/
def isBoolText (s : String) : Bool :=
  ["yes", "Yes", "YES", "no", "No", "NO", "true", "True", "TRUE", "false", "False", "FALSE",
   "on", "On", "ON", "off", "Off", "OFF"].contains s

def isNullText (s : String) : Bool := ["", "~", "null", "Null", "NULL"].contains s

def isGrouped (c : Char) : Bool := isDigit c || c == '_'

/-- Digits with underscores among them, a digit first. -/
def isNumber : List Char → Bool
  | [] => false
  | c :: s => isDigit c && s.all isGrouped

/-- One or two digits below sixty. -/
def isSixtieth : List Char → Bool
  | [c] => isDigit c
  | [c, d] => '0' ≤ c && c ≤ '5' && isDigit d
  | _ => false

/-- A number followed by parts of sixty. -/
def isSexagesimal (s : List Char) : Bool :=
  match splitAt (· == ':') s with
  | first :: part :: parts => isNumber first && (part :: parts).all isSixtieth
  | _ => false

/-- Whether the characters behind a first part are at least one and all of a class. -/
def isRun (p : Char → Bool) (s : List Char) : Bool := !s.isEmpty && s.all p

/-- Integers in base two, eight, ten, sixteen or sixty. -/
def isIntText (s : List Char) : Bool :=
  let body := (splitSign s).2
  match body with
  | ['0'] => true
  | '0' :: 'b' :: rest => isRun (fun c => c == '0' || c == '1' || c == '_') rest
  | '0' :: 'x' :: rest => isRun (fun c => (digitValue? c).any (· < 16) || c == '_') rest
  | '0' :: rest => isRun (fun c => ('0' ≤ c && c ≤ '7') || c == '_') rest
  | _ => isNumber body || isSexagesimal body

/-- Nothing, or an exponent with a sign. -/
def isExponent : List Char → Bool
  | [] => true
  | c :: sign :: digits =>
    (c == 'e' || c == 'E') && (sign == '-' || sign == '+') && isRun isDigit digits
  | _ => false

/-- Numbers with a point, which is the first character or has a digit in front. -/
def isFloatText (s : List Char) : Bool :=
  let body := (splitSign s).2
  match body.dropWhile (· != '.') with
  | '.' :: tail =>
    let whole := body.takeWhile (· != '.')
    let exponent := tail.dropWhile isGrouped
    let unsigned := body.length == s.length
    if whole.isEmpty then
      [['i', 'n', 'f'], ['I', 'n', 'f'], ['I', 'N', 'F']].contains tail ||
        (unsigned && ([['n', 'a', 'n'], ['N', 'a', 'N'], ['N', 'A', 'N']].contains tail ||
          (tail.head?.any isDigit && isExponent exponent)))
    else (isNumber whole && isExponent exponent) || (isSexagesimal whole && exponent.isEmpty)
  | _ => false

def dropLastBreak (s : List Char) : List Char :=
  if s.getLast? = some '\n' then s.dropLast else s

/-- The tag of a plain scalar.  A line feed at the end of a longer text does not count. -/
def ofPlain (dialect : Dialect) (text : String) : Tag :=
  let chars := dropLastBreak text.toList
  let core := String.ofList chars
  if chars.isEmpty then if text.isEmpty then null else str
  else if isBoolText core then bool
  else if isFloatText chars then float
  else if isIntText chars then int
  else if core = "<<" then merge
  else if isNullText core then null
  else if dialect.dates && Timestamp.isPlain chars then timestamp
  else if core = "=" then value
  else if core = "!" ∨ core = "&" ∨ core = "*" then yaml
  else str

end Tag

end Wireframe.Yaml
