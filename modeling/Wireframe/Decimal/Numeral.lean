import Wireframe.Decimal.Double
import Wireframe.Text.Blank
import Wireframe.Text.Digit

/-!
# Reading numbers

A decimal numeral has a sign, digits with at most one point among them and an
exponent.  The names of infinity and of the undefined number are accepted in
either case.  An integer numeral may have single underscores between digits.
-/

namespace Wireframe.Decimal

open Wireframe.Text

/-- A decimal number `digits * 10 ^ scale`. -/
structure Numeral where
  negative : Bool
  digits : Nat
  scale : Int
  deriving DecidableEq, Repr

def isDigit (c : Char) : Bool := '0' ≤ c && c ≤ '9'

/-- The most digits that a decimal integer may have to be read. -/
def maxDigits : Nat := 4300

def ofDigits (digits : List Char) : Nat :=
  digits.foldl (fun n c => n * 10 + (c.toNat - '0'.toNat)) 0

def splitSign : List Char → Bool × List Char
  | '-' :: s => (true, s)
  | '+' :: s => (false, s)
  | s => (false, s)

/-- The exponent that ends a numeral; nothing stands for zero. -/
def exponent? : List Char → Option Int
  | [] => some 0
  | c :: s =>
    if c = 'e' ∨ c = 'E' then
      let (negative, digits) := splitSign s
      if !digits.isEmpty && digits.all isDigit then
        some (if negative then -(ofDigits digits : Int) else ofDigits digits)
      else none
    else none

namespace Numeral

def parse? (s : List Char) : Option Numeral :=
  let (negative, body) := splitSign s
  let whole := body.takeWhile isDigit
  let rest := body.dropWhile isDigit
  let (fraction, rest) := match rest with
    | '.' :: rest => (rest.takeWhile isDigit, rest.dropWhile isDigit)
    | rest => ([], rest)
  if whole.isEmpty && fraction.isEmpty then none
  else (exponent? rest).map fun e =>
    ⟨negative, ofDigits (whole ++ fraction), e - fraction.length⟩

/-- The nearest double.  Numbers far outside the range are decided by their size alone. -/
def toDouble (n : Numeral) : Double :=
  let size : Int := (toString n.digits).length + n.scale
  if n.digits = 0 ∨ size < -400 then .finite n.negative 0 Double.leastExponent
  else if 400 < size then .infinite n.negative
  else if 0 ≤ n.scale then Double.ofRatio n.negative (n.digits * Nat.pow 10 n.scale.toNat) 1
  else Double.ofRatio n.negative n.digits (Nat.pow 10 (-n.scale).toNat)

end Numeral

def lowerAscii (c : Char) : Char :=
  if 'A' ≤ c ∧ c ≤ 'Z' then Char.ofNat (c.toNat + 32) else c

/-- Reads a numeral or a special name. -/
def Double.parse? (s : List Char) : Option Double :=
  let (negative, body) := splitSign s
  let name := String.ofList (body.map lowerAscii)
  if name = "inf" ∨ name = "infinity" then some (.infinite negative)
  else if name = "nan" then some .nan
  else (Numeral.parse? s).map Numeral.toDouble

/-- Replaces the digits of every number system by the ASCII ones and every blank by a space. -/
def plainDigits (s : List Char) : List Char :=
  s.map fun c =>
    if isBlank c then ' '
    else match decimalValue? c with
      | some d => Char.ofNat ('0'.toNat + d)
      | none => c

/-- Removes single underscores between two digits; any other underscore is refused. -/
def dropUnderscores? (isDigit : Char → Bool) (previous : Bool) : List Char → Option (List Char)
  | [] => some []
  | ['_'] => none
  | '_' :: c :: s =>
    if previous && isDigit c then dropUnderscores? isDigit false (c :: s) else none
  | c :: s => (dropUnderscores? isDigit (isDigit c) s).map (c :: ·)

/-- Reads free text as a number: blanks around it, digits of every number system and
single underscores between digits are accepted. -/
def Double.ofText? (s : List Char) : Option Double :=
  (dropUnderscores? isDigit false (trim isBlank (plainDigits s))).bind Double.parse?

end Wireframe.Decimal
