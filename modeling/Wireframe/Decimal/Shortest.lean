import Wireframe.Decimal.Double

/-!
# The shortest decimal text

A number is written with the fewest significant digits that read back as the
same number, and of those with the digits nearest to it.  The digits are found
by looking, for one digit, two digits and so on, at the two neighbours of the
number on the decimal grid of that many digits.
-/

namespace Wireframe.Decimal

namespace Double

def powerRatio (c : Nat) (k : Int) : Nat × Nat :=
  if 0 ≤ k then (c * Nat.pow 10 k.toNat, 1) else (c, Nat.pow 10 (-k).toNat)

def ratioLe (a b : Nat × Nat) : Bool := a.1 * b.2 ≤ b.1 * a.2

def ratioLt (a b : Nat × Nat) : Bool := a.1 * b.2 < b.1 * a.2

/-- Four times the lower end of the numbers that round to the mantissa. -/
def lowerEnd (m : Nat) (e : Int) : Nat :=
  if m = leastFull ∧ leastExponent < e then 4 * m - 1 else 4 * m - 2

/-- Whether a decimal number reads back as the number with this mantissa and exponent. -/
def readsBack (m : Nat) (e : Int) (candidate : Nat × Nat) : Bool :=
  let low := ratio (lowerEnd m e) (e - 2)
  let high := ratio (4 * m + 2) (e - 2)
  if m % 2 = 0 then ratioLe low candidate && ratioLe candidate high
  else ratioLt low candidate && ratioLt candidate high

/-- The decimal exponent of the first significant digit. -/
def decimalExponent (m : Nat) (e : Int) : Int :=
  let guess := Int.fdiv (((m.log2 : Int) + e) * 30103) 100000
  let value := ratio m e
  if ratioLe (powerRatio 1 (guess + 1)) value then guess + 1
  else if ratioLe (powerRatio 1 guess) value then guess
  else guess - 1

/-- The better neighbour of the number on a decimal grid, if one of the two reads back. -/
def gridDigits? (m : Nat) (e : Int) (k : Int) : Option Nat :=
  let (num, den) := ratio m e
  let (one, unit) := powerRatio 1 k
  let below := num * unit / (den * one)
  let lowHit := readsBack m e (powerRatio below k)
  let highHit := readsBack m e (powerRatio (below + 1) k)
  if lowHit && highHit then
    let twice := 2 * num * unit
    let middle := (2 * below + 1) * (den * one)
    if twice < middle || (twice == middle && below % 2 == 0) then some below else some (below + 1)
  else if lowHit then some below
  else if highHit then some (below + 1)
  else none

/-- The significant digits with the decimal exponent of their last one. -/
def shortestFrom (m : Nat) (e top : Int) : (count : Nat) → (left : Nat) → Nat × Int
  | _, 0 => (0, 0)
  | count, left + 1 =>
    let k := top - count
    match gridDigits? m e k with
    | some digits => (digits, k)
    | none => shortestFrom m e top (count + 1) left

/-- Seventeen digits always suffice. -/
def shortest (m : Nat) (e : Int) : Nat × Int :=
  shortestFrom m e (decimalExponent m e) 0 17

def dropTrailingZeros (digits : List Char) : List Char :=
  (digits.reverse.dropWhile (· = '0')).reverse

/-- Writes digits whose first one has the given decimal exponent: positional from
`0.0001` up to sixteen digits before the point, else with an exponent of at least
two digits. -/
def layOut (digits : List Char) (exponent : Int) : List Char :=
  if -4 ≤ exponent ∧ exponent < 16 then
    if exponent < 0 then
      '0' :: '.' :: List.replicate (-exponent - 1).toNat '0' ++ digits
    else
      let whole := exponent.toNat + 1
      let fraction := digits.drop whole
      digits.take whole ++ List.replicate (whole - digits.length) '0' ++
        '.' :: (if fraction.isEmpty then ['0'] else fraction)
  else
    let power := (toString exponent.natAbs).toList
    let mantissa := match digits with
      | [] => []
      | [d] => [d]
      | d :: rest => d :: '.' :: rest
    mantissa ++ 'e' :: (if exponent < 0 then '-' else '+') ::
      (List.replicate (2 - power.length) '0' ++ power)

/-- The text of a number; it always shows a point, an exponent or a special name. -/
def render : Double → String
  | nan => "nan"
  | infinite negative => if negative then "-inf" else "inf"
  | finite negative m e =>
    let body :=
      if m = 0 then ['0', '.', '0']
      else
        let (digits, last) := shortest m e
        let text := (toString digits).toList
        layOut (dropTrailingZeros text) (last + (text.length - 1 : Nat))
    String.ofList (if negative then '-' :: body else body)

end Double

end Wireframe.Decimal
