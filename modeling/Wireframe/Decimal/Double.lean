/-!
# Double precision numbers

A number is kept as a sign, a mantissa and a binary exponent.  The only way to
make one is to round a ratio of natural numbers to the nearest representable
value, where a tie goes to the even mantissa.  Mantissas below `2 ^ 52` occur
with the least exponent only, so every value has one representation.
-/

namespace Wireframe.Decimal

inductive Double
  | nan
  | infinite (negative : Bool)
  | finite (negative : Bool) (mantissa : Nat) (exponent : Int)
  deriving DecidableEq, Repr, Inhabited

namespace Double

def mantissaBits : Nat := 53

def leastFull : Nat := Nat.pow 2 (mantissaBits - 1)

def leastExponent : Int := -1074

def greatestExponent : Int := 971

def zero : Double := .finite false 0 leastExponent

/-- The quotient rounded to the nearest natural number, a tie to the even one. -/
def roundQuotient (num den : Nat) : Nat :=
  let q := num / den
  let twice := 2 * (num % den)
  if den < twice || (twice == den && q % 2 == 1) then q + 1 else q

/-- The quotient of `num` by `den * 2 ^ e`, rounded. -/
def scaledQuotient (num den : Nat) (e : Int) : Nat :=
  if 0 ≤ e then roundQuotient num (den * Nat.pow 2 e.toNat)
  else roundQuotient (num * Nat.pow 2 (-e).toNat) den

def atLeastPower (num den : Nat) (e : Int) : Bool :=
  if 0 ≤ e then den * Nat.pow 2 e.toNat ≤ num else den ≤ num * Nat.pow 2 (-e).toNat

def ofRatio (negative : Bool) (num den : Nat) : Double :=
  if num = 0 then .finite negative 0 leastExponent
  else
    let guess : Int := (num.log2 : Int) - (den.log2 : Int)
    let top := if atLeastPower num den guess then guess else guess - 1
    let e := max (top - (mantissaBits - 1 : Nat)) leastExponent
    let m := scaledQuotient num den e
    let (m, e) := if m = leastFull * 2 then (leastFull, e + 1) else (m, e)
    if greatestExponent < e then .infinite negative else .finite negative m e

def ofInt (i : Int) : Double := ofRatio (i < 0) i.natAbs 1

def isNegative : Double → Bool
  | nan => false
  | infinite s => s
  | finite s _ _ => s

def isZero : Double → Bool
  | finite _ m _ => m == 0
  | _ => false

/-- The numerator and the denominator of the absolute value of a finite number. -/
def ratio (m : Nat) (e : Int) : Nat × Nat :=
  if 0 ≤ e then (m * Nat.pow 2 e.toNat, 1) else (m, Nat.pow 2 (-e).toNat)

def toInt? : Double → Option Int
  | finite s m e =>
    let (num, den) := ratio m e
    if num % den = 0 then
      some (if s then -(num / den : Nat) else (num / den : Nat))
    else none
  | _ => none

def isFinite : Double → Bool
  | finite _ _ _ => true
  | _ => false

def neg : Double → Double
  | nan => nan
  | infinite s => infinite (!s)
  | finite s m e => finite (!s) m e

/-- The rounded value of a ratio of integers with a positive denominator; an exact
zero has the given sign. -/
def ofSignedRatio (zeroSign : Bool) (num : Int) (den : Nat) : Double :=
  if num = 0 then .finite zeroSign 0 leastExponent else ofRatio (num < 0) num.natAbs den

def mul : Double → Double → Double
  | nan, _ | _, nan => nan
  | infinite s, b => if b.isZero then nan else infinite (s != b.isNegative)
  | a, infinite s => if a.isZero then nan else infinite (s != a.isNegative)
  | finite s m e, finite t n f =>
    let (num, den) := ratio (m * n) (e + f)
    ofRatio (s != t) num den

def add : Double → Double → Double
  | nan, _ | _, nan => nan
  | infinite s, infinite t => if s = t then infinite s else nan
  | infinite s, _ => infinite s
  | _, infinite s => infinite s
  | finite s m e, finite t n f =>
    let low := min e f
    let whole (neg : Bool) (m : Nat) (e : Int) : Int :=
      let v : Int := (m * Nat.pow 2 (e - low).toNat : Nat)
      if neg then -v else v
    let sum := whole s m e + whole t n f
    let (num, den) := ratio sum.natAbs low
    ofSignedRatio (s && t) (if sum < 0 then -(num : Int) else num) den

end Double

end Wireframe.Decimal
