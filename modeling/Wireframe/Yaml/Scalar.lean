import Wireframe.Text.Lowercase
import Wireframe.Value.Basic
import Wireframe.Yaml.Failure
import Wireframe.Yaml.Tag

/-!
# Scalars of documents

The text of a scalar is read by its tag.  An explicit tag may stand in front of any text, so
reading is more lenient than the choice of a tag for a plain scalar, and it can fail.
-/

namespace Wireframe.Yaml

open Wireframe.Text Wireframe.Decimal

def dropUnderscores (s : List Char) : List Char := s.filter (· != '_')

/-- The digits behind a mark of the base, such as `0x`. -/
def dropBaseMark (base : Nat) : List Char → List Char
  | '0' :: c :: s =>
    if (base = 2 ∧ (c = 'b' ∨ c = 'B')) ∨ (base = 8 ∧ (c = 'o' ∨ c = 'O')) ∨
        (base = 16 ∧ (c = 'x' ∨ c = 'X')) then s
    else '0' :: c :: s
  | s => s

/-- Reads an integer in a base.  Blanks around it, a sign and a mark of the base are accepted,
and too many decimal digits are not. -/
def integerIn (base : Nat) (s : List Char) : Except Misfit Int :=
  let (negative, body) := splitSign (trim (· == ' ') (plainDigits s))
  let digits := dropBaseMark base body
  let values := digits.map fun c => (digitValue? c).filter (· < base)
  let length := (values.takeWhile Option.isSome).length
  if base = 10 ∧ maxDigits < length then .error (.longInteger length)
  else if digits.isEmpty ∨ length < digits.length then
    .error (.notInteger base (String.ofList s))
  else
    let n := values.foldl (fun n v => n * base + v.getD 0) 0
    .ok (if negative then -(n : Int) else n)

def integerOfSixtieths (parts : List Int) : Int := parts.foldl (fun n p => n * 60 + p) 0

/-- Reads an integer whose first characters tell its base. -/
def unsignedInteger (s : List Char) : Except Misfit Int :=
  match s with
  | [] => .error .noDigits
  | ['0'] => .ok 0
  | '0' :: 'b' :: rest => integerIn 2 rest
  | '0' :: 'x' :: rest => integerIn 16 rest
  | '0' :: _ => integerIn 8 s
  | _ =>
    if s.contains ':' then ((splitAt (· == ':') s).mapM (integerIn 10)).map integerOfSixtieths
    else integerIn 10 s

def integerOfText (text : String) : Except Misfit Int :=
  let (negative, body) := splitSign (dropUnderscores text.toList)
  (unsignedInteger body).map fun i => if negative then -i else i

/-- The sum of parts of sixty, the last part first.  A weight has to be a finite number. -/
def realOfSixtieths : List Double → Nat → Double → Except Misfit Double
  | [], _, sum => .ok sum
  | part :: parts, weight, sum =>
    if (Double.ofInt weight).isFinite then
      realOfSixtieths parts (weight * 60) (sum.add (part.mul (Double.ofInt weight)))
    else .error .hugeReal

def realOfPart (s : List Char) : Except Misfit Double :=
  match Double.ofText? s with
  | some d => .ok d
  | none => .error (.notReal (String.ofList s))

def unsignedReal (s : List Char) : Except Misfit Double :=
  if s = ['.', 'i', 'n', 'f'] then .ok (.infinite false)
  else if s = ['.', 'n', 'a', 'n'] then .ok .nan
  else if s.contains ':' then do
    let parts ← (splitAt (· == ':') s).mapM realOfPart
    realOfSixtieths parts.reverse 1 Double.zero
  else realOfPart s

def realOfText (text : String) : Except Misfit Double :=
  match dropUnderscores (lower text).toList with
  | [] => .error .noDigits
  | s =>
    let (negative, body) := splitSign s
    (unsignedReal body).map fun d => if negative then d.neg else d

/-- Reads a word for a truth value, in any case. -/
def flagOfText (text : String) : Except Misfit Bool :=
  let word := lower text
  if ["yes", "true", "on"].contains word then .ok true
  else if ["no", "false", "off"].contains word then .ok false
  else .error .notFlag

def dateOfText (text : String) : Except Misfit Scalar :=
  match Timestamp.parse? (Tag.dropLastBreak text.toList) with
  | none => .error .notTimestamp
  | some t =>
    match t.resolve with
    | .ok (.inl d) => .ok (.date d)
    | .ok (.inr m) => .ok (.moment m)
    | .error e => .error (.calendar e)

end Wireframe.Yaml
