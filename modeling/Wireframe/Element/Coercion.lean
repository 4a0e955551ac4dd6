import Wireframe.Decimal.Numeral
import Wireframe.Decimal.Shortest
import Wireframe.Element.Fault
import Wireframe.Text.Encoding

/-!
# Coercions of scalars

An attribute that holds text, a truth value, an integer or a number also accepts
scalars of other types that denote one.  A coercion tells whether the value had
the type already, because an alternative that needs no change wins over others.
-/

namespace Wireframe

open Wireframe.Decimal Wireframe.Text

/-- A scalar of the wanted type, and whether it came as it is. -/
structure Coerced (α : Type) where
  value : α
  exact : Bool
  deriving Repr

namespace Coercion

/-- The integers of sixty-four bits start at its negative and end before it. -/
def signedEnd : Int := 9223372036854775808

/-- Integers in this range are told apart from larger ones. -/
def isSmall (i : Int) : Bool := -signedEnd ≤ i && i < signedEnd

/-- Numbers without a fraction stand for integers in this range. -/
def isExactInteger (i : Int) : Bool := -signedEnd < i && i < signedEnd

def decoded? (bytes : List UInt8) : Option String :=
  match decodeUtf8 bytes with
  | .ok cs => some (String.ofList cs)
  | .error _ => none

/-- Text is kept and bytes are decoded; numbers become text where that is wanted. -/
def toText (numbers : Bool) : Value → Except Cause (Coerced String)
  | .text s => .ok ⟨s, true⟩
  | .scalar (.bytes b) =>
    match decoded? b with
    | some s => .ok ⟨s, false⟩
    | none => .error .undecodableText
  | .integer i =>
    if !numbers then .error .notText
    else if (Scalar.integer i).hasText then .ok ⟨toString i, false⟩
    else .error (.notWritten .longInteger)
  | .real d => if numbers then .ok ⟨d.render, false⟩ else .error .notText
  | _ => .error .notText

/-- The words that stand for a truth value, in either case. -/
def flagWord? (s : String) : Option Bool :=
  let word := String.ofList (s.toList.map lowerAscii)
  if ["1", "on", "t", "true", "y", "yes"].contains word then some true
  else if ["0", "off", "f", "false", "n", "no"].contains word then some false
  else none

def flagOfInteger (i : Int) : Except Cause (Coerced Bool) :=
  if i = 0 then .ok ⟨false, false⟩
  else if i = 1 then .ok ⟨true, false⟩
  else if isSmall i then .error .unclearFlag
  else .error .notFlag

def flagOfText (s : String) : Except Cause (Coerced Bool) :=
  match flagWord? s with
  | some b => .ok ⟨b, false⟩
  | none => .error .unclearFlag

def toFlag : Value → Except Cause (Coerced Bool)
  | .flag b => .ok ⟨b, true⟩
  | .integer i => flagOfInteger i
  | .real d =>
    match d.toInt? with
    | some i => if isExactInteger i then flagOfInteger i else .error .notFlag
    | none => .error .notFlag
  | .text s => flagOfText s
  | .scalar (.bytes b) => flagOfText ((decoded? b).getD "")
  | _ => .error .notFlag

/-- Removes the underscores of a number unless one is at an end or next to another. -/
def dropUnderscores (s : List Char) : List Char :=
  if s.head? = some '_' ∨ s.getLast? = some '_' ∨ hasPair s then s else s.filter (· ≠ '_')
where
  hasPair : List Char → Bool
    | '_' :: '_' :: _ => true
    | _ :: s => hasPair s
    | [] => false

/-- Removes a fraction of zeros. -/
def dropZeroFraction (s : List Char) : List Char :=
  let zeros := s.reverse.takeWhile (· = '0')
  match s.reverse.dropWhile (· = '0') with
  | '.' :: whole => if zeros.isEmpty then s else whole.reverse
  | _ => s

/-- Removes the zeros, and the underscores between them, in front of another digit.  One
character is left in front of a point and at the end of the text. -/
def dropLeadingZeros? : List Char → Option (List Char)
  | '0' :: s =>
    let last := ('0' :: s.takeWhile fun c => c = '0' ∨ c = '_').getLastD '0'
    match s.dropWhile fun c => c = '0' ∨ c = '_' with
    | [] => some [last]
    | '.' :: rest => some (last :: '.' :: rest)
    | c :: rest => if isDigit c then some (c :: rest) else none
  | s => some s

/-- A plain integer: an optional minus and digits that do not start with a zero. -/
def plainInteger? (s : List Char) : Option Int :=
  let (negative, digits) := match s with
    | '-' :: ds => (true, ds)
    | ds => (false, ds)
  if digits.isEmpty ∨ !digits.all isDigit ∨ (digits.head? = some '0' ∧ 1 < digits.length) then none
  else some (if negative then -(ofDigits digits : Int) else ofDigits digits)

def integerOfText (s : String) : Except Cause Int :=
  let body := match trim isSpace s.toList with
    | '+' :: '-' :: _ => none
    | '+' :: rest => dropLeadingZeros? rest
    | '-' :: rest => some ('-' :: rest)
    | rest => dropLeadingZeros? rest
  match body.bind fun s => plainInteger? (dropUnderscores (dropZeroFraction s)) with
  | none => .error .unreadInteger
  | some i => if maxDigits < (toString i.natAbs).length then .error .oversizedInteger else .ok i

def toInteger : Value → Except Cause (Coerced Int)
  | .integer i => .ok ⟨i, true⟩
  | .flag b => .ok ⟨if b then 1 else 0, false⟩
  | .real d =>
    if !d.isFinite then .error .unboundedInteger
    else match d.toInt? with
      | none => .error .fractionalInteger
      | some i => if isExactInteger i then .ok ⟨i, false⟩ else .error .oversizedInteger
  | .text s => (integerOfText s).map (⟨·, false⟩)
  | .scalar (.bytes b) =>
    match decoded? b with
    | some s => (integerOfText s).map (⟨·, false⟩)
    | none => .error .unreadInteger
  | _ => .error .notInteger

/-- An integer that is not below the least allowed one. -/
def toIntegerFrom (least : Option Int) (v : Value) : Except Cause (Coerced Int) := do
  let i ← toInteger v
  match least with
  | some n => if i.value < n then .error (.below n) else .ok i
  | none => .ok i

def numberOfText (s : String) : Except Cause Double :=
  match Double.parse? (trim isSpace s.toList) <|> Double.parse? (dropUnderscores s.toList) with
  | some d => .ok d
  | none => .error .unreadNumber

def toNumber : Value → Except Cause (Coerced Double)
  | .real d => .ok ⟨d, true⟩
  | .integer i =>
    let d := Double.ofInt i
    if d.isFinite then .ok ⟨d, false⟩ else .error .notNumber
  | .flag b => .ok ⟨Double.ofInt (if b then 1 else 0), false⟩
  | .text s => (numberOfText s).map (⟨·, false⟩)
  | .scalar (.bytes b) =>
    match decoded? b with
    | some s => (numberOfText s).map (⟨·, false⟩)
    | none => .error .unreadNumber
  | _ => .error .notNumber

/-- One of the listed words; no other type stands for a word. -/
def toWord (choices : List String) (v : Value) : Except Cause String :=
  match v with
  | .text s =>
    if choices.contains s then .ok s
    else .error (.notChoice (choices.map Text.quote))
  | _ => .error (.notChoice (choices.map Text.quote))

/-- One of the listed integers; equal truth values and numbers stand for it. -/
def toListed (choices : List Int) (v : Value) : Except Cause Int :=
  let refused : Cause := .notChoice (choices.map toString)
  let chosen (i : Int) : Except Cause Int :=
    if !isSmall i then .error .oversizedInteger
    else if choices.contains i then .ok i
    else .error refused
  match v with
  | .integer i => chosen i
  | .flag b => chosen (if b then 1 else 0)
  | .real d =>
    match d.toInt? with
    | some i => if choices.contains i then .ok i else .error refused
    | none => .error refused
  | _ => .error refused

end Coercion

end Wireframe
