import Wireframe.Decimal.Numeral
import Wireframe.Json.Basic

/-!
# Reading JSON

The reader accepts one value with blanks around it.  The names of infinity and of
the undefined number are numbers too, and of members with the same name the last
one counts.  Every value takes at least one character, so the length of the text
bounds the nesting.
-/

namespace Wireframe.Json

open Wireframe.Decimal

def isBlank (c : Char) : Bool := c == ' ' || c == '\t' || c == '\n' || c == '\r'

def skipBlanks (s : List Char) : List Char := s.dropWhile isBlank

def hexValue? (c : Char) : Option Nat :=
  (Text.digitValue? c).filter (· < 16)

/-- Four hexadecimal digits. -/
def hexUnit? : List Char → Option (Nat × List Char)
  | a :: b :: c :: d :: s => do
    let a ← hexValue? a
    let b ← hexValue? b
    let c ← hexValue? c
    let d ← hexValue? d
    some (((a * 16 + b) * 16 + c) * 16 + d, s)
  | _ => none

/-- The character that a numbered escape stands for, two of them for one outside the first plane. -/
def escapedChar? (s : List Char) : Option (Char × List Char) := do
  let (unit, rest) ← hexUnit? s
  if 0xd800 ≤ unit ∧ unit < 0xdc00 then
    match rest with
    | '\\' :: 'u' :: more =>
      match hexUnit? more with
      | some (low, tail) =>
        if 0xdc00 ≤ low ∧ low < 0xe000 then
          some (Char.ofNat (0x10000 + (unit - 0xd800) * 0x400 + (low - 0xdc00)), tail)
        else some (Char.ofNat 0xfffd, rest)
      | none => some (Char.ofNat 0xfffd, rest)
    | _ => some (Char.ofNat 0xfffd, rest)
  else if 0xdc00 ≤ unit ∧ unit < 0xe000 then some (Char.ofNat 0xfffd, rest)
  else some (Char.ofNat unit, rest)

def simpleEscape? (c : Char) : Option Char :=
  match c with
  | '"' => some '"'
  | '\\' => some '\\'
  | '/' => some '/'
  | 'b' => some '\x08'
  | 'f' => some '\x0c'
  | 'n' => some '\n'
  | 'r' => some '\r'
  | 't' => some '\t'
  | _ => none

/-- The characters of a string up to its closing quote, nearest last. -/
def readString (read : List Char) : (fuel : Nat) → List Char → Option (String × List Char)
  | 0, _ => none
  | _ + 1, [] => none
  | _ + 1, '"' :: s => some (String.ofList read.reverse, s)
  | fuel + 1, '\\' :: 'u' :: s =>
    match escapedChar? s with
    | some (c, rest) => readString (c :: read) fuel rest
    | none => none
  | fuel + 1, '\\' :: c :: s =>
    match simpleEscape? c with
    | some e => readString (e :: read) fuel s
    | none => none
  | fuel + 1, c :: s => if c.toNat < 0x20 then none else readString (c :: read) fuel s

/-- The digits at the front of a text, at least one. -/
def digits? (s : List Char) : Option (List Char × List Char) :=
  match s.takeWhile isDigit with
  | [] => none
  | ds => some (ds, s.dropWhile isDigit)

def readNumber (s : List Char) : Option (Json × List Char) := do
  let (negative, body) := match s with
    | '-' :: rest => (true, rest)
    | rest => (false, rest)
  let (whole, rest) ← match body with
    | '0' :: rest => some (['0'], rest)
    | rest => digits? rest
  let (fraction, rest) := match rest with
    | '.' :: more => match digits? more with
      | some (ds, tail) => (ds, tail)
      | none => ([], rest)
    | _ => ([], rest)
  let exponent? (mark : List Char) (s : List Char) : Option (List Char × List Char) :=
    (digits? s).map fun d => (mark ++ d.1, d.2)
  let found := match rest with
    | c :: more =>
      if c = 'e' ∨ c = 'E' then
        match more with
        | '-' :: s => exponent? ['e', '-'] s
        | '+' :: s => exponent? ['e'] s
        | s => exponent? ['e'] s
      else none
    | [] => none
  if fraction.isEmpty && found.isNone then
    if maxDigits < whole.length then none
    else some (integer (if negative then -(ofDigits whole : Int) else ofDigits whole), rest)
  else
    let (power, rest) := found.getD ([], rest)
    let sign := if negative then ['-'] else []
    let point := if fraction.isEmpty then [] else '.' :: fraction
    let d ← Double.parse? (sign ++ whole ++ point ++ power)
    some (number d, rest)

def dropWord? : List Char → List Char → Option (List Char)
  | [], s => some s
  | w :: ws, c :: s => if w = c then dropWord? ws s else none
  | _ :: _, [] => none

def words : List (String × Json) :=
  [("null", null), ("true", bool true), ("false", bool false), ("NaN", number .nan),
   ("Infinity", number (.infinite false)), ("-Infinity", number (.infinite true))]

def readWord (s : List Char) : Option (Json × List Char) :=
  words.findSome? fun w => (dropWord? w.1.toList s).map fun rest => (w.2, rest)

mutual

def readValue : (fuel : Nat) → List Char → Option (Json × List Char)
  | 0, _ => none
  | fuel + 1, s =>
    match s with
    | '"' :: rest => (readString [] (rest.length + 1) rest).map fun r => (string r.1, r.2)
    | '[' :: rest =>
      match skipBlanks rest with
      | ']' :: tail => some (array [], tail)
      | rest => (readItems fuel [] rest).map fun r => (array r.1, r.2)
    | '\x7b' :: rest =>
      match skipBlanks rest with
      | '\x7d' :: tail => some (object [], tail)
      | rest => (readMembers fuel [] rest).map fun r => (object r.1, r.2)
    | _ => readWord s <|> readNumber s

def readItems : (fuel : Nat) → List Json → List Char → Option (List Json × List Char)
  | 0, _, _ => none
  | fuel + 1, read, s =>
    match readValue fuel s with
    | none => none
    | some (item, rest) =>
      match skipBlanks rest with
      | ',' :: more => readItems fuel (item :: read) (skipBlanks more)
      | ']' :: tail => some ((item :: read).reverse, tail)
      | _ => none

def readMembers : (fuel : Nat) → List (String × Json) → List Char →
    Option (List (String × Json) × List Char)
  | 0, _, _ => none
  | fuel + 1, read, s =>
    match s with
    | '"' :: rest =>
      match readString [] (rest.length + 1) rest with
      | none => none
      | some (name, rest) =>
        match skipBlanks rest with
        | ':' :: rest =>
          match readValue fuel (skipBlanks rest) with
          | none => none
          | some (value, rest) =>
            match skipBlanks rest with
            | ',' :: more => readMembers fuel (put name value read) (skipBlanks more)
            | '\x7d' :: tail => some (put name value read, tail)
            | _ => none
        | _ => none
    | _ => none

end

/-- The value that a text denotes, if it is JSON. -/
def parse? (s : String) : Option Json :=
  let cs := skipBlanks s.toList
  match readValue (2 * cs.length + 1) cs with
  | some (value, rest) => if (skipBlanks rest).isEmpty then some value else none
  | none => none

end Wireframe.Json
