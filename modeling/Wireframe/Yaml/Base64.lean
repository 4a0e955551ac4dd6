import Wireframe.Yaml.Failure

/-!
# Base 64

Bytes are written as characters of six bits each.  Other characters are passed over, and
padding ends the bytes where it completes a group of four.
-/

namespace Wireframe.Yaml.Base64

/-- The six bits of a character. -/
def sextet? (c : Char) : Option Nat :=
  if 'A' ≤ c ∧ c ≤ 'Z' then some (c.toNat - 'A'.toNat)
  else if 'a' ≤ c ∧ c ≤ 'z' then some (c.toNat - 'a'.toNat + 26)
  else if '0' ≤ c ∧ c ≤ '9' then some (c.toNat - '0'.toNat + 52)
  else if c = '+' then some 62
  else if c = '/' then some 63
  else none

/-- The state inside a group: the number of its characters, the bits that no byte holds yet,
the padding read and the number of bytes before. -/
structure Group where
  size : Nat
  bits : Nat
  padding : Nat
  count : Nat
  deriving Repr

/-- What is wrong if the characters end inside a group. -/
def Group.finish (g : Group) : Except Complaint (List UInt8) :=
  if g.size = 0 then .ok []
  else if g.size = 1 then .error (.badLength (g.count / 3 * 4 + 1))
  else .error .badPadding

/-- The byte that a character completes, none for the first of a group, and the state behind
it. -/
def Group.push (g : Group) (v : Nat) : Option UInt8 × Group :=
  match g.size with
  | 0 => (none, ⟨1, v, 0, g.count⟩)
  | 1 => (some (UInt8.ofNat (g.bits * 4 + v / 16)), ⟨2, v % 16, 0, g.count + 1⟩)
  | 2 => (some (UInt8.ofNat (g.bits * 16 + v / 4)), ⟨3, v % 4, 0, g.count + 1⟩)
  | _ => (some (UInt8.ofNat (g.bits * 64 + v)), ⟨0, 0, 0, g.count + 1⟩)

def decodeFrom (g : Group) : List Char → Except Complaint (List UInt8)
  | [] => g.finish
  | c :: s =>
    if c = '=' then
      if g.size < 2 then decodeFrom g s
      else if 4 ≤ g.size + g.padding + 1 then .ok []
      else decodeFrom { g with padding := g.padding + 1 } s
    else
      match sextet? c with
      | none => decodeFrom g s
      | some v =>
        match g.push v with
        | (none, g) => decodeFrom g s
        | (some b, g) => (decodeFrom g s).map (b :: ·)

/-- The bytes that a text stands for, which has to be ASCII. -/
def decode (text : List Char) : Except Complaint (List UInt8) :=
  let isAscii (c : Char) : Bool := c.toNat < 0x80
  let before := text.takeWhile isAscii
  let wrong := (text.drop before.length).takeWhile fun c => !isAscii c
  if wrong.isEmpty then decodeFrom ⟨0, 0, 0, 0⟩ text
  else .error (.notAscii before.length wrong)

end Wireframe.Yaml.Base64
