/-!
# Encoded text

Text arrives as UTF-8 or UTF-16 bytes.  Decoding stops at the first malformed
sequence and tells where that sequence starts and what is wrong with it.
-/

namespace Wireframe.Text

/-- What makes a byte sequence malformed. -/
inductive DecodeReason
  | invalidStart
  | invalidContinuation
  | unexpectedEnd
  | truncated
  | illegalEncoding
  | illegalSurrogate
  deriving DecidableEq, Repr

def DecodeReason.message : DecodeReason → String
  | invalidStart => "invalid start byte"
  | invalidContinuation => "invalid continuation byte"
  | unexpectedEnd => "unexpected end of data"
  | truncated => "truncated data"
  | illegalEncoding => "illegal encoding"
  | illegalSurrogate => "illegal UTF-16 surrogate"

/-- A malformed sequence: the place of its first byte, that byte and the number of bytes. -/
structure DecodeError where
  position : Nat
  byte : UInt8
  length : Nat
  reason : DecodeReason
  deriving DecidableEq, Repr

/-- The sentence that tells which bytes cannot be decoded. -/
def DecodeError.message (codec : String) (e : DecodeError) : String :=
  let bytes :=
    if e.length = 1 then
      s!"byte 0x{String.ofList (Nat.toDigits 16 e.byte.toNat)} in position {e.position}"
    else s!"bytes in position {e.position}-{e.position + e.length - 1}"
  s!"'{codec}' codec can't decode {bytes}: {e.reason.message}"

/-- The number of continuation bytes after a first byte, the payload of the first
byte and the closed range that the first continuation byte has to be in. -/
def utf8Lead (b : UInt8) : Option (Nat × Nat × UInt8 × UInt8) :=
  if b < 0x80 then some (0, b.toNat, 0x80, 0xbf)
  else if b < 0xc2 then none
  else if b < 0xe0 then some (1, b.toNat - 0xc0, 0x80, 0xbf)
  else if b < 0xf0 then
    some (2, b.toNat - 0xe0, if b == 0xe0 then 0xa0 else 0x80, if b == 0xed then 0x9f else 0xbf)
  else if b < 0xf5 then
    some (3, b.toNat - 0xf0, if b == 0xf0 then 0x90 else 0x80, if b == 0xf4 then 0x8f else 0xbf)
  else none

/-- Reads continuation bytes; the range applies to the first of them only.  A failure tells
how many bytes were good, the first byte of the sequence included. -/
def utf8Continue (good : Nat) : Nat → Nat → UInt8 → UInt8 → List UInt8 →
    Except (Nat × DecodeReason) Nat
  | 0, code, _, _, _ => .ok code
  | _ + 1, _, _, _, [] => .error (good, .unexpectedEnd)
  | n + 1, code, low, high, b :: bytes =>
    if low ≤ b ∧ b ≤ high then
      utf8Continue (good + 1) n (code * 64 + (b.toNat - 0x80)) 0x80 0xbf bytes
    else .error (good, .invalidContinuation)

/-- Decodes UTF-8.  The counter skips the continuation bytes of a decoded character. -/
def decodeUtf8From (position skip : Nat) : List UInt8 → Except DecodeError (List Char)
  | [] => .ok []
  | b :: bytes =>
    match skip with
    | skip + 1 => decodeUtf8From (position + 1) skip bytes
    | 0 =>
      match utf8Lead b with
      | none => .error ⟨position, b, 1, .invalidStart⟩
      | some (count, payload, low, high) =>
        match utf8Continue 1 count payload low high bytes with
        | .error (good, reason) => .error ⟨position, b, good, reason⟩
        | .ok code => (decodeUtf8From (position + 1) count bytes).map (Char.ofNat code :: ·)

def decodeUtf8 (bytes : List UInt8) : Except DecodeError (List Char) :=
  decodeUtf8From 0 0 bytes

/-- The order of the two bytes of a UTF-16 unit. -/
inductive ByteOrder
  | lowFirst
  | highFirst
  deriving DecidableEq, Repr

def ByteOrder.unit : ByteOrder → UInt8 → UInt8 → Nat
  | lowFirst, a, b => b.toNat * 256 + a.toNat
  | highFirst, a, b => a.toNat * 256 + b.toNat

/-- Decodes UTF-16 whose byte order is known; a byte order mark stays in the text. -/
def decodeUtf16From (order : ByteOrder) (position : Nat) :
    List UInt8 → Except DecodeError (List Char)
  | [] => .ok []
  | [a] => .error ⟨position, a, 1, .truncated⟩
  | a :: b :: bytes =>
    let first := order.unit a b
    if first < 0xd800 ∨ 0xdfff < first then
      (decodeUtf16From order (position + 2) bytes).map (Char.ofNat first :: ·)
    else if 0xdc00 ≤ first then .error ⟨position, a, 2, .illegalEncoding⟩
    else
      match bytes with
      | c :: d :: rest =>
        let second := order.unit c d
        if 0xdc00 ≤ second ∧ second ≤ 0xdfff then
          let code := 0x10000 + (first - 0xd800) * 0x400 + (second - 0xdc00)
          (decodeUtf16From order (position + 4) rest).map (Char.ofNat code :: ·)
        else .error ⟨position, a, 2, .illegalSurrogate⟩
      | rest => .error ⟨position, a, 2 + rest.length, .unexpectedEnd⟩

def decodeUtf16 (order : ByteOrder) (bytes : List UInt8) : Except DecodeError (List Char) :=
  decodeUtf16From order 0 bytes

end Wireframe.Text
