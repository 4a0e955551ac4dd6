import Wireframe.Text.Encoding
import Wireframe.Text.Quoted

/-!
# Sources of text

A document comes as a text, as encoded bytes or as a stream.  A text and bytes are
looked over as a whole before anything is read.  A stream is looked over block by
block, so a bad character counts only when reading gets to its block.
-/

namespace Wireframe.Yaml

open Wireframe.Text

/-- Why a character or a byte is refused. -/
inductive Refusal
  | special
  | undecodable (reason : DecodeReason)
  deriving DecidableEq, Repr

def Refusal.message : Refusal → String
  | special => "special characters are not allowed"
  | undecodable reason => reason.message

/-- A refused character or byte with its place and the name of its source. -/
structure SourceError where
  source : String
  position : Nat
  code : Nat
  refusal : Refusal
  deriving DecidableEq, Repr

def SourceError.message (e : SourceError) : String :=
  let code := String.ofList (hexDigits 4 e.code)
  s!"unacceptable character #x{code}: {e.refusal.message}\n  in \"{e.source}\", " ++
    s!"position {e.position}"

/-- The forms in which a document can come. -/
inductive Input
  | text (chars : List Char)
  | stream (chars : List Char)
  | bytes (bytes : List UInt8)
  deriving Repr

def Input.name : Input → String
  | text _ => "<unicode string>"
  | stream _ => "<file>"
  | bytes _ => "<byte string>"

/-- The text that can be read, and the error that waits behind it. -/
structure Source where
  chars : List Char
  broken : Option SourceError
  deriving Repr

/-- Characters that a document may hold. -/
def isAllowed (c : Char) : Bool :=
  let n := c.toNat
  n == 0x09 || n == 0x0a || n == 0x0d || (0x20 ≤ n && n ≤ 0x7e) || n == 0x85 ||
    (0xa0 ≤ n && n ≤ 0xd7ff) || (0xe000 ≤ n && n ≤ 0xfffd) || 0x10000 ≤ n

/-- The first character that a document may not hold. -/
def refused? (name : String) (position : Nat) : List Char → Option SourceError
  | [] => none
  | c :: s => if isAllowed c then refused? name (position + 1) s
    else some ⟨name, position, c.toNat, .special⟩

namespace Source

/-- The place where the block of a stream that holds a character starts. -/
def blockStart (position : Nat) : Nat :=
  if position < 8192 then 0 else position - position % 4096

def ofText (name : String) (chars : List Char) : Except SourceError Source :=
  match refused? name 0 chars with
  | some e => .error e
  | none => .ok ⟨chars, none⟩

def ofStream (name : String) (chars : List Char) : Except SourceError Source :=
  match refused? name 0 chars with
  | some e =>
    if blockStart e.position = 0 then .error e
    else .ok ⟨chars.take (blockStart e.position), some e⟩
  | none => .ok ⟨chars, none⟩

/-- The characters that bytes encode; a byte order mark of UTF-16 decides for it. -/
def decode (bytes : List UInt8) : Except DecodeError (List Char) :=
  match bytes with
  | 0xff :: 0xfe :: _ => decodeUtf16 .lowFirst bytes
  | 0xfe :: 0xff :: _ => decodeUtf16 .highFirst bytes
  | _ => decodeUtf8 bytes

def ofBytes (name : String) (bytes : List UInt8) : Except SourceError Source :=
  match decode bytes with
  | .error e => .error ⟨name, e.position, e.byte.toNat, .undecodable e.reason⟩
  | .ok chars => ofText name chars

def ofInput (input : Input) : Except SourceError Source :=
  match input with
  | .text chars => ofText input.name chars
  | .stream chars => ofStream input.name chars
  | .bytes bytes => ofBytes input.name bytes

end Source

end Wireframe.Yaml
