import Wireframe.Yaml.Cursor
import Wireframe.Yaml.Failure
import Wireframe.Yaml.Lexeme
import Wireframe.Text.Digit

/-!
# Tags

A tag is a whole URI between angle brackets, a single exclamation mark, or a handle with
a suffix.  A URI may hold encoded bytes, which have to be UTF-8 in every run of them.
-/

namespace Wireframe.Yaml.Lexeme

open Wireframe.Text
open Failure (complain)

/-- Characters of names of directives, anchors and handles. -/
def isNameChar (c : Char) : Bool :=
  ('0' ≤ c && c ≤ '9') || ('A' ≤ c && c ≤ 'Z') || ('a' ≤ c && c ≤ 'z') || c == '-' || c == '_'

def isUriChar (c : Char) : Bool :=
  isNameChar c || ";/?:@&=+$,.!~*'()[]%".toList.contains c

def hexValue? (c : Char) : Option Nat :=
  (digitValue? c).filter (· < 16)

def ofHexDigits (digits : List Char) : Nat :=
  digits.foldl (fun n c => n * 16 + (hexValue? c).getD 0) 0

/-- The first of some characters that is no hexadecimal digit. -/
def firstNotHex? (count : Nat) (c : Cursor) : Option Char :=
  ((List.range count).map c.peek).find? fun x => (hexValue? x).isNone

/-- Where a tag is read: in front of a node or in a directive. -/
inductive TagPlace
  | node
  | directive
  deriving DecidableEq, Repr

/-- What is said of a wrong handle or a wrong escape. -/
def TagPlace.scanning : TagPlace → Activity
  | node => .scanTag
  | directive => .directive

/-- What is said of a missing URI. -/
def TagPlace.parsing : TagPlace → Activity
  | node => .tag
  | directive => .directiveTag

def uriBytes (place : TagPlace) : Nat → Cursor → Except Failure (List UInt8 × Cursor)
  | 0, c => .ok ([], c)
  | fuel + 1, c =>
    if c.head ≠ '%' then .ok ([], c)
    else
      let c := c.next
      match firstNotHex? 2 c with
      | some x => complain (some place.scanning) (.notUriEscape x) c.position
      | none => do
        let (bytes, rest) ← uriBytes place fuel (c.advance 2)
        .ok (UInt8.ofNat (ofHexDigits (c.rest.take 2)) :: bytes, rest)

def uriEscapes (place : TagPlace) (c : Cursor) : Except Failure (List Char × Cursor) := do
  let (bytes, rest) ← uriBytes place c.rest.length c
  match decodeUtf8 bytes with
  | .ok text => .ok (text, rest)
  | .error e => complain (some place.scanning) (.undecodableUri e) c.position

/-- The characters of a URI, as many as there are. -/
def uriText (place : TagPlace) : Nat → Cursor → Except Failure (List Char × Cursor)
  | 0, c => .ok ([], c)
  | fuel + 1, c =>
    if c.head = '%' then do
      let (text, c) ← uriEscapes place c
      let (more, c) ← uriText place fuel c
      .ok (text ++ more, c)
    else if isUriChar c.head then do
      let (run, c) := c.takeWhile fun x => isUriChar x && x != '%'
      let (more, c) ← uriText place fuel c
      .ok (run ++ more, c)
    else .ok ([], c)

def uri (place : TagPlace) (c : Cursor) : Except Failure (String × Cursor) :=
  if isUriChar c.head then do
    let (text, rest) ← uriText place c.rest.length c
    .ok (String.ofList text, rest)
  else complain (some place.parsing) (.notUri c.head) c.position

def handle (place : TagPlace) (c : Cursor) : Except Failure (String × Cursor) :=
  if c.head ≠ '!' then complain (some place.scanning) (.notMark '!' c.head) c.position
  else if c.peek 1 = ' ' then .ok ("!", c.next)
  else
    let (name, c) := c.next.takeWhile isNameChar
    if c.head = '!' then .ok (String.ofList ('!' :: name ++ ['!']), c.next)
    else complain (some place.scanning) (.notMark '!' c.head) c.position

/-- Whether a handle with a name starts here: a second exclamation mark comes before the
next space or line end. -/
def hasHandle (c : Cursor) : Bool :=
  (c.next.rest.takeWhile fun x => !isSpaceOrEnd x).contains '!'

/-- The handle, if there is any, and the rest of a tag. -/
def tagParts (c : Cursor) : Except Failure ((Option String × String) × Cursor) :=
  if c.peek 1 = '<' then do
    let (suffix, c) ← uri .node (c.advance 2)
    if c.head ≠ '>' then complain (some .tag) (.notMark '>' c.head) c.position
    else .ok ((none, suffix), c.next)
  else if isBlankOrEnd (c.peek 1) then .ok ((none, "!"), c.next)
  else do
    let (handle, c) ← if hasHandle c then handle .node c else .ok ("!", c.next)
    let (suffix, c) ← uri .node c
    .ok ((some handle, suffix), c)

/-- Reads a tag, which has to end at a space or at a line end. -/
def tag (c : Cursor) : Except Failure (Lexeme × Cursor) := do
  let ((handle, suffix), rest) ← tagParts c
  if isSpaceOrEnd rest.head then .ok (⟨.tag handle suffix, c.position, rest.position⟩, rest)
  else complain (some .scanTag) (.notSpace rest.head) rest.position

end Wireframe.Yaml.Lexeme
