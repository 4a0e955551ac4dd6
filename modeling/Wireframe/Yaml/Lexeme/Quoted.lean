import Wireframe.Yaml.Lexeme.Tag

/-!
# Quoted scalars

A quoted scalar runs to the next quote of its kind.  Between single quotes a quote is
written twice, between double quotes characters can be escaped.  A line end inside reads
as a space, and as nothing before an empty line, each of which reads as a line feed.
-/

namespace Wireframe.Yaml.Lexeme

open Failure (complain)

def escapedChar? : Char → Option Char
  | '0' => some '\x00'
  | 'a' => some '\x07'
  | 'b' => some '\x08'
  | 't' => some '\t'
  | '\t' => some '\t'
  | 'n' => some '\n'
  | 'v' => some '\x0b'
  | 'f' => some '\x0c'
  | 'r' => some '\r'
  | 'e' => some '\x1b'
  | ' ' => some ' '
  | '"' => some '"'
  | '\\' => some '\\'
  | '/' => some '/'
  | 'N' => some '\u0085'
  | '_' => some '\u00a0'
  | 'L' => some '\u2028'
  | 'P' => some '\u2029'
  | _ => none

/-- The number of hexadecimal digits that follow a character behind a backslash. -/
def escapeLength? : Char → Option Nat
  | 'x' => some 2
  | 'u' => some 4
  | 'U' => some 8
  | _ => none

/-- The character with a code.  A surrogate reads as the replacement character. -/
def ofCode (code : Nat) : Except Failure Char :=
  if 0x7fffffff < code then .error (.misfit .hugeCodePoint)
  else if 0x10ffff < code then .error (.misfit .largeCodePoint)
  else if 0xd800 ≤ code ∧ code ≤ 0xdfff then .ok '\ufffd'
  else .ok (Char.ofNat code)

/-- The empty lines from here on, which may not hold the edge of a document. -/
def quotedBreaks : Nat → Cursor → Except Failure (List Char × Cursor)
  | 0, c => .ok ([], c)
  | fuel + 1, c =>
    if c.isDocumentEdge then complain (some .quoted) .documentSeparator c.position
    else
      let c := c.dropWhile isGap
      if isBreak c.head then do
        let (line, c) := c.takeBreak
        let (lines, c) ← quotedBreaks fuel c
        .ok (line ++ lines, c)
      else .ok ([], c)

/-- Reads spaces, or a line end with the empty lines behind it. -/
def quotedGap (c : Cursor) : Except Failure (List Char × Cursor) :=
  let (gap, c) := c.takeWhile isGap
  if c.head = endMark then complain (some .quoted) .endOfStream c.position
  else if isBreak c.head then do
    let (line, c) := c.takeBreak
    let (lines, c) ← quotedBreaks (c.rest.length + 1) c
    let fold := if line ≠ ['\n'] then line else if lines.isEmpty then [' '] else []
    .ok (fold ++ lines, c)
  else .ok (gap, c)

def escape (c : Cursor) : Except Failure (List Char × Cursor) :=
  match escapedChar? c.head, escapeLength? c.head with
  | some x, _ => .ok ([x], c.next)
  | none, some n =>
    let c := c.next
    match firstNotHex? n c with
    | some x => complain (some .doubleQuoted) (.notEscape n x) c.position
    | none => do
      let x ← ofCode (ofHexDigits (c.rest.take n))
      .ok ([x], c.advance n)
  | none, none =>
    if isBreak c.head then quotedBreaks (c.rest.length + 1) c.takeBreak.2
    else complain (some .doubleQuoted) (.unknownEscape c.head) c.position

/-- Characters that stand for themselves between quotes. -/
def isQuotedChar (mark c : Char) : Bool :=
  c != mark && !(mark == '"' && c == '\\') && !isBlankOrEnd c

/-- Reads the next part of a quoted scalar, none at its closing quote. -/
def quotedPart (mark : Char) (c : Cursor) : Except Failure (Option (List Char) × Cursor) :=
  if c.head = mark then
    if mark = '\'' ∧ c.peek 1 = mark then .ok (some [mark], c.advance 2) else .ok (none, c.next)
  else if mark = '"' ∧ c.head = '\\' then (escape c.next).map fun r => (some r.1, r.2)
  else if isBlankOrEnd c.head then (quotedGap c).map fun r => (some r.1, r.2)
  else
    let (run, c) := c.takeWhile (isQuotedChar mark)
    .ok (some run, c)

def quotedText (mark : Char) : Nat → Cursor → Except Failure (List Char × Cursor)
  | 0, c => .ok ([], c)
  | fuel + 1, c => do
    match ← quotedPart mark c with
    | (none, c) => .ok ([], c)
    | (some part, c) =>
      let (more, c) ← quotedText mark fuel c
      .ok (part ++ more, c)

def quoted (c : Cursor) : Except Failure (Lexeme × Cursor) := do
  let (text, rest) ← quotedText c.head (c.rest.length + 1) c.next
  .ok (⟨.scalar (String.ofList text) false, c.position, rest.position⟩, rest)

end Wireframe.Yaml.Lexeme
