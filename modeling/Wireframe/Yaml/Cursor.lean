import Wireframe.Diagnostic
import Wireframe.Yaml.Source

/-!
# Reading places

A cursor is a place in a text together with the text behind it.  Lines end with a line
feed, a carriage return, both in a row, or one of three Unicode line ends.  The end of
the text reads as the null character, which no document may hold.
-/

namespace Wireframe.Yaml

/-- What stands at and behind the end of a text. -/
def endMark : Char := '\x00'

def isBreak (c : Char) : Bool :=
  c == '\n' || c == '\r' || c == '\u0085' || c == '\u2028' || c == '\u2029'

def isBreakOrEnd (c : Char) : Bool := isBreak c || c == endMark

/-- Spaces, line ends and the end of the text. -/
def isSpaceOrEnd (c : Char) : Bool := c == ' ' || isBreakOrEnd c

/-- Spaces, tabs, line ends and the end of the text. -/
def isBlankOrEnd (c : Char) : Bool := c == '\t' || isSpaceOrEnd c

def isGap (c : Char) : Bool := c == ' ' || c == '\t'

structure Cursor where
  rest : List Char
  index : Nat
  position : Position
  deriving Repr

namespace Cursor

def ofText (text : List Char) : Cursor := ⟨text, 0, ⟨0, 0⟩⟩

def peek (c : Cursor) (n : Nat) : Char := (c.rest[n]?).getD endMark

def head (c : Cursor) : Char := c.rest.headD endMark

def column (c : Cursor) : Nat := c.position.column

/-- The place behind a character.  A byte order mark takes no column, and a carriage return
before a line feed ends no line by itself. -/
def placeAfter (place : Position) (c : Char) (rest : List Char) : Position :=
  if c == '\r' && rest.head? == some '\n' then ⟨place.line, place.column + 1⟩
  else if isBreak c then ⟨place.line + 1, 0⟩
  else if c == '\ufeff' then place
  else ⟨place.line, place.column + 1⟩

def next (c : Cursor) : Cursor :=
  match c.rest with
  | [] => c
  | x :: rest => ⟨rest, c.index + 1, placeAfter c.position x rest⟩

def advance : Nat → Cursor → Cursor
  | 0, c => c
  | n + 1, c => advance n c.next

/-- The longest run of characters of a class and the place behind it. -/
def takeWhile (p : Char → Bool) (c : Cursor) : List Char × Cursor :=
  let run := c.rest.takeWhile p
  (run, c.advance run.length)

def dropWhile (p : Char → Bool) (c : Cursor) : Cursor := (c.takeWhile p).2

def dropSpaces (c : Cursor) : Cursor := c.dropWhile (· == ' ')

def dropIndent (column : Nat) (c : Cursor) : Cursor :=
  c.advance ((c.rest.take (column - c.column)).takeWhile (· == ' ')).length

/-- Skips a comment, if one starts here, up to the end of its line. -/
def dropComment (c : Cursor) : Cursor :=
  if c.head == '#' then c.dropWhile (fun x => !isBreakOrEnd x) else c

/-- Reads the end of a line.  It stands for a line feed, unless it is one of the two
Unicode separators.  Nothing is read elsewhere. -/
def takeBreak (c : Cursor) : List Char × Cursor :=
  if c.head == '\r' && c.peek 1 == '\n' then (['\n'], c.advance 2)
  else if c.head == '\u2028' || c.head == '\u2029' then ([c.head], c.next)
  else if isBreak c.head then (['\n'], c.next)
  else ([], c)

/-- Whether a document starts or ends here, if this is the start of a line. -/
def isDocumentEdge (c : Cursor) : Bool :=
  (c.rest.take 3 == ['-', '-', '-'] || c.rest.take 3 == ['.', '.', '.']) && isBlankOrEnd (c.peek 3)

end Cursor

end Wireframe.Yaml
