import Wireframe.Yaml.Lexeme.Name

/-!
# Block scalars

A block scalar starts behind its header line.  Its lines are indented to a column that the
header gives, or that the first line with text shows.  Line ends are kept, or folded where
both lines start with text.  The header also tells what becomes of the last line ends.
-/

namespace Wireframe.Yaml.Lexeme

open Failure (complain)

/-- What becomes of the line ends behind the last line: all are removed, one stays, or all stay. -/
inductive Chomping
  | strip
  | clip
  | keep
  deriving DecidableEq, Repr

structure BlockHeader where
  chomping : Chomping
  increment : Option Nat
  deriving Repr

/-- A mark for the last line ends. -/
def takeChomping? (c : Cursor) : Option (Chomping × Cursor) :=
  if c.head = '+' then some (.keep, c.next)
  else if c.head = '-' then some (.strip, c.next)
  else none

/-- A digit for the indentation, which may not be zero. -/
def takeIncrement (c : Cursor) : Except Failure (Option Nat × Cursor) :=
  if c.head = '0' then complain (some .blockScalar) .zeroIndent c.position
  else if Decimal.isDigit c.head then .ok (hexValue? c.head, c.next)
  else .ok (none, c)

/-- Reads the marks of a header, which come in either order. -/
def blockHeader (c : Cursor) : Except Failure (BlockHeader × Cursor) := do
  let (header, c) ←
    match takeChomping? c with
    | some (chomping, c) => (takeIncrement c).map fun r => (BlockHeader.mk chomping r.1, r.2)
    | none => do
      let (increment, rest) ← takeIncrement c
      match increment, takeChomping? rest with
      | some _, some (chomping, rest) => .ok (BlockHeader.mk chomping increment, rest)
      | _, _ => .ok (BlockHeader.mk .clip increment, rest)
  if isSpaceOrEnd c.head then .ok (header, c)
  else complain (some .blockScalar) (.notIndicator c.head) c.position

/-- The empty lines from here on and the widest indentation among them. -/
def blockStart : Nat → Cursor → List Char × Nat × Cursor
  | 0, c => ([], 0, c)
  | fuel + 1, c =>
    let c := c.dropSpaces
    if isBreak c.head then
      let (line, rest) := c.takeBreak
      let (lines, width, rest) := blockStart fuel rest
      (line ++ lines, max c.column width, rest)
    else ([], c.column, c)

/-- The empty lines from here on, up to the column of the text. -/
def blockBreaks (column : Nat) : Nat → Cursor → List Char × Cursor
  | 0, c => ([], c)
  | fuel + 1, c =>
    let c := c.dropIndent column
    if isBreak c.head then
      let (line, c) := c.takeBreak
      let (lines, c) := blockBreaks column fuel c
      (line ++ lines, c)
    else ([], c)

def isBlockLine (column : Nat) (c : Cursor) : Bool := c.column == column && c.head != endMark

def joinLines (folded : Bool) (first line breaks : List Char) (next : Char) : List Char :=
  if folded && line == ['\n'] && !isGap (first.headD endMark) && !isGap next then
    if breaks.isEmpty then [' '] else []
  else line

def blockLines (folded : Bool) (chomping : Chomping) (column : Nat) : Nat → Cursor →
    List Char × Cursor
  | 0, c => ([], c)
  | fuel + 1, c =>
    let (text, c) := c.takeWhile fun x => !isBreakOrEnd x
    let (line, c) := c.takeBreak
    let (breaks, c) := blockBreaks column (c.rest.length + 1) c
    if isBlockLine column c then
      let (more, rest) := blockLines folded chomping column fuel c
      (text ++ joinLines folded text line breaks c.head ++ breaks ++ more, rest)
    else
      let tail := match chomping with
        | .strip => []
        | .clip => line
        | .keep => line ++ breaks
      (text ++ tail, c)

/-- The column of the lines, which the header tells or the first line with text shows, and the
empty lines in front of them. -/
def blockColumn (least : Nat) (increment : Option Nat) (c : Cursor) :
    Nat × List Char × Cursor :=
  match increment with
  | none =>
    let (breaks, width, rest) := blockStart (c.rest.length + 1) c
    (max least width, breaks, rest)
  | some n =>
    let column := least + n - 1
    let (breaks, rest) := blockBreaks column (c.rest.length + 1) c
    (column, breaks, rest)

/-- The text behind a header. -/
def blockText (folded : Bool) (least : Nat) (header : BlockHeader) (c : Cursor) :
    List Char × Cursor :=
  let (column, breaks, rest) := blockColumn least header.increment c
  if isBlockLine column rest then
    let (text, rest) := blockLines folded header.chomping column (c.rest.length + 1) rest
    (breaks ++ text, rest)
  else (if header.chomping = .keep then breaks else [], rest)

/-- Reads a block scalar inside a block with the given indentation. -/
def block (indent : Int) (c : Cursor) : Except Failure (Lexeme × Cursor) := do
  let (header, rest) ← blockHeader c.next
  let rest ← lineEnd .blockScalar rest
  let (text, rest) := blockText (c.head == '>') (max (indent + 1) 1).toNat header rest
  .ok (⟨.scalar (String.ofList text) false, c.position, rest.position⟩, rest)

end Wireframe.Yaml.Lexeme
