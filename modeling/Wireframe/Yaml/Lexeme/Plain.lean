import Wireframe.Yaml.Lexeme.Tag

/-!
# Plain scalars

A plain scalar has no quotes.  It ends at a colon with a blank behind it, at a comment, at
a tab and, inside a flow collection, at every mark of one.  It goes on over lines that are
indented deeper than the block around it, with its line ends folded as between quotes.
-/

namespace Wireframe.Yaml.Lexeme

def isFlowMark (c : Char) : Bool :=
  c == ',' || c == '?' || c == '[' || c == ']' || c == '\x7b' || c == '\x7d'

/-- Whether a plain scalar ends in front of a character, with the next one behind it. -/
def endsPlain (inFlow : Bool) (c next : Char) : Bool :=
  isBlankOrEnd c ||
    (c == ':' && (isBlankOrEnd next || (inFlow && next != '?' && isFlowMark next))) ||
    (inFlow && isFlowMark c)

/-- The number of characters before the end of a plain scalar on this line. -/
def plainLength (inFlow : Bool) : List Char → Nat
  | [] => 0
  | c :: s => if endsPlain inFlow c (s.headD endMark) then 0 else plainLength inFlow s + 1

/-- The empty lines from here on, none if they lead to the edge of a document. -/
def plainBreaks : Nat → Cursor → Option (List Char) × Cursor
  | 0, c => (some [], c)
  | fuel + 1, c =>
    let c := c.dropSpaces
    if isBreak c.head then
      let (line, c) := c.takeBreak
      if c.isDocumentEdge then (none, c)
      else
        let (lines, c) := plainBreaks fuel c
        (lines.map (line ++ ·), c)
    else (some [], c)

/-- What stands between two parts of a plain scalar. -/
structure PlainGap where
  text : List Char
  hasBreak : Bool
  deriving Repr

/-- Reads spaces, or a line end with the empty lines behind it.  A gap without text ends
the scalar. -/
def plainGap (c : Cursor) : PlainGap × Cursor :=
  let (spaces, c) := c.takeWhile (· == ' ')
  if isBreak c.head then
    let (line, c) := c.takeBreak
    if c.isDocumentEdge then (⟨[], true⟩, c)
    else
      match plainBreaks (c.rest.length + 1) c with
      | (none, c) => (⟨[], true⟩, c)
      | (some lines, c) =>
        let fold := if line ≠ ['\n'] then line else if lines.isEmpty then [' '] else []
        (⟨fold ++ lines, true⟩, c)
  else (⟨spaces, false⟩, c)

def stopsPlain (inFlow : Bool) (column : Int) (gap : PlainGap) (c : Cursor) : Bool :=
  gap.text.isEmpty || c.head == '#' || (!inFlow && (c.column : Int) < column)

/-- What is read of a plain scalar from a place on, and where its text ends.  The last flag
tells whether a line end follows the text. -/
structure PlainText where
  text : List Char
  stop : Position
  endsLine : Bool
  deriving Repr

/-- Reads a plain scalar whose lines start at the given column or behind it. -/
def plainText (inFlow : Bool) (column : Int) : Nat → Cursor → PlainText × Cursor
  | 0, c => (⟨[], c.position, false⟩, c)
  | fuel + 1, c =>
    let n := plainLength inFlow c.rest
    let afterRun := c.advance n
    let (gap, rest) := plainGap afterRun
    let run := c.rest.take n
    if stopsPlain inFlow column gap rest || plainLength inFlow rest.rest == 0 then
      (⟨run, afterRun.position, gap.hasBreak⟩, rest)
    else
      let (more, rest) := plainText inFlow column fuel rest
      (⟨run ++ gap.text ++ more.text, more.stop, more.endsLine⟩, rest)

/-- Reads a plain scalar and tells whether a line end follows it. -/
def plain (inFlow : Bool) (column : Int) (c : Cursor) : Lexeme × Bool × Cursor :=
  let (text, rest) := plainText inFlow column (c.rest.length + 1) c
  (⟨.scalar (String.ofList text.text) true, c.position, text.stop⟩, text.endsLine, rest)

end Wireframe.Yaml.Lexeme
