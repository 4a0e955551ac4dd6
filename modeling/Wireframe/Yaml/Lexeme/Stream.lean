import Wireframe.Yaml.Lexeme.Block
import Wireframe.Yaml.Lexeme.Plain
import Wireframe.Yaml.Lexeme.Quoted

/-!
# Streams of lexemes

A lexeme is released once it is certain that no key starts in front of it.  A node that
may be a key is remembered until its colon comes, its line ends or it gets too long, and
the lexemes behind it wait in a queue.  The indentation of blocks is kept as a stack of
columns.
-/

namespace Wireframe.Yaml

open Failure (complain)

/-- A node that is a key if a colon follows it. -/
structure PossibleKey where
  level : Int
  number : Nat
  required : Bool
  index : Nat
  position : Position
  deriving Repr

/-- The state between two lexemes.  Lexemes are numbered in the order of their release. -/
structure Lexer where
  cursor : Cursor
  /-- The number of flow collections around, negative after surplus ends. -/
  level : Int
  /-- The column of the block, less than zero outside of all blocks. -/
  indent : Int
  outer : List Int
  keyAllowed : Bool
  keys : List PossibleKey
  queue : List Lexeme
  released : Nat
  done : Bool
  deriving Repr

namespace Lexer

def ofText (text : List Char) : Lexer where
  cursor := Cursor.ofText text
  level := 0
  indent := -1
  outer := []
  keyAllowed := true
  keys := []
  queue := []
  released := 0
  done := false

/-- The length, in characters, that a key without a mark of its own may have. -/
def maxKeyLength : Nat := 1024

def inFlow (l : Lexer) : Bool := l.level != 0

def place (l : Lexer) : Position := l.cursor.position

def column (l : Lexer) : Int := l.cursor.column

def push (lexeme : Lexeme) (l : Lexer) : Lexer := { l with queue := l.queue ++ [lexeme] }

def pushMark (kind : LexemeKind) (l : Lexer) : Lexer := l.push ⟨kind, l.place, l.place⟩

def pushNext (kind : LexemeKind) (length : Nat) (l : Lexer) : Lexer :=
  let rest := l.cursor.advance length
  { l.push ⟨kind, l.place, rest.position⟩ with cursor := rest }

/-- Whether a possible key can be a key no longer. -/
def isStale (l : Lexer) (k : PossibleKey) : Bool :=
  k.position.line != l.place.line || k.index + maxKeyLength < l.cursor.index

/-- Drops the possible keys of a kind; one that has to be a key cannot be dropped. -/
def dropKeys (p : PossibleKey → Bool) (l : Lexer) : Except Failure Lexer :=
  if l.keys.any fun k => p k && k.required then
    complain (some .simpleKey) .noColon l.place
  else .ok { l with keys := l.keys.filter fun k => !p k }

def dropStale (l : Lexer) : Except Failure Lexer := l.dropKeys l.isStale

def dropKey (l : Lexer) : Except Failure Lexer := l.dropKeys fun k => k.level == l.level

/-- Remembers that the next lexeme may be a key. -/
def markKey (l : Lexer) : Except Failure Lexer :=
  if l.keyAllowed then do
    let l ← l.dropKey
    let key : PossibleKey :=
      ⟨l.level, l.released + l.queue.length, !l.inFlow && l.indent == l.column,
        l.cursor.index, l.place⟩
    .ok { l with keys := key :: l.keys }
  else .ok l

/-- Closes the blocks that start behind a column. -/
def unwind (column : Int) (l : Lexer) : Lexer :=
  if l.inFlow then l
  else
    let indents := l.indent :: l.outer
    let closed := indents.takeWhile (column < ·)
    let kept := indents.drop closed.length
    { l with
      queue := l.queue ++ closed.map fun _ => ⟨.blockEnd, l.place, l.place⟩
      indent := kept.headD (-1)
      outer := kept.drop 1 }

/-- Opens a block at a column, if the column is behind that of the block around. -/
def openBlock (column : Int) (l : Lexer) : Option Lexer :=
  if l.indent < column then some { l with indent := column, outer := l.indent :: l.outer }
  else none

/-- Opens a block here, if there is none, with its mark. -/
def startBlock (kind : LexemeKind) (l : Lexer) : Lexer :=
  match l.openBlock l.column with
  | some opened => opened.pushMark kind
  | none => l

/-- Skips blanks and comments.  A key may start on a new line outside of flow collections. -/
def skipBlanks : Nat → Lexer → Lexer
  | 0, l => l
  | fuel + 1, l =>
    let cursor := l.cursor.dropSpaces.dropComment
    if isBreak cursor.head then
      skipBlanks fuel
        { l with cursor := cursor.takeBreak.2, keyAllowed := l.keyAllowed || !l.inFlow }
    else { l with cursor }

/-- A byte order mark at the very start is skipped as well. -/
def toLexeme (l : Lexer) : Lexer :=
  let cursor :=
    if l.cursor.index = 0 ∧ l.cursor.head = '\ufeff' then l.cursor.next else l.cursor
  skipBlanks (cursor.rest.length + 1) { l with cursor }

def readWith (read : Cursor → Except Failure (Lexeme × Cursor)) (l : Lexer) :
    Except Failure Lexer := do
  let (lexeme, rest) ← read l.cursor
  .ok { l.push lexeme with cursor := rest }

def streamEnd (l : Lexer) : Except Failure Lexer := do
  let l ← (l.unwind (-1)).dropKey
  .ok { l.pushMark .streamEnd with keyAllowed := false, keys := [], done := true }

/-- Closes all blocks in front of a directive or the edge of a document. -/
def leaveBlocks (l : Lexer) : Except Failure Lexer := do
  let l ← (l.unwind (-1)).dropKey
  .ok { l with keyAllowed := false }

def flowStart (kind : LexemeKind) (l : Lexer) : Except Failure Lexer := do
  let l ← l.markKey
  .ok ({ l with level := l.level + 1, keyAllowed := true }.pushNext kind 1)

def flowEnd (kind : LexemeKind) (l : Lexer) : Except Failure Lexer := do
  let l ← l.dropKey
  .ok ({ l with level := l.level - 1, keyAllowed := false }.pushNext kind 1)

def flowEntry (l : Lexer) : Except Failure Lexer := do
  let l ← l.dropKey
  .ok ({ l with keyAllowed := true }.pushNext .flowEntry 1)

/-- Refuses a mark that may only stand where a key may start. -/
def needKeyAllowed (complaint : Complaint) (l : Lexer) : Except Failure Unit :=
  if !l.inFlow && !l.keyAllowed then complain none complaint l.place else .ok ()

def blockEntry (l : Lexer) : Except Failure Lexer := do
  l.needKeyAllowed .entryNotAllowed
  let l ← (if l.inFlow then l else l.startBlock .blockSequenceStart).dropKey
  .ok ({ l with keyAllowed := true }.pushNext .blockEntry 1)

def key (l : Lexer) : Except Failure Lexer := do
  l.needKeyAllowed .keyNotAllowed
  let l ← (if l.inFlow then l else l.startBlock .blockMappingStart).dropKey
  .ok ({ l with keyAllowed := !l.inFlow }.pushNext .key 1)

/-- Puts the marks of a key in front of a lexeme that waits in the queue. -/
def insertKey (k : PossibleKey) (l : Lexer) : Lexer :=
  let place := k.number - l.released
  let mark : Lexeme := ⟨.key, k.position, k.position⟩
  let start : Lexeme := ⟨.blockMappingStart, k.position, k.position⟩
  let (marks, l) :=
    match if l.inFlow then none else l.openBlock k.position.column with
    | some opened => ([start, mark], opened)
    | none => ([mark], l)
  { l with queue := l.queue.take place ++ marks ++ l.queue.drop place }

def value (l : Lexer) : Except Failure Lexer :=
  match l.keys.find? fun k => k.level == l.level with
  | some k =>
    let l := { l with keys := l.keys.filter fun k => k.level != l.level }
    .ok ({ l.insertKey k with keyAllowed := false }.pushNext .value 1)
  | none => do
    l.needKeyAllowed .valueNotAllowed
    let l := if l.inFlow then l else l.startBlock .blockMappingStart
    let l ← { l with keyAllowed := !l.inFlow }.dropKey
    .ok (l.pushNext .value 1)

/-- Reads a lexeme that may be a key or the start of one. -/
def keyLike (read : Cursor → Except Failure (Lexeme × Cursor)) (l : Lexer) :
    Except Failure Lexer := do
  let l ← l.markKey
  { l with keyAllowed := false }.readWith read

def blockScalar (l : Lexer) : Except Failure Lexer := do
  let l ← { l with keyAllowed := true }.dropKey
  l.readWith (Lexeme.block l.indent)

/-- Reads a plain scalar.  A key may start behind it if it ends its line. -/
def plainScalar (l : Lexer) : Except Failure Lexer := do
  let l ← l.markKey
  let (lexeme, endsLine, rest) := Lexeme.plain l.inFlow (l.indent + 1) l.cursor
  .ok { l.push lexeme with cursor := rest, keyAllowed := endsLine }

/-- Characters that start no plain scalar, unless a character behind them tells otherwise. -/
def isIndicator (c : Char) : Bool :=
  isBlankOrEnd c || "-?:,[]\x7b\x7d#&*!|>'\"%@`".toList.contains c

def startsPlain (l : Lexer) : Bool :=
  let c := l.cursor.head
  !isIndicator c ||
    (!isBlankOrEnd (l.cursor.peek 1) && (c == '-' || (!l.inFlow && (c == '?' || c == ':'))))

def readLexeme (l : Lexer) : Except Failure Lexer :=
  let c := l.cursor.head
  let blankBehind := isBlankOrEnd (l.cursor.peek 1)
  let atLineStart := l.cursor.column == 0
  if c = endMark then l.streamEnd
  else if c = '%' ∧ atLineStart then do
    let l ← l.leaveBlocks
    l.readWith Lexeme.directive
  else if c = '-' ∧ atLineStart ∧ l.cursor.isDocumentEdge then do
    let l ← l.leaveBlocks
    .ok (l.pushNext .documentStart 3)
  else if c = '.' ∧ atLineStart ∧ l.cursor.isDocumentEdge then do
    let l ← l.leaveBlocks
    .ok (l.pushNext .documentEnd 3)
  else if c = '[' then l.flowStart .flowSequenceStart
  else if c = '\x7b' then l.flowStart .flowMappingStart
  else if c = ']' then l.flowEnd .flowSequenceEnd
  else if c = '\x7d' then l.flowEnd .flowMappingEnd
  else if c = ',' then l.flowEntry
  else if c = '-' ∧ blankBehind then l.blockEntry
  else if c = '?' ∧ (l.inFlow ∨ blankBehind) then l.key
  else if c = ':' ∧ (l.inFlow ∨ blankBehind) then l.value
  else if c = '*' then l.keyLike (Lexeme.name .reference .reference)
  else if c = '&' then l.keyLike (Lexeme.name .anchor .anchor)
  else if c = '!' then l.keyLike Lexeme.tag
  else if (c = '|' ∨ c = '>') ∧ !l.inFlow then l.blockScalar
  else if c = '\'' ∨ c = '"' then l.keyLike Lexeme.quoted
  else if l.startsPlain then l.plainScalar
  else complain (some .nextToken) (.badStart c) l.place

def fetch (l : Lexer) : Except Failure Lexer := do
  let l ← l.toLexeme.dropStale
  (l.unwind l.column).readLexeme

/-- Reads a lexeme of a source.  Reading up to the end of a broken source meets its error. -/
def fetchFrom (broken : Option SourceError) (l : Lexer) : Except Failure Lexer :=
  match broken, l.fetch with
  | some e, .ok next => if next.cursor.rest.isEmpty then .error (.source e) else .ok next
  | some e, .error (.trouble t) =>
    .error (if t.complaint = .endOfStream then .source e else .trouble t)
  | _, result => result

/-- Whether the first lexeme of the queue may turn out to be a key. -/
def mayBeKey (l : Lexer) : Bool := l.keys.any fun k => k.number == l.released

end Lexer

/-- Released lexemes and the failure that ends them, if they do not end with the text. -/
structure Lexemes where
  items : List Lexeme
  failure : Option Failure
  deriving Repr

namespace Lexemes

def ofFailure (f : Failure) : Lexemes := ⟨[], some f⟩

def ofLexer (broken : Option SourceError) : Nat → Lexer → Lexemes
  | 0, l => ⟨l.queue, none⟩
  | fuel + 1, l =>
    if l.done then ⟨l.queue, none⟩
    else
      let fetchMore (l : Lexer) : Lexemes :=
        match l.fetchFrom broken with
        | .ok l => ofLexer broken fuel l
        | .error f => ofFailure f
      match l.queue with
      | [] => fetchMore l
      | first :: rest =>
        match l.dropStale with
        | .error f => ofFailure f
        | .ok l =>
          if l.mayBeKey then fetchMore l
          else
            let more := ofLexer broken fuel { l with queue := rest, released := l.released + 1 }
            ⟨first :: more.items, more.failure⟩

/-- The lexemes of a source.  Every round reads a character or releases a lexeme, and no
more than four lexemes come from one character. -/
def ofSource (source : Source) : Lexemes :=
  ofLexer source.broken (8 * (source.chars.length + 2)) (Lexer.ofText source.chars)

end Lexemes

end Wireframe.Yaml
