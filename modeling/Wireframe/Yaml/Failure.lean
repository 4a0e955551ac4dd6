import Wireframe.Calendar
import Wireframe.Diagnostic
import Wireframe.Yaml.Source

/-!
# Failures of reading

A text that is no single well-formed document is refused with a complaint about one
place, or about a character of its source.  A scalar whose explicit tag does not fit
its text is a failure of another kind, which is not turned into a diagnostic.
-/

namespace Wireframe.Yaml

open Wireframe.Text

def quoteFound (c : Char) : String := quote (String.singleton c)

/-- What was being read when a complaint arose. -/
inductive Activity
  | simpleKey
  | nextToken
  | directive
  | anchor
  | reference
  | scanTag
  | tag
  | directiveTag
  | blockScalar
  | doubleQuoted
  | quoted
  | node
  | blockNode
  | flowNode
  | blockCollection
  | blockMapping
  | flowSequence
  | flowMapping
  | singleDocument
  | duplicateAnchor (name : String)
  | mapping
  | orderedMap
  | pairs
  deriving DecidableEq, Repr

def Activity.text : Activity → String
  | simpleKey => "while scanning a simple key"
  | nextToken => "while scanning for the next token"
  | directive => "while scanning a directive"
  | anchor => "while scanning an anchor"
  | reference => "while scanning an alias"
  | scanTag => "while scanning a tag"
  | tag => "while parsing a tag"
  | directiveTag => "while parsing a directive"
  | blockScalar => "while scanning a block scalar"
  | doubleQuoted => "while scanning a double-quoted scalar"
  | quoted => "while scanning a quoted scalar"
  | node => "while parsing a node"
  | blockNode => "while parsing a block node"
  | flowNode => "while parsing a flow node"
  | blockCollection => "while parsing a block collection"
  | blockMapping => "while parsing a block mapping"
  | flowSequence => "while parsing a flow sequence"
  | flowMapping => "while parsing a flow mapping"
  | singleDocument => "expected a single document in the stream"
  | duplicateAnchor name => s!"found duplicate anchor {quote name}; first occurrence"
  | mapping => "while constructing a mapping"
  | orderedMap => "while constructing an ordered map"
  | pairs => "while constructing pairs"

/-- What is wrong at a place of the text. -/
inductive Complaint
  | noColon
  | badStart (found : Char)
  | entryNotAllowed
  | keyNotAllowed
  | valueNotAllowed
  | notName (found : Char)
  | notDigit (found : Char)
  | notDigitOrDot (found : Char)
  | notDigitOrSpace (found : Char)
  | notSpace (found : Char)
  | notLineEnd (found : Char)
  | notMark (wanted found : Char)
  | notUri (found : Char)
  | notUriEscape (found : Char)
  | undecodableUri (error : DecodeError)
  | zeroIndent
  | notIndicator (found : Char)
  | notEscape (length : Nat) (found : Char)
  | unknownEscape (found : Char)
  | endOfStream
  | documentSeparator
  | notDocumentStart (token : String)
  | secondVersion
  | badVersion
  | secondHandle (handle : String)
  | unknownHandle (handle : String)
  | noContent (token : String)
  | notBlockEnd (token : String)
  | notNextItem (token : String)
  | notNextEntry (token : String)
  | anotherDocument
  | unknownAlias (name : String)
  | secondAnchor
  | wrongNode (wanted found : String)
  | unhashableKey
  | duplicateKey (key : String)
  | notMerged (found : String)
  | notMergedItem (found : String)
  | recursiveNode
  | unknownTag (tag : String)
  | notSequence (found : String)
  | notPair (found : String)
  | notSinglePair (count : Nat)
  | notAscii (first : Nat) (chars : List Char)
  | badPadding
  | badLength (count : Nat)
  deriving DecidableEq, Repr

/-- The characters that are not ASCII, told by code for a single one and by place for several. -/
def notAsciiText (first : Nat) (chars : List Char) : String :=
  match chars with
  | [c] => s!"character '{String.ofList (numberedEscape c)}' in position {first}"
  | cs => s!"characters in position {first}-{first + cs.length - 1}"

def Complaint.text : Complaint → String
  | noColon => "could not find expected ':'"
  | badStart c => s!"found character {quoteFound c} that cannot start any token"
  | entryNotAllowed => "sequence entries are not allowed here"
  | keyNotAllowed => "mapping keys are not allowed here"
  | valueNotAllowed => "mapping values are not allowed here"
  | notName c => s!"expected alphabetic or numeric character, but found {quoteFound c}"
  | notDigit c => s!"expected a digit, but found {quoteFound c}"
  | notDigitOrDot c => s!"expected a digit or '.', but found {quoteFound c}"
  | notDigitOrSpace c => s!"expected a digit or ' ', but found {quoteFound c}"
  | notSpace c => s!"expected ' ', but found {quoteFound c}"
  | notLineEnd c => s!"expected a comment or a line break, but found {quoteFound c}"
  | notMark wanted c => s!"expected '{wanted}', but found {quoteFound c}"
  | notUri c => s!"expected URI, but found {quoteFound c}"
  | notUriEscape c =>
    s!"expected URI escape sequence of 2 hexadecimal numbers, but found {quoteFound c}"
  | undecodableUri e => e.message "utf-8"
  | zeroIndent => "expected indentation indicator in the range 1-9, but found 0"
  | notIndicator c => s!"expected chomping or indentation indicators, but found {quoteFound c}"
  | notEscape n c =>
    s!"expected escape sequence of {n} hexadecimal numbers, but found {quoteFound c}"
  | unknownEscape c => s!"found unknown escape character {quoteFound c}"
  | endOfStream => "found unexpected end of stream"
  | documentSeparator => "found unexpected document separator"
  | notDocumentStart t => s!"expected '<document start>', but found {quote t}"
  | secondVersion => "found duplicate YAML directive"
  | badVersion => "found incompatible YAML document (version 1.* is required)"
  | secondHandle h => s!"duplicate tag handle {quote h}"
  | unknownHandle h => s!"found undefined tag handle {quote h}"
  | noContent t => s!"expected the node content, but found {quote t}"
  | notBlockEnd t => s!"expected <block end>, but found {quote t}"
  | notNextItem t => s!"expected ',' or ']', but got {quote t}"
  | notNextEntry t => s!"expected ',' or '\x7d', but got {quote t}"
  | anotherDocument => "but found another document"
  | unknownAlias name => s!"found undefined alias {quote name}"
  | secondAnchor => "second occurrence"
  | wrongNode wanted found => s!"expected a {wanted} node, but found {found}"
  | unhashableKey => "found unhashable key"
  | duplicateKey key => s!"found duplicate key \"{key}\""
  | notMerged found =>
    s!"expected a mapping or list of mappings for merging, but found {found}"
  | notMergedItem found => s!"expected a mapping for merging, but found {found}"
  | recursiveNode => "found unconstructable recursive node"
  | unknownTag tag => s!"could not determine a constructor for the tag {quote tag}"
  | notSequence found => s!"expected a sequence, but found {found}"
  | notPair found => s!"expected a mapping of length 1, but found {found}"
  | notSinglePair count => s!"expected a single mapping item, but found {count} items"
  | notAscii first chars =>
    "failed to convert base64 data into ascii: 'ascii' codec can't encode " ++
      notAsciiText first chars ++ ": ordinal not in range(128)"
  | badPadding => "failed to decode base64 data: Incorrect padding"
  | badLength count =>
    "failed to decode base64 data: Invalid base64-encoded string: number of data " ++
      s!"characters ({count}) cannot be 1 more than a multiple of 4"

/-- A complaint with its place. -/
structure Trouble where
  activity : Option Activity
  complaint : Complaint
  position : Position
  deriving DecidableEq, Repr

/-- Why the text of a scalar does not fit its explicit tag, or a key is none. -/
inductive Misfit
  | notInteger (base : Nat) (text : String)
  | longInteger (digits : Nat)
  | noDigits
  | notReal (text : String)
  | hugeReal
  | notFlag
  | notTimestamp
  | noTimestampText
  | calendar (error : CalendarError)
  | largeCodePoint
  | hugeCodePoint
  | setAsKey
  | keyNotWritten (cause : NoText)
  deriving DecidableEq, Repr

def Misfit.message : Misfit → String
  | notInteger base text =>
    s!"invalid literal for int() with base {base}: " ++
      String.ofList ((quote text).toList.take 200)
  | longInteger digits =>
    s!"Exceeds the limit (4300 digits) for integer string conversion: value has {digits} " ++
      "digits; use sys.set_int_max_str_digits() to increase the limit"
  | notReal text => s!"could not convert string to float: {quote text}"
  | calendar e => e.message
  | largeCodePoint => "chr() arg not in range(0x110000)"
  | keyNotWritten cause => cause.message
  | _ => ""

/-- Why a text cannot be read. -/
inductive Failure
  | source (error : SourceError)
  | trouble (t : Trouble)
  | tooDeep
  | misfit (m : Misfit)
  deriving DecidableEq, Repr

namespace Failure

def complain {m : Type → Type} [MonadExceptOf Failure m] {α : Type} (activity : Option Activity)
    (complaint : Complaint) (position : Position) : m α :=
  throw (trouble ⟨activity, complaint, position⟩)

/-- The report of a failure; a scalar that does not fit its tag has none. -/
def diagnose? : Failure → Option Diagnostic
  | source e => some (Diagnostic.ofProblem none none (some e.message) none)
  | trouble t =>
    some (Diagnostic.ofProblem (t.activity.map Activity.text) none (some t.complaint.text)
      (some t.position))
  | tooDeep =>
    some (Diagnostic.ofProblem none none (some "document is nested too deeply") none)
  | misfit _ => none

end Failure

end Wireframe.Yaml
