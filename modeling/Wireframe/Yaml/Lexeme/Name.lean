import Wireframe.Yaml.Lexeme.Tag

/-!
# Directives, anchors and aliases

A directive fills a line of its own.  Anchors and aliases are names behind a mark.
-/

namespace Wireframe.Yaml.Lexeme

open Wireframe.Decimal
open Failure (complain)

/-- Characters that may follow an anchor or an alias. -/
def endsName (c : Char) : Bool :=
  isBlankOrEnd c || "?:,]\x7d%@`".toList.contains c

def name (activity : Activity) (kind : String → LexemeKind) (c : Cursor) :
    Except Failure (Lexeme × Cursor) :=
  let (text, rest) := c.next.takeWhile isNameChar
  if text.isEmpty || !endsName rest.head then
    complain (some activity) (.notName rest.head) rest.position
  else .ok (⟨kind (String.ofList text), c.position, rest.position⟩, rest)

def versionNumber (c : Cursor) : Except Failure (Nat × Cursor) :=
  let (digits, rest) := c.takeWhile isDigit
  if digits.isEmpty then complain (some .directive) (.notDigit c.head) c.position
  else if maxDigits < digits.length then .error (.misfit (.longInteger digits.length))
  else .ok (ofDigits digits, rest)

def version (c : Cursor) : Except Failure (Directive × Cursor) := do
  let (major, c) ← versionNumber c.dropSpaces
  if c.head ≠ '.' then complain (some .directive) (.notDigitOrDot c.head) c.position
  else
    let (minor, c) ← versionNumber c.next
    if isSpaceOrEnd c.head then .ok (.version major minor, c)
    else complain (some .directive) (.notDigitOrSpace c.head) c.position

def tagDirective (c : Cursor) : Except Failure (Directive × Cursor) := do
  let (handle, c) ← handle .directive c.dropSpaces
  if c.head ≠ ' ' then complain (some .directive) (.notSpace c.head) c.position
  else
    let (stem, c) ← uri .directive c.dropSpaces
    if isSpaceOrEnd c.head then .ok (.tag handle stem, c)
    else complain (some .directive) (.notSpace c.head) c.position

/-- Reads what may follow on a line that is finished: spaces and a comment. -/
def lineEnd (activity : Activity) (c : Cursor) : Except Failure Cursor :=
  let c := c.dropSpaces.dropComment
  if isBreakOrEnd c.head then .ok c.takeBreak.2
  else complain (some activity) (.notLineEnd c.head) c.position

/-- The name of a directive, which has to end at a space or at a line end. -/
def directiveName (c : Cursor) : Except Failure (String × Cursor) :=
  let (text, rest) := c.takeWhile isNameChar
  if text.isEmpty || !isSpaceOrEnd rest.head then
    complain (some .directive) (.notName rest.head) rest.position
  else .ok (String.ofList text, rest)

/-- Reads a directive.  The rest of the line is skipped if the name is not known. -/
def directive (c : Cursor) : Except Failure (Lexeme × Cursor) := do
  let (name, rest) ← directiveName c.next
  let (d, stop, rest) ←
    if name = "YAML" then (version rest).map fun r => (r.1, r.2.position, r.2)
    else if name = "TAG" then (tagDirective rest).map fun r => (r.1, r.2.position, r.2)
    else .ok (.other name, rest.position, rest.dropWhile fun x => !isBreakOrEnd x)
  let rest ← lineEnd .directive rest
  .ok (⟨.directive d, c.position, stop⟩, rest)

end Wireframe.Yaml.Lexeme
