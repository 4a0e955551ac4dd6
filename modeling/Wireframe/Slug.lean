import Wireframe.Text.Blank
import Wireframe.Text.Lowercase

/-!
# Slugs

A slug is made of ASCII lower-case letters, digits, Hiragana, Katakana and common
ideographs, with single underscores between its words.  A name is made into a slug
in steps: it is lower-cased, loses its parentheses, has an underscore put for every
middle dot and every run of blanks, and loses what slugs do not keep.  What runs of
underscores have come about is tidied up last.  Taken slugs are told apart by
numbers from two on.
-/

namespace Wireframe

open Wireframe.Text

namespace Slug

/-- Parentheses of either width are left out without parting words. -/
def isParenthesis (c : Char) : Bool :=
  c == '(' || c == ')' || c == '\uff08' || c == '\uff09'

/-- The middle dot parts words like an underscore. -/
def partDot (c : Char) : Char := if c == '\u30fb' then '_' else c

/-- Every run of characters of a class becomes one underscore. -/
def joinRuns (p : Char → Bool) : List Char → List Char
  | [] => []
  | c :: s =>
    if !p c then c :: joinRuns p s
    else if s.head?.any p then joinRuns p s
    else '_' :: joinRuns p s

/-- Characters that words of slugs are made of. -/
def isWordChar (c : Char) : Bool :=
  ('a' ≤ c && c ≤ 'z') || ('0' ≤ c && c ≤ '9') || ('\u3040' ≤ c && c ≤ '\u309f') ||
    ('\u30a0' ≤ c && c ≤ '\u30ff') || ('\u4e00' ≤ c && c ≤ '\u9faf')

def isKept (c : Char) : Bool := isWordChar c || c == '_'

/-- Single underscores between words and none at the ends. -/
def tidy (s : List Char) : List Char := trim (· == '_') (joinRuns (· == '_') s)

/-- The slug of a name in lower case. -/
def ofChars (s : List Char) : List Char :=
  let shown := s.filter fun c => !isParenthesis c
  let parted := joinRuns isBlank (shown.map partDot)
  tidy (parted.filter isKept)

/-- The slug of a name; it is empty for a name without any character that slugs keep. -/
def ofName (name : String) : String :=
  String.ofList (ofChars (lower name).toList)

def variant (key : String) (n : Nat) : String :=
  key ++ "_" ++ toString n

/-- The first variant that is not taken among those numbered from `n` on. -/
def freeFrom (taken : List String) (key : String) (n : Nat) : (left : Nat) → String
  | 0 => variant key n
  | left + 1 => if taken.contains (variant key n) then freeFrom taken key (n + 1) left
    else variant key n

/-- The key itself if it is free, else its first free variant.  There are never more
taken variants than taken keys. -/
def unique (taken : List String) (key : String) : String :=
  if taken.contains key then freeFrom taken key 2 taken.length else key

end Slug

end Wireframe
