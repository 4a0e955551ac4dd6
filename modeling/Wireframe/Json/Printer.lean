import Wireframe.Decimal.Shortest
import Wireframe.Json.Basic
import Wireframe.Text.Quoted

/-!
# Writing JSON

The members of an object are written in the order of their names.  Without an
indent everything is on one line; with one, every item and member has a line of
its own and an empty container stays on one.
-/

namespace Wireframe.Json

open Wireframe.Text

/-- One character of a string; control characters, quotes and backslashes are escaped. -/
def escapeChar (c : Char) : List Char :=
  match c with
  | '"' => ['\\', '"']
  | '\\' => ['\\', '\\']
  | '\n' => ['\\', 'n']
  | '\r' => ['\\', 'r']
  | '\t' => ['\\', 't']
  | '\x08' => ['\\', 'b']
  | '\x0c' => ['\\', 'f']
  | c => if c.toNat < 0x20 then '\\' :: 'u' :: hexDigits 4 c.toNat else [c]

def quoteString (s : String) : String :=
  String.ofList ('"' :: s.toList.flatMap escapeChar ++ ['"'])

/-- The text of a number; the special ones have names. -/
def numberText : Decimal.Double → String
  | .nan => "NaN"
  | .infinite negative => if negative then "-Infinity" else "Infinity"
  | d => d.render

/-- How the parts of a container are set out. -/
structure Layout where
  indent : Option String
  comma : String
  colon : String

namespace Layout

def compact : Layout := ⟨none, ",", ":"⟩

def spaced : Layout := ⟨none, ", ", ": "⟩

def lines (indent : String) : Layout := ⟨some indent, ",", ": "⟩

def lineStart (l : Layout) (level : Nat) : String :=
  match l.indent with
  | none => ""
  | some unit => "\n" ++ String.join (List.replicate level unit)

def enclose (l : Layout) (level : Nat) (opening closing : String) (parts : List String) : String :=
  if parts.isEmpty then opening ++ closing
  else
    opening ++ l.lineStart (level + 1) ++ (l.comma ++ l.lineStart (level + 1)).intercalate parts ++
      l.lineStart level ++ closing

end Layout

/-- Members in the order of their names. -/
def sortMembers (members : List (String × String)) : List (String × String) :=
  members.mergeSort fun a b => a.1 ≤ b.1

mutual

def renderAt (l : Layout) (level : Nat) : Json → String
  | null => "null"
  | bool b => if b then "true" else "false"
  | integer i => toString i
  | number d => numberText d
  | string s => quoteString s
  | array items => l.enclose level "[" "]" (renderItems l (level + 1) items)
  | object members =>
    l.enclose level "\x7b" "\x7d"
      ((sortMembers (renderMembers l (level + 1) members)).map Prod.snd)

def renderItems (l : Layout) (level : Nat) : List Json → List String
  | [] => []
  | j :: js => renderAt l level j :: renderItems l level js

def renderMembers (l : Layout) (level : Nat) : List (String × Json) → List (String × String)
  | [] => []
  | (name, j) :: ms =>
    (name, quoteString name ++ l.colon ++ renderAt l level j) :: renderMembers l level ms

end

def render (l : Layout) (j : Json) : String := renderAt l 0 j

end Wireframe.Json
