import Wireframe.Text.CaseTable

/-!
# Lower-casing

Every character is mapped on its own, with two exceptions: a capital I with a
dot becomes two characters, and a capital sigma takes its final form at the end
of a word, that is after a cased character and not before one, where ignorable
characters in between are looked through.
-/

namespace Wireframe.Text

/-- The lower-case form of a character that has one of a single character. -/
def lowerChar (c : Char) : Char :=
  let n := c.toNat
  if n < 0x80 then
    if 'A' ≤ c ∧ c ≤ 'Z' then Char.ofNat (n + 32) else c
  else
    match caseRuns.find? fun r => r.first ≤ n && n ≤ r.last && (n - r.first) % r.step == 0 with
    | some r => Char.ofNat (n + r.shift).toNat
    | none => c

def inRanges (ranges : List (Nat × Nat)) (c : Char) : Bool :=
  ranges.any fun r => r.1 ≤ c.toNat && c.toNat ≤ r.2

/-- Whether the first character that is not looked through is cased. -/
def startsCased : List Char → Bool
  | [] => false
  | c :: s => if inRanges caseIgnorableRanges c then startsCased s else inRanges casedRanges c

/-- Lower-cases a text whose preceding characters, nearest first, are given. -/
def lowerAfter (before : List Char) : List Char → List Char
  | [] => []
  | c :: s =>
    let mapped :=
      if c = '\u0130' then ['i', '\u0307']
      else if c = '\u03a3' then
        [if startsCased before && !startsCased s then '\u03c2' else '\u03c3']
      else [lowerChar c]
    mapped ++ lowerAfter (c :: before) s

def lower (s : String) : String :=
  String.ofList (lowerAfter [] s.toList)

end Wireframe.Text
