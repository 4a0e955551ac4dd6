/-!
# Blank characters

Two notions of white space are in use.  Names and plain text are trimmed and
cut at every blank character; numbers written as text are trimmed at spaces
only, which leave out the four information separators U+001C to U+001F.
-/

namespace Wireframe.Text

/-- White space of names and plain text, the information separators included. -/
def isBlank (c : Char) : Bool :=
  let n := c.toNat
  (0x09 ≤ n && n ≤ 0x0d) || (0x1c ≤ n && n ≤ 0x20) || n == 0x85 || n == 0xa0 || n == 0x1680 ||
    (0x2000 ≤ n && n ≤ 0x200a) || n == 0x2028 || n == 0x2029 || n == 0x202f || n == 0x205f ||
    n == 0x3000

def isSpace (c : Char) : Bool :=
  isBlank c && !(0x1c ≤ c.toNat && c.toNat ≤ 0x1f)

/-- The text without the leading and trailing characters of a class. -/
def trim (p : Char → Bool) (s : List Char) : List Char :=
  ((s.dropWhile p).reverse.dropWhile p).reverse

def splitAt (p : Char → Bool) : List Char → List (List Char)
  | [] => [[]]
  | c :: s =>
    if p c then [] :: splitAt p s
    else match splitAt p s with
      | [] => [[c]]
      | piece :: rest => (c :: piece) :: rest

theorem splitAt_eq_splitOnP (p : Char → Bool) (s : List Char) :
    splitAt p s = s.splitOnP p := by
  induction s with
  | nil => rfl
  | cons c s ih =>
      obtain ⟨piece, rest, hpieces⟩ := List.exists_cons_of_ne_nil (List.splitOnP_ne_nil p s)
      rw [splitAt, List.splitOnP_cons_eq_if_modifyHead, ih, hpieces]
      rfl

end Wireframe.Text
