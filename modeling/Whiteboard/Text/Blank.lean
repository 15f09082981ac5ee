import Whiteboard.Text.Span

/-!
# Blanks

White space of every script, and texts without the blanks around them.
-/

namespace Whiteboard.Text

/-- White space: the ASCII blanks and separators, and the blanks of other blocks. -/
def isBlank (c : Char) : Bool :=
  let n := c.toNat
  (9 ≤ n && n ≤ 13) || (28 ≤ n && n ≤ 32) || n == 0x85 || n == 0xA0 || n == 0x1680 ||
    (0x2000 ≤ n && n ≤ 0x200A) || n == 0x2028 || n == 0x2029 || n == 0x202F || n == 0x205F ||
    n == 0x3000

/-- A text without its leading blanks. -/
def trimLeft (cs : List Char) : List Char := cs.dropWhile isBlank

/-- A text without the characters of a class at its end. -/
def dropEndWhile (p : Char → Bool) (cs : List Char) : List Char :=
  (cs.reverse.dropWhile p).reverse

/-- A text without the blanks around it. -/
def trim (cs : List Char) : List Char := dropEndWhile isBlank (trimLeft cs)

/-- Blanks that may stand around a number: all but the ASCII separators. -/
def isSpace (c : Char) : Bool := isBlank c && !(28 ≤ c.toNat && c.toNat ≤ 31)

/-- A text without the blanks that may stand around a number. -/
def trimSpaces (cs : List Char) : List Char := dropEndWhile isSpace (cs.dropWhile isSpace)

/-- Splits off the leading blanks. -/
def spanBlank (cs : List Char) : List Char × List Char := span isBlank cs

end Whiteboard.Text
