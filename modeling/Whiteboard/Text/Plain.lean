import Whiteboard.Text.Blank
import Whiteboard.Text.Word

/-!
# Plain texts

Texts of numbers with the blanks and digits of other scripts replaced by those of ASCII.
-/

namespace Whiteboard.Text

/-- A character of a number made plain: a blank becomes a space, a digit one of ASCII. -/
def plain? (c : Char) : Option Char :=
  if c.toNat < 127 then some c
  else if isBlank c then some ' '
  else (digitValue? c).map fun d => Char.ofNat ('0'.toNat + d)

/-- The characters made plain. A text that has only plain characters stays as it is. -/
def plainChars? (cs : List Char) : Option (List Char) :=
  if cs.all fun c => c.toNat < 128 then some cs else cs.mapM plain?

/-- The plain blanks. -/
def isPlainBlank (c : Char) : Bool := c == ' ' || (9 ≤ c.toNat && c.toNat ≤ 13)

/-- A text made plain, without the blanks around it. -/
def trimPlain? (cs : List Char) : Option (List Char) :=
  (plainChars? cs).map fun cs => dropEndWhile isPlainBlank (cs.dropWhile isPlainBlank)

end Whiteboard.Text
