/-!
# UTF-8

Octets as characters. Where octets write no character, a mark stands in place of those that could
have begun one.
-/

namespace Whiteboard.Text

/-- The mark for octets that write no character. -/
def replacement : Char := '\uFFFD'

/-- A character of which some octets were read: the bits so far, how many octets come after the
next one, and the least and the greatest octet that the next one may be. -/
structure Begun where
  bits : Nat
  more : Nat
  low : Nat
  high : Nat
  deriving DecidableEq, Repr

/-- The first octet of a character of several octets. -/
def begin? (octet : Nat) : Option Begun :=
  if 0xC2 ≤ octet ∧ octet ≤ 0xDF then some ⟨octet - 0xC0, 0, 0x80, 0xBF⟩
  else if octet = 0xE0 then some ⟨0, 1, 0xA0, 0xBF⟩
  else if octet = 0xED then some ⟨0xD, 1, 0x80, 0x9F⟩
  else if 0xE1 ≤ octet ∧ octet ≤ 0xEF then some ⟨octet - 0xE0, 1, 0x80, 0xBF⟩
  else if octet = 0xF0 then some ⟨0, 2, 0x90, 0xBF⟩
  else if 0xF1 ≤ octet ∧ octet ≤ 0xF3 then some ⟨octet - 0xF0, 2, 0x80, 0xBF⟩
  else if octet = 0xF4 then some ⟨4, 2, 0x80, 0x8F⟩
  else none

/-- What an octet between two characters yields. -/
def firstOctet (octet : Nat) : List Char × Option Begun :=
  if octet < 0x80 then ([Char.ofNat octet], none)
  else
    match begin? octet with
    | some b => ([], some b)
    | none => ([replacement], none)

/-- What an octet yields after a character was begun or not. -/
def nextOctet (begun : Option Begun) (octet : Nat) : List Char × Option Begun :=
  match begun with
  | none => firstOctet octet
  | some b =>
    if b.low ≤ octet ∧ octet ≤ b.high then
      let bits := 64 * b.bits + (octet - 0x80)
      match b.more with
      | 0 => ([Char.ofNat bits], none)
      | more + 1 => ([], some ⟨bits, more, 0x80, 0xBF⟩)
    else
      let (cs, begun) := firstOctet octet
      (replacement :: cs, begun)

/-- What stands for a character that breaks off. -/
def brokenOff : Option Begun → List Char
  | none => []
  | some _ => [replacement]

end Whiteboard.Text
