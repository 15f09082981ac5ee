import Whiteboard.Text.Hex
import Whiteboard.Text.Utf8

/-!
# Percent signs

Texts in which octets are written as a percent sign and two hexadecimal digits. A percent sign
without two such digits behind it stands for itself.
-/

namespace Whiteboard.Text

/-- The octet that two hexadecimal digits write. -/
def octet? (high low : Char) : Option Nat := do
  return (← hexValue? high) * 16 + (← hexValue? low)

/-- A character that stands for itself, after a character was begun or not. -/
def plainChar (begun : Option Begun) (c : Char) : List Char × Option Begun :=
  if c.toNat < 0x80 then nextOctet begun c.toNat else (brokenOff begun ++ [c], none)

/-- The text written, after a character was begun or not. -/
def decodePercentFrom (begun : Option Begun) : List Char → List Char
  | [] => brokenOff begun
  | '%' :: high :: low :: rest =>
    match octet? high low with
    | some octet =>
      let (cs, begun) := nextOctet begun octet
      cs ++ decodePercentFrom begun rest
    | none =>
      let (cs, begun) := plainChar begun '%'
      cs ++ decodePercentFrom begun (high :: low :: rest)
  | c :: rest =>
    let (cs, begun) := plainChar begun c
    cs ++ decodePercentFrom begun rest

/-- The text that percent signs and other characters write. -/
def decodePercent (cs : List Char) : List Char := decodePercentFrom none cs

end Whiteboard.Text
