import Whiteboard.Text.Hex

/-!
# Fresh ids

Ids are made from a supply of codes of 32 characters, each asked for once. Nothing is assumed about
the codes here; that they do not repeat is a matter of the supply.
-/

namespace Whiteboard

/-- A supply of codes, and how many of them were issued. -/
structure IdSupply where
  code : Nat → String
  issued : Nat := 0

namespace IdSupply

/-- The first characters of the next code. -/
def front (s : IdSupply) (n : Nat) : String := String.ofList ((s.code s.issued).toList.take n)

/-- The id of the next element. -/
def elementId (s : IdSupply) : String := "el" ++ s.front 12

/-- The mark that tells apart the elements of one drawing. -/
def shortId (s : IdSupply) : String := s.front 9

/-- The supply after a code was issued. -/
def next (s : IdSupply) : IdSupply := { s with issued := s.issued + 1 }

/-- The golden section of the range of 32 hexadecimal digits. -/
def goldenStep : Nat := 0x9e3779b97f4a7c15f39cc0605cedc835

/-- Codes that step through all codes from a seed on, so far apart that already their first
characters differ for long. -/
def spread (seed : Nat) : IdSupply where
  code n := String.ofList (Text.hex 32 ((seed + n * goldenStep) % Nat.pow 16 32))

/-- Codes that count from one, in nine decimal digits followed by zeros. -/
def counting : IdSupply where
  code n :=
    let digits := Nat.toDigits 10 (n + 1)
    String.ofList (List.replicate (9 - digits.length) '0' ++ digits ++ List.replicate 23 '0')

end IdSupply

end Whiteboard
