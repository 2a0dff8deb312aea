/-!
# ASCII letters and digits

Names are compared without regard to the case of ASCII letters. Letters outside
ASCII have no other case here.
-/

namespace RazenLint.Text

/-- A text with its ASCII capital letters made small, and nothing else changed. -/
def asciiLower (text : String) : String :=
  String.ofList (text.toList.map Char.toLower)

/-- Whether two texts differ at most in the case of ASCII letters. -/
def sameIgnoringCase (first second : String) : Bool :=
  asciiLower first = asciiLower second

/-- The value of a hexadecimal digit. -/
def hexDigit? (c : Char) : Option Nat :=
  if c.isDigit then some (c.toNat - '0'.toNat)
  else if 'a' ≤ c ∧ c ≤ 'f' then some (c.toNat - 'a'.toNat + 10)
  else if 'A' ≤ c ∧ c ≤ 'F' then some (c.toNat - 'A'.toNat + 10)
  else none

end RazenLint.Text
