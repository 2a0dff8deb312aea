/-!
# Sets of code points

A character class of the Unicode standard is a list of closed ranges of code
points in ascending order. `CodePoints.has` looks a character up and stops at
the first range that begins past it.
-/

namespace RazenLint.Text

/-- Closed ranges of code points, disjoint and ascending. -/
abbrev CodePoints := List (Nat × Nat)

namespace CodePoints

/-- Whether a code point lies in one of the ranges. -/
def hasNat : CodePoints → Nat → Bool
  | [], _ => false
  | (low, high) :: rest, n => if n < low then false else n ≤ high || hasNat rest n

/-- Whether a character lies in one of the ranges. -/
def has (set : CodePoints) (c : Char) : Bool :=
  set.hasNat c.toNat

end CodePoints

end RazenLint.Text
