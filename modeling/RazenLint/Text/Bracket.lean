/-!
# Matching brackets

`closingDistance` finds the parenthesis that brings the depth back to zero, and
`encloses` says whether the bracket that a text begins with is closed by its
last character. Both read masked text, so brackets inside literals do not count.
-/

namespace RazenLint.Text

/-- How many characters stand before the closing parenthesis that ends `depth`
open ones, or the one that `depth` open ones do not account for. -/
def closingDistance : Nat → List Char → Option Nat
  | _, [] => none
  | depth, c :: cs =>
    if c = '(' then (closingDistance (depth + 1) cs).map (· + 1)
    else if c = ')' then
      if depth ≤ 1 then some 0 else (closingDistance (depth - 1) cs).map (· + 1)
    else (closingDistance depth cs).map (· + 1)

/-- Column of the parenthesis that closes the one in column `opening`. -/
def closingParen (masked : List Char) (opening : Nat) : Option Nat :=
  (closingDistance 0 (masked.drop opening)).map (· + opening)

/-- Whether the depth of the bracket pair, `depth` before the text, comes back
to zero at the end of the text and not before it. -/
def closesAtEnd (opening closing : Char) : Nat → List Char → Bool
  | depth, [] => depth = 0
  | depth, c :: cs =>
    if c = opening then closesAtEnd opening closing (depth + 1) cs
    else if c = closing then
      if depth ≤ 1 ∧ cs ≠ [] then false else closesAtEnd opening closing (depth - 1) cs
    else closesAtEnd opening closing depth cs

/-- Whether a text is one bracketed group from its first character to its last. -/
def encloses (opening closing : Char) (masked : List Char) : Bool :=
  2 ≤ masked.length && masked.head? = some opening && masked.getLast? = some closing &&
    closesAtEnd opening closing 0 masked

end RazenLint.Text
