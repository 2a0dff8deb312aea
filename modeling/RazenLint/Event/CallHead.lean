import RazenLint.Text.Blank
import RazenLint.Text.WordChar

/-!
# Heads of library calls

The head of a call runs from the library to the opening parenthesis. `headAt?`
reads the head that a text begins with, and `callHeads` lists the heads of a
line with their columns. A head begins at a word boundary, so no head lies
inside another one.
-/

namespace RazenLint

open Text

structure CallHead where
  library : List Char
  function : List Char
  legacy : Bool
  /-- Blanks before the opening parenthesis. -/
  blanks : Nat
deriving DecidableEq, Repr

namespace CallHead

/-- Distance from the library to the function. -/
def functionOffset (head : CallHead) : Nat :=
  head.library.length + if head.legacy then 1 else 2

/-- Distance from the library to the opening parenthesis. -/
def openingOffset (head : CallHead) : Nat :=
  head.functionOffset + head.function.length + (if head.legacy then 1 else 0) + head.blanks

end CallHead

/-- The blanks before an opening parenthesis, when nothing else stands before it. -/
def blanksBeforeParen? (cs : List Char) : Option Nat :=
  if (trimStart cs).head? = some '(' then some (cs.takeWhile isBlank).length else none

/-- The head that a text begins with. -/
def headAt? (cs : List Char) : Option CallHead := do
  let (library, rest) ← takeIdent? cs
  match rest with
  | ':' :: ':' :: rest =>
    let (function, rest) ← takeIdent? rest
    let blanks ← blanksBeforeParen? rest
    return ⟨library, function, false, blanks⟩
  | '[' :: rest =>
    match ← takeIdent? rest with
    | (function, ']' :: rest) =>
      let blanks ← blanksBeforeParen? rest
      return ⟨library, function, true, blanks⟩
    | _ => none
  | _ => none

/-- The heads of a text that follows the given character, each with its column,
when the text begins in the given column. -/
def callHeadsFrom (column : Nat) (previous : Option Char) : List Char → List (Nat × CallHead)
  | [] => []
  | c :: cs =>
    let later := callHeadsFrom (column + 1) (some c) cs
    if boundaryAfter previous then
      match headAt? (c :: cs) with
      | some head => (column, head) :: later
      | none => later
    else later

/-- The heads of a line of code, each with its column, from left to right. -/
def callHeads (code : List Char) : List (Nat × CallHead) :=
  callHeadsFrom 0 none code

end RazenLint
