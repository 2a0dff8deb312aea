import RazenLint.Event.CallHead
import RazenLint.Kind

/-!
# Statements

A line of code can begin with a declaration or be an import. `Assignment` is a
declaration as it is written : the keyword, the name, and the columns where
they and the value begin. Two equals signs compare and declare nothing.
-/

namespace RazenLint

open Text

/-- The parts of a declaration with the columns in which they begin. -/
structure Assignment where
  keyword : List Char
  keywordColumn : Nat
  kind : Kind
  name : List Char
  nameColumn : Nat
  /-- The column after the equals sign. -/
  valueColumn : Nat
deriving DecidableEq, Repr

/-- Two words that are apart by blanks, as a line of code begins with them. -/
structure WordPair where
  first : List Char
  firstColumn : Nat
  second : List Char
  secondColumn : Nat
  /-- What follows the second word and the blanks after it. -/
  rest : List Char
  /-- The column in which `rest` begins. -/
  restColumn : Nat
deriving DecidableEq, Repr

/-- The two words that a line of code begins with, after any blanks. -/
def wordPair? (code : List Char) : Option WordPair := do
  let indent := (code.takeWhile isBlank).length
  let (first, afterFirst) ← takeIdent? (trimStart code)
  let gap := (afterFirst.takeWhile isBlank).length
  if gap = 0 then none
  else
    let (second, afterSecond) ← takeIdent? (trimStart afterFirst)
    let secondColumn := indent + first.length + gap
    return {
      first, firstColumn := indent, second, secondColumn
      rest := trimStart afterSecond
      restColumn := secondColumn + second.length + (afterSecond.takeWhile isBlank).length }

/-- The declaration that a line of code begins with. -/
def assignment? (code : List Char) : Option Assignment := do
  let words ← wordPair? code
  let kind ← Kind.ofKeyword? (String.ofList words.first)
  match words.rest with
  | '=' :: value =>
    if value.head? = some '=' then none
    else return {
      keyword := words.first, keywordColumn := words.firstColumn, kind
      name := words.second, nameColumn := words.secondColumn
      valueColumn := words.restColumn + 1 }
  | _ => none

/-- The import that a line of code is : keyword, name and at most a semicolon. -/
def importWords? (code : List Char) : Option WordPair := do
  let words ← wordPair? code
  let tail := match words.rest with
    | ';' :: rest => rest
    | rest => rest
  if String.ofList words.first ∈ importKeywords ∧ tail.all isBlank then return words else none

end RazenLint
