import RazenLint.Yaml.Scalar

/-!
# Scalars below an indicator

A scalar may stand in lines below its indicator, which all are indented as far as the
first one that is not empty, or as far as the indicator says. The lines are kept or
joined, and the indicator says what becomes of the breaks behind the last one.
-/

namespace RazenLint.Yaml

/-- What becomes of the breaks behind the last line. -/
inductive Chomping where
  /-- None is kept. -/
  | strip
  /-- One is kept. -/
  | clip
  /-- All are kept. -/
  | keep
deriving DecidableEq, Repr

namespace Chomping

def ofSign? (c : Char) : Option Chomping :=
  [('+', keep), ('-', strip)].lookup c

/-- What is kept, in reverse, of the break of the last line and of the breaks behind it. -/
def kept (chomping : Chomping) (lineBreak : Option Char) (reversed : List Char) : List Char :=
  match chomping with
  | strip => []
  | clip => lineBreak.toList
  | keep => reversed ++ lineBreak.toList

end Chomping

/-- What stands behind an indicator. -/
structure BlockHeader where
  chomping : Chomping
  /-- How much deeper the lines are than the collection around them, if it is said. -/
  increment : Option Nat
deriving DecidableEq, Repr

/-- Reads the sign and the digit behind an indicator, in either order, and ends its line. -/
def blockHeader (cursor : Cursor) : Except Problem (BlockHeader × Cursor) :=
  let (before, cursor) := cursor.accept Chomping.ofSign?
  let (increment, cursor) := cursor.accept fun c =>
    if c.isDigit then some (c.toNat - '0'.toNat) else none
  let (behind, cursor) := if before.isSome then (none, cursor) else cursor.accept Chomping.ofSign?
  if increment = some 0 then .error .zeroIndentation
  else do return (⟨(before <|> behind).getD .clip, increment⟩, ← cursor.endLine)

/-- Passes over the indentation of a line and over empty lines before it, in at most the
given steps. Gives their breaks in reverse, and the deepest indentation that it met. No more
than `indent` spaces are passed over, if it is not 0. -/
def blockGap (steps indent deepest : Nat) (reversed : List Char) (cursor : Cursor) :
    Except Problem (List Char × Nat × Cursor) :=
  let spaces := (cursor.rest.takeWhile (· = ' ')).length
  let cursor := cursor.skip (if indent = 0 then spaces else min spaces (indent - cursor.column))
  let deepest := max deepest cursor.column
  match steps, cursor.rest with
  | 0, _ | _, [] => .ok (reversed, deepest, cursor)
  | steps + 1, c :: _ =>
    if c = '\t' ∧ (indent = 0 ∨ cursor.column < indent) then .error .tabInBlock
    else if isBreak c then blockGap steps indent deepest (c :: reversed) cursor.next
    else .ok (reversed, deepest, cursor)

/-- Reads on in the lines that are indented by `indent`, in at most the given steps. `text` is
what was read before in reverse, `lineBreak` and `breaks` stand behind its last line, and
`deeper` says whether that line begins with a blank. The break between two lines that do not
is folded. -/
def blockFrom (steps : Nat) (folds : Bool) (indent : Nat) (chomping : Chomping) (text : List Char)
    (lineBreak : Option Char) (breaks : List Char) (deeper : Bool) (cursor : Cursor) :
    Except Problem ScalarEnd :=
  let done : ScalarEnd :=
    ⟨String.ofList (chomping.kept lineBreak breaks ++ text).reverse, true, cursor⟩
  match steps, cursor.rest with
  | 0, _ | _, [] => .ok done
  | steps + 1, c :: _ =>
    if cursor.column = indent then do
      let fold := folds && lineBreak = some '\n' && !deeper && !isGap c
      let joint :=
        if fold then if breaks.isEmpty then [' '] else breaks else breaks ++ lineBreak.toList
      let line := cursor.rest.takeWhile fun c => !isBreak c
      let behind := cursor.skip line.length
      let (found, _, next) ← blockGap behind.rest.length indent 0 [] behind.next
      blockFrom steps folds indent chomping (line.reverse ++ joint ++ text) behind.rest.head? found
        (isGap c) next
    else .ok done

/-- Reads a scalar at its indicator, inside a collection at the column `around`. -/
def blockScalar (folds : Bool) (around : Int) (cursor : Cursor) : Except Problem ScalarEnd := do
  let (header, cursor) ← blockHeader cursor.next
  let known := header.increment.map ((max around 0).toNat + ·)
  let steps := cursor.rest.length + 1
  let (breaks, deepest, cursor) ← blockGap steps (known.getD 0) 0 [] cursor
  let indent := known.getD (max deepest (max (around + 1) 1).toNat)
  blockFrom steps folds indent header.chomping [] none breaks false cursor

end RazenLint.Yaml
