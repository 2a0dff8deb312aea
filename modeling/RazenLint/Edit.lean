import RazenLint.Diagnostic

/-!
# Text edits

An edit puts new text in place of a range. Edits are applied from the end of
the text backwards, so that the offsets of the ones still to come stay right,
and an edit that overlaps one already chosen is left out. A range that is not
in the text, or that ends before it starts, has no offsets and is left out too.
-/

namespace RazenLint

open Text

structure TextEdit where
  range : Range
  newText : String
deriving DecidableEq, Repr

/-- An edit whose range is given in characters from the start of the text. -/
structure Replacement where
  start : Nat
  stop : Nat
  newText : List Char
deriving DecidableEq, Repr

/-- Number of characters before a position in a text that is given by its
segments. A line has a place after its last character, and the carriage return
of a line end has none after it. -/
def offsetInSegments? : List (List Char) → Nat → Nat → Option Nat
  | [], _, _ => none
  | piece :: _, 0, character =>
    if character ≤ (dropReturn piece).length then some character else none
  | piece :: rest, line + 1, character =>
    (offsetInSegments? rest line character).map (· + (piece.length + 1))

/-- Number of characters before a position. -/
def offset? (text : List Char) (position : Position) : Option Nat :=
  offsetInSegments? (segments text) position.line position.character

/-- The replacement that an edit makes in a text. -/
def TextEdit.resolve? (text : List Char) (edit : TextEdit) : Option Replacement := do
  let start ← offset? text edit.range.start
  let stop ← offset? text edit.range.stop
  if start ≤ stop then return ⟨start, stop, edit.newText.toList⟩ else none

namespace Replacement

/-- Whether a replacement comes before another one when a text is edited from
its end : the one that starts later, and of two with one start the longer. -/
def comesFirst (a b : Replacement) : Bool :=
  b.start < a.start || (a.start = b.start && b.stop ≤ a.stop)

/-- The replacements that end at or before `limit` and at or before the start
of the last one taken. -/
def choose (limit : Nat) : List Replacement → List Replacement
  | [] => []
  | r :: rest => if r.stop ≤ limit then r :: choose r.start rest else choose limit rest

/-- A text with one replacement made. -/
def apply (text : List Char) (r : Replacement) : List Char :=
  text.take r.start ++ r.newText ++ text.drop r.stop

end Replacement

/-- The replacements that edits make in a text, last place first. -/
def chosenReplacements (text : List Char) (edits : List TextEdit) : List Replacement :=
  Replacement.choose text.length ((edits.filterMap (·.resolve? text)).mergeSort Replacement.comesFirst)

/-- The edited text and the number of edits applied. -/
def applyEdits (text : List Char) (edits : List TextEdit) : List Char × Nat :=
  let chosen := chosenReplacements text edits
  (chosen.foldl Replacement.apply text, chosen.length)

end RazenLint
