/-!
# Lines

A text is cut at its newlines. `segments` keeps every piece, so that joining
them with newlines gives the text back. `lines` is the view a reader has of
the text : a carriage return before a newline belongs to the line end, and an
empty piece after the last newline is no line.
-/

namespace RazenLint.Text

/-- Adds a character to the first of the pieces. -/
def consFirst (c : Char) : List (List Char) → List (List Char)
  | [] => [[c]]
  | first :: rest => (c :: first) :: rest

/-- The pieces of a text between its newlines. There is always one. -/
def segments : List Char → List (List Char)
  | [] => [[]]
  | c :: cs => if c = '\n' then [] :: segments cs else consFirst c (segments cs)

/-- A line without one carriage return at its end. -/
def dropReturn (line : List Char) : List Char :=
  if line.getLast? = some '\r' then line.dropLast else line

/-- Reads the pieces as lines. The last piece has no newline after it, so it
keeps a carriage return and, when empty, is dropped. -/
def linesOfSegments : List (List Char) → List (List Char)
  | [] => []
  | [last] => if last.isEmpty then [] else [last]
  | piece :: next :: rest => dropReturn piece :: linesOfSegments (next :: rest)

def lines (text : List Char) : List (List Char) :=
  linesOfSegments (segments text)

theorem segments_ne_nil (text : List Char) : segments text ≠ [] := by
  cases text with
  | nil => simp [segments]
  | cons c cs =>
    unfold segments
    split
    · simp
    · cases segments cs <;> simp [consFirst]

end RazenLint.Text
