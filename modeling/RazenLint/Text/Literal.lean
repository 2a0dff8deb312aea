import RazenLint.Text.Blank

/-!
# String literals and comments on a line

A line is read from left to right. A quote opens a literal, the same quote
closes it, and inside a literal a backslash takes the next character with it.
`mask` puts a blank in place of every character inside a literal and keeps the
quotes, so a masked line has the columns of the line itself. A literal that is
not closed runs to the end of the line. `code` is the masked line up to the
comment sign.
-/

namespace RazenLint.Text

/-- Where a reading of a line stands : in code, in a literal with the given
quote, or after a backslash in such a literal. -/
inductive Reading where
  | code
  | literal (quote : Char)
  | escape (quote : Char)
deriving DecidableEq, Repr

def isQuote (c : Char) : Bool :=
  c == '"' || c == '\''

namespace Reading

/-- The reading after one more character. -/
def next : Reading → Char → Reading
  | code, c => if isQuote c then literal c else code
  | literal quote, c => if c = '\\' then escape quote else if c = quote then code else literal quote
  | escape quote, _ => literal quote

/-- The reading after a whole text. -/
def after (reading : Reading) (cs : List Char) : Reading :=
  cs.foldl next reading

/-- Whether the next character is inside a literal. The quotes at its ends are not. -/
def hides : Reading → Char → Bool
  | code, _ => false
  | literal quote, c => c = '\\' || c ≠ quote
  | escape _, _ => true

/-- Whether a literal is open. -/
def isOpen : Reading → Bool
  | code => false
  | literal _ => true
  | escape _ => true

end Reading

/-- A line from a given reading on, with blanks in place of what literals hold. -/
def maskFrom : Reading → List Char → List Char
  | _, [] => []
  | reading, c :: cs => (if reading.hides c then ' ' else c) :: maskFrom (reading.next c) cs

/-- A line with blanks in place of what its literals hold. -/
def mask (line : List Char) : List Char :=
  maskFrom .code line

/-- Masking keeps every column. -/
@[simp] theorem length_maskFrom (reading : Reading) (line : List Char) :
    (maskFrom reading line).length = line.length := by
  induction line generalizing reading with
  | nil => rfl
  | cons c cs ih => simp [maskFrom, ih]

@[simp] theorem length_mask (line : List Char) : (mask line).length = line.length :=
  length_maskFrom .code line

/-- The sign that begins a comment outside literals. -/
def commentSign : Char := '#'

/-- The masked line up to its comment. -/
def code (line : List Char) : List Char :=
  (mask line).takeWhile (· ≠ commentSign)

/-- Whether a line holds a comment and nothing else. -/
def isCommentLine (line : List Char) : Bool :=
  (trimStart line).head? = some commentSign

/-- The code of a line, empty when the line is a comment. -/
def codeOrNothing (line : List Char) : List Char :=
  if isCommentLine line then [] else code line

end RazenLint.Text
