import RazenLint.Text.Literal

/-!
# Columns and byte offsets

A column counts characters, a byte offset counts the bytes of the UTF-8 form.
`byteOffset?` and `columnAt` lead from one to the other. `maskBytes` is the
masked line for a reader that counts bytes : it puts one blank for every byte
of a character inside a literal.
-/

namespace RazenLint.Text

/-- Number of bytes of a text in UTF-8. -/
def byteLength : List Char → Nat
  | [] => 0
  | c :: cs => c.utf8Size + byteLength cs

/-- Byte offset of a column. The column after the last character has the length
of the line as its offset, and larger columns have none. -/
def byteOffset? : List Char → Nat → Option Nat
  | _, 0 => some 0
  | [], _ + 1 => none
  | c :: cs, column + 1 => (byteOffset? cs column).map (· + c.utf8Size)

/-- Number of characters that begin before a byte offset. -/
def columnAt : List Char → Nat → Nat
  | [], _ => 0
  | c :: cs, offset => if offset = 0 then 0 else columnAt cs (offset - c.utf8Size) + 1

/-- A line from a given reading on, with as many blanks as bytes in place of
what literals hold. -/
def maskBytesFrom : Reading → List Char → List Char
  | _, [] => []
  | reading, c :: cs =>
    (if reading.hides c then List.replicate c.utf8Size ' ' else [c]) ++
      maskBytesFrom (reading.next c) cs

def maskBytes (line : List Char) : List Char :=
  maskBytesFrom .code line

end RazenLint.Text
