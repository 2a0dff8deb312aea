import RazenLint.Text.Printable

/-!
# Quoted text

Text inside a message is shown between quotes, with an escape for every
character that is not shown as itself. Names of files have their apostrophes
escaped as well.
-/

namespace RazenLint.Text

/-- The hexadecimal digits of a number, in small letters. -/
def hexText (n : Nat) : List Char :=
  Nat.toDigits 16 n

/-- The text of a character between quotes. -/
def quoteChar (apostrophes : Bool) (c : Char) : List Char :=
  if c = '\x00' then ['\\', '0']
  else if c = '\t' then ['\\', 't']
  else if c = '\n' then ['\\', 'n']
  else if c = '\r' then ['\\', 'r']
  else if c = '"' ∨ c = '\\' ∨ (c = '\'' ∧ apostrophes) then ['\\', c]
  else if isShown c then [c]
  else ['\\', 'u', '\x7b'] ++ hexText c.toNat ++ ['\x7d']

/-- A text between quotes. -/
def quoted (text : String) : String :=
  String.ofList ('"' :: text.toList.flatMap (quoteChar false) ++ ['"'])

/-- A file name between quotes. -/
def quotedName (text : String) : String :=
  String.ofList ('"' :: text.toList.flatMap (quoteChar true) ++ ['"'])

end RazenLint.Text
