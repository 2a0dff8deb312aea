import RazenLint.Json.Basic

/-!
# JSON text

`compact` writes a value without any blanks, `pretty` on lines indented by two
spaces. Only what has to be escaped is : quotes, backslashes and the control
characters below the space.
-/

namespace RazenLint.Json

def hexDigits : List Char :=
  "0123456789abcdef".toList

def hexDigit (n : Nat) : Char :=
  (hexDigits[n]?).getD '0'

/-- The text of a character inside a string. -/
def escapeChar (c : Char) : List Char :=
  if c = '"' then ['\\', '"']
  else if c = '\\' then ['\\', '\\']
  else if c = '\x08' then ['\\', 'b']
  else if c = '\t' then ['\\', 't']
  else if c = '\n' then ['\\', 'n']
  else if c = '\x0c' then ['\\', 'f']
  else if c = '\r' then ['\\', 'r']
  else if c.toNat < 0x20 then
    ['\\', 'u', '0', '0', hexDigit (c.toNat / 16), hexDigit (c.toNat % 16)]
  else [c]

/-- A text between quotes. -/
def quote (text : String) : String :=
  String.ofList ('"' :: text.toList.flatMap escapeChar ++ ['"'])

mutual

def compact : Json → String
  | null => "null"
  | bool value => if value then "true" else "false"
  | number n => n.text
  | text s => quote s
  | list items => "[" ++ compactItems items ++ "]"
  | object members => "\x7b" ++ compactMembers members ++ "\x7d"

def compactItems : List Json → String
  | [] => ""
  | item :: rest => item.compact ++ (if rest.isEmpty then "" else ",") ++ compactItems rest

def compactMembers : List (String × Json) → String
  | [] => ""
  | (key, value) :: rest =>
    quote key ++ ":" ++ value.compact ++ (if rest.isEmpty then "" else ",") ++ compactMembers rest

end

/-- A new line at the given depth. -/
def newLine (depth : Nat) : String :=
  "\n" ++ String.ofList (List.replicate (2 * depth) ' ')

mutual

/-- The pretty text of a value at the given depth. -/
def prettyAt (depth : Nat) : Json → String
  | list items =>
    if items.isEmpty then "[]" else "[" ++ prettyItems (depth + 1) items ++ newLine depth ++ "]"
  | object members =>
    if members.isEmpty then "\x7b\x7d"
    else "\x7b" ++ prettyMembers (depth + 1) members ++ newLine depth ++ "\x7d"
  | null => compact null
  | bool value => compact (bool value)
  | number value => compact (number value)
  | text value => compact (text value)

def prettyItems (depth : Nat) : List Json → String
  | [] => ""
  | item :: rest =>
    newLine depth ++ prettyAt depth item ++ (if rest.isEmpty then "" else ",") ++
      prettyItems depth rest

def prettyMembers (depth : Nat) : List (String × Json) → String
  | [] => ""
  | (key, value) :: rest =>
    newLine depth ++ quote key ++ ": " ++ prettyAt depth value ++
      (if rest.isEmpty then "" else ",") ++ prettyMembers depth rest

end

def pretty (value : Json) : String :=
  prettyAt 0 value

end RazenLint.Json
