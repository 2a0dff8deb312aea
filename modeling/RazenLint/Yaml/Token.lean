import RazenLint.Yaml.Basic

/-!
# Tokens of YAML

Tokens stand between the text of a document and its values. Collections that
are shown by indentation have tokens for their start and end, although no
character stands for these.
-/

namespace RazenLint.Yaml

inductive Token where
  | documentStart
  | documentEnd
  | blockSequence
  | blockMapping
  /-- The end of a collection that is shown by indentation. -/
  | blockEnd
  | bracketOpen
  | bracketClose
  | braceOpen
  | braceClose
  /-- The dash before an item. -/
  | item
  | comma
  | key
  | value
  | scalar (style : Style) (text : String)
  /-- The name of the value that follows. -/
  | anchor (name : String)
  | reference (name : String)
  /-- The handle of a tag, and what stands behind it. -/
  | tag (handle : String) (suffix : Tag)
  /-- The version of YAML in which a document is written. -/
  | version (major minor : Nat)
  /-- What a handle stands for in the tags of a document. -/
  | handle (name : String) (meaning : Tag)
deriving DecidableEq, Repr

/-! ## Characters -/

/-- Whether a character ends a line. -/
def isBreak (c : Char) : Bool :=
  c = '\n' || c = '\u2028' || c = '\u2029'

/-- Whether a character stands between words of a line. -/
def isGap (c : Char) : Bool :=
  c = ' ' || c = '\t'

/-- Whether no word goes on at the front of a text. -/
def endsWord : List Char → Bool
  | [] => true
  | c :: _ => isGap c || isBreak c

/-- Whether a text starts with a mark for the start or the end of a document. -/
def startsWithMarker : List Char → Bool
  | '-' :: '-' :: '-' :: rest => endsWord rest
  | '.' :: '.' :: '.' :: rest => endsWord rest
  | _ => false

/-- Whether a character can be part of a name. -/
def isNameChar (c : Char) : Bool :=
  ('0' ≤ c && c ≤ '9') || ('A' ≤ c && c ≤ 'Z') || ('a' ≤ c && c ≤ 'z') || c = '_' || c = '-'

/-- Whether a character belongs to collections in brackets. -/
def isBracket (c : Char) : Bool :=
  c = ',' || c = '[' || c = ']' || c = '\x7b' || c = '\x7d'

/-- Whether a document may contain a character. -/
def isAllowed (c : Char) : Bool :=
  c = '\t' || c = '\n' || c = '\r' || c.val = 0x85 || (0x20 ≤ c.val && c.val ≤ 0x7E) ||
    (0xA0 ≤ c.val && c.val ≤ 0xFFFD) || 0x10000 ≤ c.val

/-- The mark that may begin a line. Elsewhere it is a character like any other. -/
def byteOrderMark : Char := '\ufeff'

/-- The text with one character for each way to end a line, besides those that
stand for themselves. -/
def normalizeBreaks : List Char → List Char
  | [] => []
  | '\r' :: '\n' :: rest => '\n' :: normalizeBreaks rest
  | c :: rest => (if c = '\r' ∨ c.val = 0x85 then '\n' else c) :: normalizeBreaks rest

/-! ## Places -/

/-- A place in a text, with the text from there on. -/
structure Cursor where
  rest : List Char
  line : Nat
  column : Nat
  index : Nat
deriving DecidableEq, Repr

namespace Cursor

def ofText (text : List Char) : Cursor := ⟨text, 0, 0, 0⟩

/-- The place behind the next character. -/
def next (cursor : Cursor) : Cursor :=
  match cursor.rest with
  | [] => cursor
  | c :: rest =>
    if isBreak c then ⟨rest, cursor.line + 1, 0, cursor.index + 1⟩
    else ⟨rest, cursor.line, cursor.column + 1, cursor.index + 1⟩

/-- The place behind a number of characters. -/
def skip (cursor : Cursor) (count : Nat) : Cursor :=
  count.repeat next cursor

/-- The place behind the characters that satisfy a condition. -/
def skipWhile (cursor : Cursor) (p : Char → Bool) : Cursor :=
  cursor.skip (cursor.rest.takeWhile p).length

/-- What the next character means, and the place behind it if it means something. -/
def accept {α : Type} (cursor : Cursor) (meaning : Char → Option α) : Option α × Cursor :=
  match cursor.rest.head?.bind meaning with
  | some meant => (some meant, cursor.next)
  | none => (none, cursor)

/-- The place on the next line, if nothing but blanks and a comment stands before it. -/
def endLine (cursor : Cursor) : Except Problem Cursor :=
  let cursor := cursor.skipWhile isGap
  let cursor :=
    if cursor.rest.head? = some '#' then cursor.skipWhile fun c => !isBreak c else cursor
  if cursor.rest.head?.all isBreak then .ok cursor.next else .error .textAfterIndicator

end Cursor

end RazenLint.Yaml
