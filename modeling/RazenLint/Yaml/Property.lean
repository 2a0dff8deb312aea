import RazenLint.Text.Ascii
import RazenLint.Yaml.Token

/-!
# Properties of values

Before a value may stand an anchor and a tag. A tag begins with a handle, which stands
for the beginning of many tags. Directives before a document say what its handles stand
for, and in which version of YAML it is written.
-/

namespace RazenLint.Yaml

/-! ## Anchors -/

/-- Reads the name of an anchor behind its indicator. -/
def anchorName (cursor : Cursor) : Except Problem (String × Cursor) :=
  let cursor := cursor.next
  let name := cursor.rest.takeWhile isNameChar
  let behind := cursor.skip name.length
  let ends := endsWord behind.rest || behind.rest.head?.any "?:,]\x7d%@\x60".toList.contains
  if name.isEmpty || !ends then .error .expectedAnchorName
  else .ok (String.ofList name, behind)

/-! ## Tags -/

/-- Whether a character can be part of a tag. -/
def isTagChar (inAngles : Bool) (c : Char) : Bool :=
  isNameChar c || ";/?:@&=+$.%!~*'()".toList.contains c || (inAngles && ",[]".toList.contains c)

/-- The byte of an escape at the front of a text. -/
def escapedByte? : List Char → Option UInt8
  | '%' :: high :: low :: _ => do
    return UInt8.ofNat ((← Text.hexDigit? high) * 16 + (← Text.hexDigit? low))
  | _ => none

/-- Number of bytes of the character that a byte begins. -/
def byteCount? (first : UInt8) : Option Nat :=
  if first < 0x80 then some 1
  else if first < 0xC0 then none
  else if first < 0xE0 then some 2
  else if first < 0xF0 then some 3
  else if first < 0xF8 then some 4
  else none

/-- The bytes of a character whose bytes are all escaped. -/
def escapedBytes? (rest : List Char) : Option (List UInt8) := do
  let count ← byteCount? (← escapedByte? rest)
  let bytes ← (List.range count).mapM fun i => escapedByte? (rest.drop (3 * i))
  if (bytes.drop 1).all fun b => 0x80 ≤ b && b < 0xC0 then some bytes else none

/-- Reads on in a tag in at most the given steps. `reversed` are the bytes before. -/
def tagFrom (steps : Nat) (inAngles : Bool) (reversed : Tag) (cursor : Cursor) :
    Except Problem (Tag × Cursor) :=
  match steps, cursor.rest with
  | 0, _ | _, [] => .ok (reversed.reverse, cursor)
  | steps + 1, c :: _ =>
    if c = '%' then
      match escapedBytes? cursor.rest with
      | some bytes =>
        tagFrom steps inAngles (bytes.reverse ++ reversed) (cursor.skip (3 * bytes.length))
      | none => .error .invalidTagEscape
    else if isTagChar inAngles c then
      tagFrom steps inAngles (UInt8.ofNat c.toNat :: reversed) cursor.next
    else .ok (reversed.reverse, cursor)

/-- Reads the text of a tag, which may be empty. -/
def tagText (inAngles : Bool) (cursor : Cursor) : Except Problem (Tag × Cursor) :=
  tagFrom cursor.rest.length inAngles [] cursor

/-- Reads the text of a tag. -/
def fullTagText (inAngles : Bool) (cursor : Cursor) : Except Problem (Tag × Cursor) := do
  let (text, behind) ← tagText inAngles cursor
  if text.isEmpty then throw .expectedTagUri
  return (text, behind)

/-- Reads a mark of a tag with the name behind it, and with another mark that may end the
name. -/
def tagFront (cursor : Cursor) : String × Cursor :=
  let name := (cursor.rest.drop 1).takeWhile isNameChar
  let behind := cursor.skip (name.length + 1)
  if behind.rest.head? = some '!' then
    (String.ofList ('!' :: name ++ ['!']), behind.next)
  else (String.ofList ('!' :: name), behind)

/-- Whether the front of a tag is a handle that has an end. -/
def isClosedHandle (front : String) : Bool :=
  1 < front.length && front.toList.getLast? = some '!'

/-- Reads a tag at its mark. Without a handle that has an end, its handle is the mark, and a
mark alone is a tag of its own. -/
def tag (inBrackets : Bool) (cursor : Cursor) : Except Problem (Token × Cursor) := do
  let (found, behind) ←
    if (cursor.rest.drop 1).head? = some '<' then do
      let (text, behind) ← fullTagText true (cursor.skip 2)
      if behind.rest.head? ≠ some '>' then throw .unclosedTag
      pure (Token.tag "" text, behind.next)
    else do
      let (front, behind) := tagFront cursor
      if isClosedHandle front then
        let (text, behind) ← fullTagText false behind
        pure (Token.tag front text, behind)
      else
        let (text, behind) ← tagText false behind
        let suffix := (front.toList.drop 1).map (fun c => UInt8.ofNat c.toNat) ++ text
        pure (if suffix.isEmpty then Token.tag "" [0x21] else Token.tag "!" suffix, behind)
  if endsWord behind.rest || (inBrackets && behind.rest.head? = some ',') then
    return (found, behind)
  else throw .expectedTagEnd

/-! ## Directives -/

/-- The most digits that a number of a version has. -/
def maxVersionDigits : Nat := 9

/-- Reads a number of a version. -/
def versionNumber (cursor : Cursor) : Except Problem (Nat × Cursor) :=
  let digits := cursor.rest.takeWhile Char.isDigit
  if digits.isEmpty || maxVersionDigits < digits.length then .error .invalidVersion
  else
    .ok (digits.foldl (fun value c => value * 10 + (c.toNat - '0'.toNat)) 0,
      cursor.skip digits.length)

/-- Reads the version in a directive. -/
def versionDirective (cursor : Cursor) : Except Problem (Token × Cursor) := do
  let (major, behind) ← versionNumber (cursor.skipWhile isGap)
  if behind.rest.head? ≠ some '.' then throw .invalidVersion
  let (minor, behind) ← versionNumber behind.next
  return (.version major minor, behind)

/-- Reads a handle and what it stands for in a directive. -/
def handleDirective (cursor : Cursor) : Except Problem (Token × Cursor) := do
  let cursor := cursor.skipWhile isGap
  if cursor.rest.head? ≠ some '!' then throw .expectedHandleEnd
  let (front, behind) := tagFront cursor
  if front ≠ "!" && !isClosedHandle front then throw .expectedHandleEnd
  if !behind.rest.head?.any isGap then throw .expectedTagEnd
  let (meaning, behind) ← fullTagText true (behind.skipWhile isGap)
  if !endsWord behind.rest then throw .expectedTagEnd
  return (.handle front meaning, behind)

/-- Reads a directive at its indicator, and ends its line. -/
def directive (cursor : Cursor) : Except Problem (Token × Cursor) := do
  let cursor := cursor.next
  let name := cursor.rest.takeWhile isNameChar
  let behind := cursor.skip name.length
  if !endsWord behind.rest then throw .unknownDirective
  let (found, behind) ←
    if name = "YAML".toList then versionDirective behind
    else if name = "TAG".toList then handleDirective behind
    else throw .unknownDirective
  return (found, ← behind.endLine)

end RazenLint.Yaml
