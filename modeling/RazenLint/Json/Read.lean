import RazenLint.Json.Basic
import RazenLint.Json.Scan

/-!
# Reading JSON

`readValue` reads a value, `skipValue` passes over one that nobody asks for.
Lists and objects may be nested up to a fixed depth, and an object keeps the
last value of a key. A value that is passed over may be nested at will. The
number of steps is bounded by the length of the text, since every step takes a
character.
-/

namespace RazenLint.Json

/-- How many levels of lists and objects a text may have, and one more. -/
def maxDepth : Nat := 128

namespace Scan

/-- Enters a list or an object past its bracket : the levels left inside it. -/
def enter (levels : Nat) : Scan Nat := do
  if levels ≤ 1 then throw .tooDeep
  discard next
  return levels - 1

/-- Looks for another item of a list : whether there is one. -/
def listGoesOn (first : Bool) : Scan Bool := do
  match ← peekPastSpace with
  | none => throw .endInList
  | some ']' =>
    discard next
    return false
  | some c =>
    if first then return true
    else if c = ',' then
      discard next
      match ← peekPastSpace with
      | none => throw .endInValue
      | some ']' => throw .trailingComma
      | some _ => return true
    else throw .expectedListEnd

/-- Looks for another key of an object, and takes its opening quote : whether
there is one. -/
def objectGoesOn (first : Bool) : Scan Bool := do
  match ← peekPastSpace with
  | none => throw .endInObject
  | some '\x7d' =>
    discard next
    return false
  | some c =>
    if first then
      if c ≠ '"' then throw .keyNotText
      discard next
      return true
    else if c = ',' then
      discard next
      match ← peekPastSpace with
      | none => throw .endInValue
      | some '"' =>
        discard next
        return true
      | some '\x7d' => throw .trailingComma
      | some _ => throw .keyNotText
    else throw .expectedObjectEnd

/-- Takes the colon after a key. -/
def colon : Scan Unit := do
  match ← peekPastSpace with
  | none => throw .endInObject
  | some ':' => discard next
  | some _ => throw .expectedColon

/-- A word, a number or a string that begins with the given character. -/
def scalar (c : Char) : Scan Json := do
  if c = 'n' then
    letters "null".toList
    return .null
  else if c = 't' then
    letters "true".toList
    return .bool true
  else if c = 'f' then
    letters "false".toList
    return .bool false
  else if c = '-' then
    discard next
    return .number (← number false)
  else if c.isDigit then return .number (← number true)
  else if c = '"' then
    discard next
    return .text (← string)
  else throw .expectedValue

mutual

/-- A value, with the given levels left. -/
def value (steps levels : Nat) : Scan Json := do
  match steps with
  | 0 => throw .endInValue
  | steps + 1 =>
    match ← peekPastSpace with
    | none => throw .endInValue
    | some '[' => return .list (← items steps (← enter levels) true)
    | some '\x7b' => return .object (← members steps (← enter levels) true [])
    | some c => scalar c

/-- The items of a list that are still to come. -/
def items (steps levels : Nat) (first : Bool) : Scan (List Json) := do
  match steps with
  | 0 => throw .endInList
  | steps + 1 =>
    if ← listGoesOn first then
      let item ← value steps levels
      return item :: (← items steps levels false)
    else return []

/-- The members of an object, after the ones read before. -/
def members (steps levels : Nat) (first : Bool) (table : Table Json) : Scan (Table Json) := do
  match steps with
  | 0 => throw .endInObject
  | steps + 1 =>
    if ← objectGoesOn first then
      let key ← string
      colon
      members steps levels false (table.insert key (← value steps levels))
    else return table

end

/-- A value with the given levels left. -/
def readValue (levels : Nat) : Scan Json := do
  value (2 * (← get).length + 2) levels

/-! ## Passing over values -/

mutual

/-- Passes over a value. -/
def skip (steps : Nat) : Scan Unit := do
  match steps with
  | 0 => throw .endInValue
  | steps + 1 =>
    match ← peekPastSpace with
    | none => throw .endInValue
    | some '[' =>
      discard next
      match ← peekPastSpace with
      | some ']' => discard next
      | none => throw .endInList
      | some _ => skipItems steps
    | some '\x7b' =>
      discard next
      match ← peekPastSpace with
      | some '\x7d' => discard next
      | _ => skipMembers steps
    | some c =>
      if c = '-' then
        discard next
        skipNumber
      else if c.isDigit then skipNumber
      else if c = '"' then
        discard next
        skipString
      else discard (scalar c)

/-- Passes over the items of a list, of which there is one. -/
def skipItems (steps : Nat) : Scan Unit := do
  match steps with
  | 0 => throw .endInList
  | steps + 1 =>
    skip steps
    match ← peekPastSpace with
    | none => throw .endInList
    | some ',' =>
      discard next
      skipItems steps
    | some ']' => discard next
    | some _ => throw .expectedListEnd

/-- Passes over the members of an object, of which there is one. -/
def skipMembers (steps : Nat) : Scan Unit := do
  match steps with
  | 0 => throw .endInObject
  | steps + 1 =>
    match ← peekPastSpace with
    | none => throw .endInObject
    | some '"' => discard next
    | some _ => throw .keyNotText
    skipString
    colon
    skip steps
    match ← peekPastSpace with
    | none => throw .endInObject
    | some ',' =>
      discard next
      skipMembers steps
    | some '\x7d' => discard next
    | some _ => throw .expectedObjectEnd

end

/-- Passes over a value. -/
def skipValue : Scan Unit := do
  skip (2 * (← get).length + 2)

/-- Nothing but blanks may follow. -/
def finish : Scan Unit := do
  if (← peekPastSpace).isSome then throw .trailingText

end Scan

/-- The value that a whole text writes. -/
def ofText (cs : List Char) : Except ReadError Json := do
  let (value, _) ← (do
    let value ← Scan.readValue maxDepth
    Scan.finish
    return value : Scan Json).run cs
  return value

end RazenLint.Json
