import RazenLint.Json.Decode
import RazenLint.Json.Read

/-!
# Requests

A request is one line of JSON with a method, its parameters, and an id for the
answer. It is read straight from the text, so that a problem is reported in the
order of the text, and a repeated field is one. Other fields are passed over.
-/

namespace RazenLint

open Json

structure Request where
  id : Json
  method : String
  params : Json

/-- Why a line is no request. -/
inductive RequestError where
  | unreadable (reason : ReadError)
  | illTyped (reason : DecodeError)
deriving DecidableEq, Repr

/-- What is wrong with a request. Where in its line it stands is left out. -/
def RequestError.message : RequestError → String
  | unreadable reason => reason.message
  | illTyped reason => reason.message

namespace Request

/-- The type of a request, for messages. -/
def recordType : RecordType := ⟨"Request", ["id", "method", "params"]⟩

/-- A step through the text of a request. -/
abbrev RequestScan := StateT (List Char) (Except RequestError)

/-- A step through JSON text as a step through a request. -/
def json {α : Type} (scan : Scan α) : RequestScan α := fun cs =>
  match scan cs with
  | .ok result => .ok result
  | .error reason => .error (.unreadable reason)

def illTyped {α : Type} (reason : DecodeError) : RequestScan α :=
  throw (.illTyped reason)

/-- Reports a value that is something else than expected. Lists and objects are
reported without being read. -/
def unexpected {α : Type} (first : Char) (expected : String) : RequestScan α := do
  if first = '[' then illTyped (.invalidType "sequence" expected)
  else if first = '\x7b' then illTyped (.invalidType "map" expected)
  else illTyped (.invalidType (← json (Scan.scalar first)).shown expected)

/-- The text that a method has to be. -/
def methodName : RequestScan String := do
  match ← json Scan.peekPastSpace with
  | none => throw (.unreadable .endInValue)
  | some '"' => json (do
      discard Scan.next
      Scan.string)
  | some c => unexpected c "a string"

/-- The levels that are left inside a request. -/
def innerLevels : Nat := maxDepth - 1

/-- The fields of a request that were read so far. -/
structure Fields where
  id : Option Json
  method : Option String
  params : Option Json

/-- Reads the fields that are still to come, in at most the given steps. -/
def moreFields : Nat → Bool → Fields → RequestScan Fields
  | 0, _, _ => throw (.unreadable .endInObject)
  | steps + 1, first, fields => do
    if ← json (Scan.objectGoesOn first) then
      let key ← json Scan.string
      if key = "id" then
        if fields.id.isSome then illTyped (.duplicateField key)
        json Scan.colon
        let id ← json (Scan.readValue innerLevels)
        moreFields steps false { fields with id := some id }
      else if key = "method" then
        if fields.method.isSome then illTyped (.duplicateField key)
        json Scan.colon
        let method ← methodName
        moreFields steps false { fields with method := some method }
      else if key = "params" then
        if fields.params.isSome then illTyped (.duplicateField key)
        json Scan.colon
        let params ← json (Scan.readValue innerLevels)
        moreFields steps false { fields with params := some params }
      else
        json Scan.colon
        json Scan.skipValue
        moreFields steps false fields
    else return fields

/-- A request that is given as an object, past its bracket. -/
def ofObject : RequestScan Request := do
  let fields ← moreFields ((← get).length + 1) true ⟨none, none, none⟩
  match fields.method with
  | none => illTyped (.missingField "method")
  | some method =>
    return { id := fields.id.getD .null, method, params := fields.params.getD .null }

/-- A request that is given as the list of its fields, past its bracket. Id and
parameters may be missing at the end. -/
def ofList : RequestScan Request := do
  let size (n : Nat) : DecodeError := .invalidLength n "struct Request with 3 elements"
  if ← json (Scan.listGoesOn true) then
    let id ← json (Scan.readValue innerLevels)
    if ← json (Scan.listGoesOn false) then
      let method ← methodName
      if ← json (Scan.listGoesOn false) then
        let params ← json (Scan.readValue innerLevels)
        json endOfList
        return { id, method, params }
      else return { id, method, params := .null }
    else illTyped (size 1)
  else illTyped (size 1)
where
  /-- The closing bracket of the list, after its last field. -/
  endOfList : Scan Unit := do
    match ← Scan.peekPastSpace with
    | none => throw .endInList
    | some ']' => discard Scan.next
    | some ',' =>
      discard Scan.next
      if (← Scan.peekPastSpace) = some ']' then throw .trailingComma else throw .trailingText
    | some _ => throw .trailingText

/-- A request from the front of a text. -/
def read : RequestScan Request := do
  match ← json Scan.peekPastSpace with
  | none => throw (.unreadable .endInValue)
  | some '[' =>
    json (discard Scan.next)
    ofList
  | some '\x7b' =>
    json (discard Scan.next)
    ofObject
  | some c => unexpected c ("struct " ++ recordType.name)

/-- The request that a line holds. -/
def ofLine (line : List Char) : Except RequestError Request := do
  let (request, _) ← (do
    let request ← read
    json Scan.finish
    return request : RequestScan Request).run line
  return request

end Request

end RazenLint
