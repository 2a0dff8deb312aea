import RazenLint.Json.Basic
import RazenLint.Text.Quoted

/-!
# Decoding JSON values

A decoder turns a value into something of the domain or says what is wrong.
Records can be given as an object or as the list of their fields in order.
Unknown members of an object do not count. A problem inside a field comes
before a field that is missing, and fields are looked at in the order in which
the value gives them.
-/

namespace RazenLint

/-- What can be wrong with a value. -/
inductive DecodeError where
  | invalidType (found expected : String)
  | invalidValue (found expected : String)
  | invalidLength (length : Nat) (expected : String)
  | missingField (name : String)
  | duplicateField (name : String)
  | unknownVariant (name : String) (known : List String)
deriving DecidableEq, Repr

/-- Names in a message, as a choice between them. -/
def choiceText : List String → String
  | [] => "nothing"
  | [one] => "`" ++ one ++ "`"
  | [one, other] => "`" ++ one ++ "` or `" ++ other ++ "`"
  | names => "one of " ++ ", ".intercalate (names.map fun name => "`" ++ name ++ "`")

/-- What is wrong with a value, without the place in a text that it was read from. -/
def DecodeError.message : DecodeError → String
  | invalidType found expected => "invalid type: " ++ found ++ ", expected " ++ expected
  | invalidValue found expected => "invalid value: " ++ found ++ ", expected " ++ expected
  | invalidLength length expected =>
    "invalid length " ++ toString length ++ ", expected " ++ expected
  | missingField name => "missing field `" ++ name ++ "`"
  | duplicateField name => "duplicate field `" ++ name ++ "`"
  | unknownVariant name known =>
    "unknown variant `" ++ name ++ "`, expected " ++ choiceText known

/-- The outcome of a decoder. -/
abbrev Decoded (α : Type) := Except DecodeError α

/-- The problem of an outcome, if there is one. -/
def Decoded.problem? {α : Type} : Decoded α → Option DecodeError
  | .ok _ => none
  | .error e => some e

namespace Json

/-- A number as messages show it. -/
def Number.shown : Number → String
  | whole value => "integer `" ++ toString value ++ "`"
  | double bits => "floating point `" ++ doubleText bits ++ "`"

/-- A value as messages show it. -/
def shown : Json → String
  | null => "null"
  | bool value => "boolean `" ++ (if value then "true" else "false") ++ "`"
  | number n => n.shown
  | text s => "string " ++ Text.quoted s
  | list _ => "sequence"
  | object _ => "map"

/-- The problem of a value that is something else than asked for. -/
def notA {α : Type} (value : Json) (expected : String) : Decoded α :=
  .error (.invalidType value.shown expected)

def asText : Json → Decoded String
  | text s => .ok s
  | value => value.notA "a string"

def asBool : Json → Decoded Bool
  | bool b => .ok b
  | value => value.notA "a boolean"

/-- A whole number below a bound, where `name` names the numbers below it. -/
def asNatBelow (bound : Nat) (name : String) : Json → Decoded Nat
  | number (.whole value) =>
    if 0 ≤ value ∧ value < bound then .ok value.toNat
    else .error (.invalidValue (Number.whole value).shown name)
  | value => value.notA name

/-- A number of 32 bits without a sign. -/
def asWord32 (value : Json) : Decoded Nat :=
  value.asNatBelow 0x100000000 "u32"

/-- A number of 64 bits without a sign. -/
def asWord64 (value : Json) : Decoded Nat :=
  value.asNatBelow 0x10000000000000000 "usize"

/-- A list of which every item is decoded. -/
def asList {α : Type} (decode : Json → Decoded α) : Json → Decoded (List α)
  | list items => items.mapM decode
  | value => value.notA "a sequence"

/-- A value or null. -/
def asOptional {α : Type} (decode : Json → Decoded α) : Json → Decoded (Option α)
  | null => .ok none
  | value => (decode value).map some

/-- One of the given constants by its name. The name may also stand as the only
key of an object, with null under it. -/
def asVariant {α : Type} (all : List α) (name : α → String) (value : Json) : Decoded α := do
  let (found, content) ← match value with
    | text s => .ok (s, null)
    | object [(key, content)] => .ok (key, content)
    | object _ => .error (.invalidValue "map" "map with a single key")
    | value => value.notA "string or map"
  match all.find? (name · = found) with
  | none => .error (.unknownVariant found (all.map name))
  | some constant =>
    match content with
    | null => .ok constant
    | content => content.notA "unit"

/-! ## Records -/

/-- The fields of a type of records in the order of their declaration. -/
structure RecordType where
  name : String
  fields : List String

/-- The fields that a value gives, in its own order. -/
structure Record where
  type : RecordType
  /-- Given as a list, and not as an object. -/
  positional : Bool
  fields : List (String × Json)
  /-- Number of items of the list or members of the object. -/
  size : Nat

namespace Record

/-- The given field, decoded, if the value has it. -/
def field {α : Type} (record : Record) (name : String) (decode : Json → Decoded α) :
    Option (Decoded α) :=
  (record.fields.lookup name).map decode

/-- The first problem of a field, in the order of the value. -/
def firstProblem (record : Record) (problems : List (String × Option DecodeError)) :
    Decoded Unit :=
  match record.fields.findSome? fun (name, _) => (problems.lookup name).bind id with
  | some e => .error e
  | none => .ok ()

/-- The problem of a missing field. -/
def missing (record : Record) (name : String) : DecodeError :=
  if record.positional then
    let count := record.type.fields.length
    .invalidLength (record.type.fields.idxOf name)
      ("struct " ++ record.type.name ++ " with " ++ toString count ++
        (if count = 1 then " element" else " elements"))
  else .missingField name

/-- A field that has to be there. -/
def required {α : Type} (record : Record) (name : String) :
    Option (Decoded α) → Decoded α
  | some outcome => outcome
  | none => .error (record.missing name)

/-- A field with a value to take when it is missing. -/
def defaulted {α : Type} (value : α) : Option (Decoded α) → Decoded α
  | some outcome => outcome
  | none => .ok value

/-- No item of the list may be left over. -/
def finish (record : Record) : Decoded Unit :=
  if record.positional && record.type.fields.length < record.size then
    .error (.invalidLength record.size "fewer elements in array")
  else .ok ()

end Record

/-- The fields of a record. -/
def asRecord (type : RecordType) : Json → Decoded Record
  | list items => .ok ⟨type, true, type.fields.zip items, items.length⟩
  | object members =>
    .ok ⟨type, false, members.filter fun (key, _) => type.fields.contains key, members.length⟩
  | value => value.notA ("struct " ++ type.name)

/-- The problem of a field, under its name. -/
def problemOf {α : Type} (name : String) (field : Option (Decoded α)) :
    String × Option DecodeError :=
  (name, field.bind Decoded.problem?)

end Json

end RazenLint
