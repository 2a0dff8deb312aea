import RazenLint.Json.Number
import RazenLint.Table

/-!
# JSON values

The members of an object are a list, so that a value can be laid out in the
order of its fields. `Json.sorted` puts all members in the order of their keys,
which is how values are held after reading and how answers are written.
-/

namespace RazenLint

inductive Json where
  | null
  | bool (value : Bool)
  | number (value : Json.Number)
  | text (value : String)
  | list (items : List Json)
  | object (members : List (String × Json))
deriving Repr, Inhabited

namespace Json

def ofNat (n : Nat) : Json :=
  number (.whole n)

/-- A value that may be missing, which is written as null. -/
def ofOption (value : Option Json) : Json :=
  value.getD null

mutual

/-- The same value with the members of every object in the order of their keys. -/
def sorted : Json → Json
  | list items => list (sortedItems items)
  | object members => object (sortedMembers members)
  | value => value

def sortedItems : List Json → List Json
  | [] => []
  | item :: rest => item.sorted :: sortedItems rest

def sortedMembers : List (String × Json) → List (String × Json)
  | [] => []
  | (key, value) :: rest => Table.insert key value.sorted (sortedMembers rest)

end

end Json

end RazenLint
