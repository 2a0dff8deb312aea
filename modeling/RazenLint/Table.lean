/-!
# Tables with text keys

A table keeps its entries in the order of their keys, and a key has one entry.
-/

namespace RazenLint

/-- Entries in ascending order of their keys. -/
abbrev Table (α : Type) := List (String × α)

namespace Table

variable {α : Type}

/-- Puts a value under a key, in place of the value that was there. -/
def insert (key : String) (value : α) : Table α → Table α
  | [] => [(key, value)]
  | (k, v) :: rest =>
    if key < k then (key, value) :: (k, v) :: rest
    else if key = k then (key, value) :: rest
    else (k, v) :: insert key value rest

/-- Puts a value in place of the one under a key, and changes nothing where the key is missing. -/
def replace (key : String) (value : α) : Table α → Table α
  | [] => []
  | (k, v) :: rest =>
    if key = k then (key, value) :: rest else (k, v) :: replace key value rest

/-- The table without the entry of a key. -/
def erase (key : String) (table : Table α) : Table α :=
  table.filter (·.1 ≠ key)

def get? (table : Table α) (key : String) : Option α :=
  table.lookup key

def keys (table : Table α) : List String :=
  table.map (·.1)

/-- The table of a list of entries, where a later entry replaces an earlier one. -/
def ofEntries (entries : List (String × α)) : Table α :=
  entries.foldl (fun table (key, value) => table.insert key value) []

end Table

end RazenLint
