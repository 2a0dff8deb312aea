import RazenLint.Kind

/-!
# Libraries and their functions

A library has a name in lower case and a closed list of functions. Some
functions are known to return one type of result.
-/

namespace RazenLint

/-- The type of what a library function returns. -/
inductive ResultType where
  | number
  | text
  | boolean
  | array
  | object
deriving DecidableEq, Repr

namespace ResultType

def all : List ResultType :=
  [number, text, boolean, array, object]

/-- The name of a type in messages and in exchanged data. -/
def name : ResultType → String
  | number => "number"
  | text => "text"
  | boolean => "boolean"
  | array => "array"
  | object => "object"

/-- The kind that a variable holding such a result is declared with. -/
def kind : ResultType → Kind
  | number => .numeric
  | text => .textual
  | boolean => .boolean
  | array | object => .collection

end ResultType

structure LibraryFunction where
  name : String
  /-- What the function returns, where that is known. -/
  result : Option ResultType
deriving DecidableEq, Repr

namespace LibraryFunction

def number (name : String) : LibraryFunction := ⟨name, some .number⟩
def text (name : String) : LibraryFunction := ⟨name, some .text⟩
def boolean (name : String) : LibraryFunction := ⟨name, some .boolean⟩
def array (name : String) : LibraryFunction := ⟨name, some .array⟩
def object (name : String) : LibraryFunction := ⟨name, some .object⟩
def any (name : String) : LibraryFunction := ⟨name, none⟩

end LibraryFunction

structure Library where
  name : String
  functions : List LibraryFunction
deriving DecidableEq, Repr

namespace Library

/-- The function with exactly the given name. -/
def function? (library : Library) (name : String) : Option LibraryFunction :=
  library.functions.find? (·.name = name)

def hasFunction (library : Library) (name : String) : Bool :=
  (library.function? name).isSome

def functionNames (library : Library) : List String :=
  library.functions.map (·.name)

end Library

end RazenLint
