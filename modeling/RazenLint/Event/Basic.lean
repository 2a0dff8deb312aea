import RazenLint.Kind
import RazenLint.Span

/-!
# Events

What a line of code says, as far as it can be told without a grammar : a
declaration, an import, or a call into a library.
-/

namespace RazenLint

/-- The library call that a declaration takes its value from. -/
structure BoundCall where
  library : String
  function : String
  /-- Written in the old form, with the function in brackets. -/
  legacy : Bool
  /-- The call is the whole initializer and not a part of it. -/
  spansInitializer : Bool
deriving DecidableEq, Repr

/-- A keyword, a name, an equals sign and an initializer. -/
structure Declaration where
  keyword : String
  kind : Kind
  name : String
  nameSpan : Span
  /-- From the keyword to the end of the code on the line. -/
  statementSpan : Span
  initializer : String
  /-- The call that the initializer begins with. -/
  call : Option BoundCall
deriving DecidableEq, Repr

/-- An import keyword and a name. -/
structure Import where
  keyword : String
  name : String
  span : Span
deriving DecidableEq, Repr

/-- A call `library::function(`, or `Library[function](` in the old form. -/
structure LibraryCall where
  library : String
  function : String
  librarySpan : Span
  functionSpan : Span
  /-- From the library to the closing parenthesis, or to the opening one when
  the line does not close it. -/
  callSpan : Span
  /-- What stands between the parentheses, when the line closes them. -/
  arguments : Option String
  /-- Written in the old form, with the function in brackets. -/
  legacy : Bool
  /-- The call begins the initializer of a declaration. -/
  bound : Bool
deriving DecidableEq, Repr

inductive Event where
  | declaration (declaration : Declaration)
  | imported (item : Import)
  | call (call : LibraryCall)
deriving DecidableEq, Repr

namespace Event

def declaration? : Event → Option Declaration
  | declaration d => some d
  | _ => none

def import? : Event → Option Import
  | imported i => some i
  | _ => none

def call? : Event → Option LibraryCall
  | call c => some c
  | _ => none

end Event

end RazenLint
