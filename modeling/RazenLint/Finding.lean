import RazenLint.Event.Reading
import RazenLint.Library.Catalog
import RazenLint.Shape

/-!
# Findings

What is wrong with an event, held against the libraries and against the kind
that a declaration commits to. Whatever is in doubt yields no finding.
-/

namespace RazenLint

open Text

inductive Finding where
  | unknownImport (name : String) (span : Span)
  | unknownLibrary (library : String) (span : Span)
  | unknownFunction (library : Library) (function : String) (span : Span)
  | kindMismatch (name keyword : String) (kind : Kind) (shape : Shape) (span : Span)
  | returnMismatch (name keyword : String) (kind : Kind) (library function : String)
      (result : ResultType) (span : Span)
  | deprecatedCall (library function replacement : String) (span : Span)
deriving DecidableEq, Repr

/-- Where a finding is. -/
def Finding.span : Finding → Span
  | unknownImport _ span => span
  | unknownLibrary _ span => span
  | unknownFunction _ _ span => span
  | kindMismatch _ _ _ _ span => span
  | returnMismatch _ _ _ _ _ _ span => span
  | deprecatedCall _ _ _ span => span

/-- A call in the current form, without the closing parenthesis when its
arguments are not known. -/
def currentForm (library function : String) (arguments : Option String) : String :=
  asciiLower library ++ "::" ++ function ++ "(" ++
    match arguments with
    | some text => text ++ ")"
    | none => ""

def Import.findings (i : Import) : List Finding :=
  if isLibraryName i.name then [] else [.unknownImport i.name i.span]

/-- Findings of a call. A call in the old form with an unknown library is taken
for indexing. -/
def LibraryCall.findings (c : LibraryCall) : List Finding :=
  match Library.resolve? c.library with
  | none => if c.legacy then [] else [.unknownLibrary c.library c.librarySpan]
  | some library =>
    (if library.hasFunction c.function then []
      else [.unknownFunction library c.function c.functionSpan]) ++
    (if c.legacy then
      [.deprecatedCall c.library c.function (currentForm library.name c.function c.arguments)
        c.callSpan]
      else [])

/-- What the library function of a call is known to return. -/
def BoundCall.result? (call : BoundCall) : Option (Library × ResultType) := do
  let library ← Library.resolve? call.library
  let function ← library.function? call.function
  let result ← function.result
  return (library, result)

/-- Findings of a declaration : the initializer has another kind than the
keyword asks for. A call counts only when it is the whole initializer. -/
def Declaration.findings (d : Declaration) : List Finding :=
  match d.call with
  | none =>
    let shape := Shape.classify d.initializer.toList
    if d.kind.accepts shape = some false then
      [.kindMismatch d.name d.keyword d.kind shape d.statementSpan]
    else []
  | some call =>
    if !call.spansInitializer || d.kind.isAny then []
    else
      match call.result? with
      | none => []
      | some (library, result) =>
        if d.kind.base = result.kind.base then []
        else
          [.returnMismatch d.name d.keyword d.kind library.name call.function result
            d.statementSpan]

def Event.findings : Event → List Finding
  | declaration d => d.findings
  | imported i => i.findings
  | call c => c.findings

/-- The findings of events, in the order of the events. -/
def findings (events : List Event) : List Finding :=
  events.flatMap Event.findings

end RazenLint
