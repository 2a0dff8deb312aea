import RazenLint.Event.Reading
import RazenLint.Library.Catalog
import RazenLint.Table

/-!
# Symbol tables

The variables that a text declares and the libraries that it imports, each with
the places that refer to it. A later declaration of a name replaces an earlier
one, and only what stands past the declaring statement refers to it : the
initializer still reads the variable as it was before.
-/

namespace RazenLint

open Text

structure Variable where
  /-- The name in the declaration. -/
  span : Span
  /-- The whole declaring statement. -/
  statement : Span
  kind : Kind
  /-- The uses of the variable, in text order. -/
  references : List Span
deriving DecidableEq, Repr

def Variable.used (v : Variable) : Bool :=
  !v.references.isEmpty

structure ImportedLibrary where
  /-- The name in the import. -/
  span : Span
  /-- The library names in calls, in text order. -/
  references : List Span
deriving DecidableEq, Repr

def ImportedLibrary.used (l : ImportedLibrary) : Bool :=
  !l.references.isEmpty

structure SymbolTable where
  declared : Table Variable
  /-- Under the library's own name, however the import writes it. -/
  libraries : Table ImportedLibrary
deriving DecidableEq, Repr

/-- A word of the code, with its place. -/
structure Occurrence where
  word : String
  span : Span
  /-- A point stands right before the word, so it names a member of something. -/
  isMember : Bool
deriving DecidableEq, Repr

/-- The identifiers in a text that follows the given character and begins in
the given column. A word that runs on with a character outside ASCII is none. -/
def occurrencesFrom (line column : Nat) (previous : Option Char) : List Char → List Occurrence
  | [] => []
  | c :: cs =>
    let later := occurrencesFrom line (column + 1) (some c) cs
    if boundaryAfter previous then
      match takeIdent? (c :: cs) with
      | some (word, rest) =>
        if boundaryAfter rest.head? then
          ⟨String.ofList word, ⟨line, column, column + word.length⟩, previous = some '.'⟩ :: later
        else later
      | none => later
    else later

/-- The identifiers in the code of a line. -/
def occurrencesOfLine (index : Nat) (line : List Char) : List Occurrence :=
  occurrencesFrom index 0 none (codeOrNothing line)

/-- The identifiers in the code of lines of which the first has the given index. -/
def occurrencesOfLines (index : Nat) : List (List Char) → List Occurrence
  | [] => []
  | line :: rest => occurrencesOfLine index line ++ occurrencesOfLines (index + 1) rest

/-- The identifiers in the code of a text, in text order. -/
def occurrences (text : List Char) : List Occurrence :=
  occurrencesOfLines 0 (lines text)

/-- The spans in an event that name something else than a variable's use : the
declared or imported name, and the library and function of a call. A call in
the old form with a library that nobody knows is indexing, and its words are
ordinary. -/
def Event.sites : Event → List Span
  | declaration d => [d.nameSpan]
  | imported i => [i.span]
  | call c =>
    if !c.legacy || isLibraryName c.library then [c.librarySpan, c.functionSpan] else []

/-- The places that use a variable with the given name and declaring statement. -/
def referencesTo (sites : List Span) (words : List Occurrence) (name : String)
    (statement : Span) : List Span :=
  if isLibraryName name then []
  else
    (words.filter fun o =>
      o.word = name && !o.isMember && !sites.contains o.span && o.span.isPast statement).map
      (·.span)

/-- The places in calls that name the given library. -/
def callsInto (events : List Event) (name : String) : List Span :=
  (events.filterMap Event.call?).filterMap fun c =>
    if (Library.resolve? c.library).any (·.name = name) then some c.librarySpan else none

/-- The last declaration of each name. -/
def lastDeclarations (events : List Event) : Table Declaration :=
  .ofEntries ((events.filterMap Event.declaration?).map fun d => (d.name, d))

/-- The last import of each known library, under the library's own name. -/
def lastImports (events : List Event) : Table Span :=
  .ofEntries ((events.filterMap Event.import?).filterMap fun i =>
    (Library.resolve? i.name).map fun library => (library.name, i.span))

/-- The symbol table of a text with the given events. -/
def SymbolTable.ofEvents (text : List Char) (events : List Event) : SymbolTable :=
  let sites := events.flatMap Event.sites
  let words := occurrences text
  { declared := (lastDeclarations events).map fun (name, d) =>
      (name, ⟨d.nameSpan, d.statementSpan, d.kind, referencesTo sites words name d.statementSpan⟩)
    libraries := (lastImports events).map fun (name, span) =>
      (name, ⟨span, callsInto events name⟩) }

/-- The symbol table of a text. -/
def symbols (text : List Char) : SymbolTable :=
  .ofEvents text (events text)

namespace SymbolTable

def findVariable? (table : SymbolTable) (name : String) : Option Variable :=
  table.declared.get? name

/-- The library under any spelling of its name. -/
def findLibrary? (table : SymbolTable) (name : String) : Option ImportedLibrary :=
  table.libraries.get? (asciiLower name)

/-- The names of the variables that nothing refers to. -/
def unusedVariables (table : SymbolTable) : List String :=
  (table.declared.filter fun (_, v) => !v.used).map (·.1)

end SymbolTable

end RazenLint
