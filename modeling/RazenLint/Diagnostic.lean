import RazenLint.Finding

/-!
# Diagnostics

A diagnostic is a finding as a user reads it : a range, a severity, a message
and the rule behind it. `diagnose` puts the diagnostics of a text in the order
of their places.
-/

namespace RazenLint

inductive Severity where
  | error
  | warning
deriving DecidableEq, Repr

namespace Severity

def all : List Severity :=
  [error, warning]

def name : Severity → String
  | error => "error"
  | warning => "warning"

/-- The severity with a name, in any case. -/
def ofName? (text : String) : Option Severity :=
  all.find? fun severity => severity.name = Text.asciiLower text

end Severity

/-- The rule that a finding breaks. -/
inductive Rule where
  | unknownImport
  | unknownLibrary
  | unknownFunction
  | kindMismatch
  | returnMismatch
  | deprecatedCall
deriving DecidableEq, Repr

namespace Rule

/-- The rules in their order. -/
def all : List Rule :=
  [unknownImport, unknownLibrary, unknownFunction, kindMismatch, returnMismatch, deprecatedCall]

/-- The place of a rule among the rules. -/
def rank : Rule → Nat
  | unknownImport => 0
  | unknownLibrary => 1
  | unknownFunction => 2
  | kindMismatch => 3
  | returnMismatch => 4
  | deprecatedCall => 5

def name : Rule → String
  | unknownImport => "unknown_import"
  | unknownLibrary => "unknown_library"
  | unknownFunction => "unknown_function"
  | kindMismatch => "kind_mismatch"
  | returnMismatch => "return_kind_mismatch"
  | deprecatedCall => "deprecated_call"

def ofName? (text : String) : Option Rule :=
  all.find? (·.name = text)

/-- What the rule is about, in one line. -/
def description : Rule → String
  | unknownImport => "Import of a library that is not registered"
  | unknownLibrary => "Call into a library that is not registered"
  | unknownFunction => "Call to a function the library does not expose"
  | kindMismatch => "Initializer does not match the declared kind"
  | returnMismatch => "Library call returns a different kind than the declaration"
  | deprecatedCall => "Deprecated bracket call form"

end Rule

/-- The fix that can be made for a diagnostic without asking. -/
inductive FixCode where
  | deprecatedCallForm
deriving DecidableEq, Repr

namespace FixCode

def all : List FixCode :=
  [deprecatedCallForm]

def name : FixCode → String
  | deprecatedCallForm => "deprecated-call-form"

end FixCode

/-- A place in a text. Lines and characters count from zero. -/
structure Position where
  line : Nat
  character : Nat
deriving DecidableEq, Repr

namespace Position

/-- Positions in reading order. -/
def compare (a b : Position) : Ordering :=
  (Ord.compare a.line b.line).then (Ord.compare a.character b.character)

end Position

/-- From a position up to, and without, another one. -/
structure Range where
  start : Position
  stop : Position
deriving DecidableEq, Repr

def Range.ofSpan (span : Span) : Range :=
  ⟨⟨span.line, span.start⟩, ⟨span.line, span.stop⟩⟩

structure Diagnostic where
  range : Range
  severity : Severity
  message : String
  /-- The program that speaks. -/
  source : String
  rule : Rule
  fixCode : Option FixCode
deriving DecidableEq, Repr

/-- The source of every diagnostic of this library. -/
def sourceName : String := "razencheck"

namespace Diagnostic

def isError (d : Diagnostic) : Bool :=
  d.severity = .error

/-- Order by start, rule and end. -/
def compare (a b : Diagnostic) : Ordering :=
  (a.range.start.compare b.range.start).then
    ((Ord.compare a.rule.rank b.rule.rank).then (a.range.stop.compare b.range.stop))

end Diagnostic

namespace Finding

def rule : Finding → Rule
  | unknownImport .. => .unknownImport
  | unknownLibrary .. => .unknownLibrary
  | unknownFunction .. => .unknownFunction
  | kindMismatch .. => .kindMismatch
  | returnMismatch .. => .returnMismatch
  | deprecatedCall .. => .deprecatedCall

end Finding

/-- Calls that cannot succeed are errors, and all else is a warning. -/
def Rule.severity : Rule → Severity
  | unknownLibrary | unknownFunction => .error
  | unknownImport | kindMismatch | returnMismatch | deprecatedCall => .warning

def Rule.fixCode : Rule → Option FixCode
  | deprecatedCall => some .deprecatedCallForm
  | _ => none

/-- The message that names an unknown library. -/
def unknownLibraryMessage (name : String) : String :=
  "Unknown library '" ++ name ++ "'. Known libraries: " ++ ", ".intercalate libraryNames

def Finding.message : Finding → String
  | unknownImport name _ => unknownLibraryMessage name
  | unknownLibrary library _ => unknownLibraryMessage library
  | unknownFunction library function _ =>
    "Library '" ++ library.name ++ "' has no function '" ++ function ++
      "'. Available functions: " ++ ", ".intercalate library.functionNames
  | kindMismatch name keyword kind shape _ =>
    "'" ++ name ++ "' is declared with '" ++ keyword ++ "' and expects a " ++ kind.base.name ++
      " value, but the initializer is " ++ shape.name
  | returnMismatch name keyword _ library function result _ =>
    "'" ++ library ++ "::" ++ function ++ "' returns a " ++ result.name ++ " value; declare '" ++
      name ++ "' with '" ++ result.kind.keyword ++ "' instead of '" ++ keyword ++ "'"
  | deprecatedCall library function replacement _ =>
    "'" ++ library ++ "[" ++ function ++ "](...)' is a deprecated call form; use '" ++
      replacement ++ "'"

def Finding.diagnostic (f : Finding) : Diagnostic where
  range := .ofSpan f.span
  severity := f.rule.severity
  message := f.message
  source := sourceName
  rule := f.rule
  fixCode := f.rule.fixCode

/-- The diagnostics of findings, by place and rule. -/
def aggregate (findings : List Finding) : List Diagnostic :=
  (findings.map Finding.diagnostic).mergeSort fun a b => (a.compare b).isLE

/-- The diagnostics of a text. -/
def diagnose (text : List Char) : List Diagnostic :=
  aggregate (findings (events text))

end RazenLint
