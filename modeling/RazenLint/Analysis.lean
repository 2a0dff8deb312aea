import RazenLint.Diagnostic
import RazenLint.Token

/-!
# Analysis of a document

One pass over a text gives its diagnostics and its tokens. Passes share
nothing, so a text is analyzed the same way every time.
-/

namespace RazenLint

structure Analysis where
  document : String
  diagnostics : List Diagnostic
  tokens : List Token
deriving DecidableEq, Repr

/-- Number of diagnostics that are errors. -/
def errorCount (diagnostics : List Diagnostic) : Nat :=
  diagnostics.countP Diagnostic.isError

/-- Number of diagnostics that are not errors. -/
def warningCount (diagnostics : List Diagnostic) : Nat :=
  diagnostics.length - errorCount diagnostics

/-- The analysis of a text under a document's name. -/
def analyze (document text : String) : Analysis where
  document
  diagnostics := diagnose text.toList
  tokens := (symbols text.toList).tokens

end RazenLint
