/-!
# Patterns for paths

A pattern is a list of pieces. Names of characters stand for themselves, `?`
and `*` for any byte and for any bytes, brackets for one byte of a set, and
braces for a choice between patterns. Two stars that fill a whole component
stand for any number of components.
-/

namespace RazenLint

inductive Glob.Piece where
  /-- One character. -/
  | literal (c : Char)
  | anyByte
  | anyBytes
  /-- Any number of components at the start, with the slash after them. -/
  | anyLeading
  /-- A slash and at least nothing more after it, at the end. -/
  | anyTrailing
  /-- A slash, or any number of components between slashes. -/
  | anyBetween
  /-- One byte of a set, or one outside it. -/
  | oneOf (negated : Bool) (ranges : List (Char × Char))
  | choice (branches : List (List Glob.Piece))
deriving Repr

/-- A pattern for a whole path. -/
abbrev Glob := List Glob.Piece

namespace Glob

/-- What is wrong with a pattern. -/
inductive Problem where
  | unclosedSet
  | invalidRange (low high : Char)
  | unopenedChoice
  | unclosedChoice
  | danglingEscape
  /-- Choices in choices are nested more deeply than matching allows. -/
  | tooNested
deriving DecidableEq, Repr

def Problem.message : Problem → String
  | unclosedSet => "unclosed character class; missing ']'"
  | invalidRange low high =>
    "invalid range; '" ++ low.toString ++ "' > '" ++ high.toString ++ "'"
  | unopenedChoice =>
    "unopened alternate group; missing '\x7b' (maybe escape '\x7d' with '[\x7d]'?)"
  | unclosedChoice =>
    "unclosed alternate group; missing '\x7d' (maybe escape '\x7b' with '[\x7b]'?)"
  | danglingEscape => "dangling '\\'"
  | tooNested => "error parsing pattern"

/-- A pattern that cannot be read, or patterns of which one is nested too deeply. -/
structure ReadError where
  pattern : String
  problem : Problem
deriving DecidableEq, Repr

def ReadError.message (e : ReadError) : String :=
  match e.problem with
  | .tooNested => Problem.tooNested.message
  | problem => "error parsing glob '" ++ e.pattern ++ "': " ++ problem.message

end Glob

end RazenLint
