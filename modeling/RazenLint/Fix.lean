import RazenLint.Edit

/-!
# Fixes

A diagnostic with a fix code leads to an action that an editor can offer. The
range is read again in the text at hand, so a diagnostic whose range no longer
holds a call in the old form leads to nothing. `fixAll` makes all fixes, in
rounds, because a call can stand inside another one.
-/

namespace RazenLint

open Text

/-- A call in the old form, as a whole text. -/
structure LegacyCall where
  library : List Char
  function : List Char
  arguments : List Char
deriving DecidableEq, Repr

/-- Reads a text that is `library[function](arguments)` from end to end. -/
def LegacyCall.ofText? (cs : List Char) : Option LegacyCall :=
  let library := cs.takeWhile isWord
  match library, cs.dropWhile isWord with
  | [], _ => none
  | _, '[' :: rest =>
    let function := rest.takeWhile isWord
    match function, rest.dropWhile isWord with
    | [], _ => none
    | _, ']' :: rest =>
      match trimStart rest with
      | '(' :: arguments =>
        if arguments.getLast? = some ')' then some ⟨library, function, arguments.dropLast⟩
        else none
      | _ => none
    | _, _ => none
  | _, _ => none

/-- The same call in the current form. -/
def LegacyCall.modern (call : LegacyCall) : String :=
  currentForm (String.ofList call.library) (String.ofList call.function)
    (some (String.ofList call.arguments))

/-- What an editor can offer for a document : one edit, and the diagnostics
that it settles. -/
structure CodeAction where
  title : String
  kind : String
  document : String
  diagnostics : List Diagnostic
  edit : TextEdit
deriving DecidableEq, Repr

/-- The kind of an action that settles a diagnostic. -/
def quickfixKind : String := "quickfix"

/-- The text in a range of one line. -/
def sliceRange? (text : List Char) (range : Range) : Option (List Char) := do
  if range.start.line ≠ range.stop.line ∨ range.stop.character < range.start.character then none
  else
    let line ← (lines text)[range.start.line]?
    if range.stop.character ≤ line.length then
      return (line.drop range.start.character).take (range.stop.character - range.start.character)
    else none

/-- The action for a diagnostic in the text at hand. -/
def propose? (document : String) (text : List Char) (d : Diagnostic) : Option CodeAction := do
  match ← d.fixCode with
  | .deprecatedCallForm =>
    let slice ← sliceRange? text d.range
    let call ← LegacyCall.ofText? slice
    return {
      title := "Replace with '" ++ call.modern ++ "'"
      kind := quickfixKind
      document
      diagnostics := [d]
      edit := ⟨d.range, call.modern⟩ }

/-- The actions for diagnostics in the text at hand. -/
def codeActions (document : String) (text : List Char) (diagnostics : List Diagnostic) :
    List CodeAction :=
  diagnostics.filterMap (propose? document text)

/-- One round of fixes : the text after it and the number of edits. -/
def fixRound (text : List Char) : List Char × Nat :=
  applyEdits text ((codeActions "" text (diagnose text)).map (·.edit))

/-- At most `rounds` rounds of fixes, up to the first one that changes nothing. -/
def fixRounds : Nat → List Char → List Char × Nat
  | 0, text => (text, 0)
  | rounds + 1, text =>
    let (fixed, applied) := fixRound text
    if applied = 0 then (text, 0)
    else
      let (final, more) := fixRounds rounds fixed
      (final, applied + more)

/-- A text with all fixes made, and their number. A fix takes one opening
bracket out of the text, so there are no more rounds than brackets. -/
def fixAll (text : List Char) : List Char × Nat :=
  fixRounds (text.count '[' + 1) text

end RazenLint
