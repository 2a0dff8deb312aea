import RazenLint.Event.Basic
import RazenLint.Event.Statement
import RazenLint.Text.Bracket
import RazenLint.Text.Line
import RazenLint.Text.Literal

/-!
# The events of a text

Each line is read by itself. A declaration or an import comes first, and the
calls of the line follow from left to right. The call that a declaration
begins with is marked as bound.
-/

namespace RazenLint

open Text

/-- What a line holds between two columns. -/
def between (line : List Char) (start stop : Nat) : List Char :=
  (line.drop start).take (stop - start)

/-- The call with the given head in the given column. -/
def LibraryCall.ofHead (index : Nat) (line : List Char) (bound : Bool) (column : Nat)
    (head : CallHead) : LibraryCall :=
  let opening := column + head.openingOffset
  let functionColumn := column + head.functionOffset
  let closing := closingParen (code line) opening
  { library := String.ofList head.library
    function := String.ofList head.function
    librarySpan := ⟨index, column, column + head.library.length⟩
    functionSpan := ⟨index, functionColumn, functionColumn + head.function.length⟩
    callSpan := ⟨index, column, closing.getD opening + 1⟩
    arguments := closing.map fun c => String.ofList (between line (opening + 1) c)
    legacy := head.legacy
    bound }

/-- The column and the head of the call that the value of an assignment begins with. -/
def Assignment.head? (assignment : Assignment) (code : List Char) : Option (Nat × CallHead) :=
  let value := code.drop assignment.valueColumn
  (headAt? (trimStart value)).map fun head =>
    (assignment.valueColumn + (value.takeWhile isBlank).length, head)

/-- Whether only blanks and at most one semicolon follow a column of a line of code. -/
def endsAfter (code : List Char) (column : Nat) : Bool :=
  let rest := trim (code.drop column)
  rest.isEmpty || rest = [';']

def BoundCall.ofCall (line : List Char) (call : LibraryCall) : BoundCall where
  library := call.library
  function := call.function
  legacy := call.legacy
  spansInitializer := call.arguments.isSome && endsAfter (code line) call.callSpan.stop

/-- The declaration that an assignment on a line makes. -/
def Declaration.ofAssignment (index : Nat) (line : List Char) (assignment : Assignment) :
    Declaration where
  keyword := String.ofList assignment.keyword
  kind := assignment.kind
  name := String.ofList assignment.name
  nameSpan := ⟨index, assignment.nameColumn, assignment.nameColumn + assignment.name.length⟩
  statementSpan := ⟨index, assignment.keywordColumn, (trimEnd (code line)).length⟩
  initializer :=
    let value := trim (between line assignment.valueColumn (code line).length)
    String.ofList (trimEnd (dropSemicolon value))
  call := (assignment.head? (code line)).map fun (column, head) =>
    .ofCall line (.ofHead index line true column head)

/-- The calls of a line from left to right, where the one in the given column is bound. -/
def callsOfLine (index : Nat) (line : List Char) (boundColumn : Option Nat) : List LibraryCall :=
  (callHeads (code line)).map fun (column, head) =>
    .ofHead index line (boundColumn = some column) column head

def Import.ofWords (index : Nat) (words : WordPair) : Import where
  keyword := String.ofList words.first
  name := String.ofList words.second
  span := ⟨index, words.secondColumn, words.secondColumn + words.second.length⟩

/-- The events of the line with the given index. -/
def eventsOfLine (index : Nat) (line : List Char) : List Event :=
  if isCommentLine line then []
  else
    match assignment? (code line) with
    | some assignment =>
      .declaration (.ofAssignment index line assignment) ::
        (callsOfLine index line ((assignment.head? (code line)).map (·.1))).map .call
    | none =>
      (importWords? (code line)).toList.map (fun words => .imported (.ofWords index words)) ++
        (callsOfLine index line none).map .call

/-- The events of lines of which the first has the given index. -/
def eventsFrom (index : Nat) : List (List Char) → List Event
  | [] => []
  | line :: rest => eventsOfLine index line ++ eventsFrom (index + 1) rest

/-- The events of a text, line by line. -/
def events (text : List Char) : List Event :=
  eventsFrom 0 (lines text)

end RazenLint
