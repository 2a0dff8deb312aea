import RazenLint.Kind
import RazenLint.Text.Bracket
import RazenLint.Text.Literal
import RazenLint.Text.WordChar

/-!
# Shapes of values

The shape of a value is guessed from the text of the expression alone. A shape
without an opinion (`Shape.hasOpinion`) is one that the guess could not pin
down, and `Kind.accepts` then says nothing.
-/

namespace RazenLint

open Text

inductive Shape where
  | numeric
  | textual
  | boolean
  | array
  | identifier
  | expression
  | unknown
deriving DecidableEq, Repr

namespace Shape

def all : List Shape :=
  [numeric, textual, boolean, array, identifier, expression, unknown]

/-- The name of a shape in messages. -/
def name : Shape → String
  | numeric => "numeric"
  | textual => "textual"
  | boolean => "boolean"
  | array => "array"
  | identifier => "identifier"
  | expression => "expression"
  | unknown => "unknown"

/-- The name of a shape in exchanged data. -/
def tag : Shape → String
  | numeric => "numeric"
  | textual => "textual"
  | boolean => "boolean"
  | array => "array-like"
  | identifier => "identifier-reference"
  | expression => "compound-expression"
  | unknown => "unknown"

/-- The base kind of the values of this shape, where the shape decides it. -/
def kind? : Shape → Option Kind
  | numeric => some .numeric
  | textual => some .textual
  | boolean => some .boolean
  | array => some .collection
  | identifier | expression | unknown => none

/-- Whether the shape can be held against a declared kind. -/
def hasOpinion (shape : Shape) : Bool :=
  shape.kind?.isSome

end Shape

/-- Whether a value of the given shape fits the kind, with no answer for the
universal kind and for shapes without an opinion. -/
def Kind.accepts (kind : Kind) (shape : Shape) : Option Bool :=
  if kind.isAny then none else shape.kind?.map (· = kind.base)

/-- Digits with an optional sign and an optional point, and a digit on at least
one side of the point. -/
def isNumeral (cs : List Char) : Bool :=
  let unsigned := match cs with
    | c :: rest => if c = '+' ∨ c = '-' then rest else cs
    | [] => []
  let whole := unsigned.takeWhile Char.isDigit
  match unsigned.dropWhile Char.isDigit with
  | [] => !whole.isEmpty
  | c :: fraction =>
    c = '.' && fraction.all Char.isDigit && (!whole.isEmpty || !fraction.isEmpty)

/-- Whether the text after an opening quote closes the literal with its last
character. A backslash takes the next character with it, which is no newline. -/
def closesLiteral (quote : Char) : List Char → Bool
  | [] => false
  | c :: cs =>
    if c = quote then cs.isEmpty
    else if c = '\\' then
      match cs with
      | [] => false
      | escaped :: rest => escaped ≠ '\n' && closesLiteral quote rest
    else closesLiteral quote cs

/-- Whether a text is one string literal and nothing else. -/
def isLiteral : List Char → Bool
  | [] => false
  | c :: cs => isQuote c && closesLiteral c cs

/-- Whether two characters stand next to each other somewhere in a text. -/
def hasPair (first second : Char) : List Char → Bool
  | [] => false
  | c :: cs => (c = first && cs.head? = some second) || hasPair first second cs

/-- Whether masked text holds an arithmetic operator. -/
def hasArithmetic (masked : List Char) : Bool :=
  masked.any (['+', '-', '*', '/', '%'].contains ·)

/-- Whether masked text holds a comparison or a logical operator. -/
def hasLogic (masked : List Char) : Bool :=
  hasPair '=' '=' masked || hasPair '&' '&' masked || hasPair '|' '|' masked ||
    masked.any (['<', '>', '!'].contains ·)

/-- The shape of masked text that holds an operator. Comparisons and logic give
truth values, a sum with a literal in it is text, and other literals in
arithmetic leave the shape open. -/
def Shape.ofOperators (masked : List Char) : Shape :=
  if hasLogic masked then .boolean
  else if masked.any isQuote then if masked.contains '+' then .textual else .expression
  else .numeric

/-- The expression that a fragment holds : blanks at its ends and one semicolon
are no part of it. -/
def expressionOf (fragment : List Char) : List Char :=
  trimEnd (dropSemicolon (trim fragment))

/-- The shape of an expression, by the first rule that applies. -/
def Shape.ofExpression (expression : List Char) : Shape :=
  if expression.isEmpty then .unknown
  else if isNumeral expression then .numeric
  else if isLiteral expression then .textual
  else if expression = "true".toList ∨ expression = "false".toList then .boolean
  else
    let masked := mask expression
    if encloses '[' ']' masked then .array
    else if isIdent expression then .identifier
    else if hasArithmetic masked || hasLogic masked then .ofOperators masked
    else .unknown

/-- The shape of the value that a fragment of code describes. -/
def Shape.classify (fragment : List Char) : Shape :=
  .ofExpression (expressionOf fragment)

end RazenLint
