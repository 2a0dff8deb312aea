/-!
# YAML documents

The values of a document are scalars, sequences and mappings. A scalar keeps how it
is written, for only without quotes can it mean something else than its text. A
value with an anchor can be meant again further on, by a reference.
-/

namespace RazenLint

namespace Yaml

/-- How a scalar is written. -/
inductive Style where
  /-- Without anything around it. -/
  | plain
  | quoted
  /-- Indented below its indicator, with its lines as they are. -/
  | literal
  /-- Indented below its indicator, with its lines joined. -/
  | folded
deriving DecidableEq, Repr, Inhabited

/-- The bytes of a tag. -/
abbrev Tag := List UInt8

end Yaml

inductive Yaml where
  | scalar (style : Yaml.Style) (tag : Option Yaml.Tag) (text : String)
  | sequence (items : List Yaml)
  | mapping (pairs : List (Yaml × Yaml))
  /-- Whatever stands at the anchor with a number. -/
  | reference (number : Nat)
deriving Repr, Inhabited

namespace Yaml

/-- What stands for a value that is left out. -/
def empty : Yaml := scalar .plain none ""

/-- A document with its anchors. -/
structure Document where
  /-- The value of the document, unless the text holds no document at all. -/
  root : Option Yaml
  /-- The values at anchors with the numbers of these, in the order in which they
  begin. Of several with the same number the last one counts. -/
  anchored : List (Nat × Yaml)
deriving Repr

/-- The value that a reference stands for. Any other value stands for itself. -/
def Document.follow (document : Document) : Yaml → Yaml
  | reference number => (document.anchored.reverse.lookup number).getD empty
  | value => value

/-- What can be wrong with a document. -/
inductive Problem where
  | controlCharacter
  | cannotStartToken
  | keyWithoutColon
  | colonNotAllowed
  | keyNotAllowed
  | entryNotAllowed
  | tabInIndentation
  | colonInScalar
  | markerInQuotes
  | unclosedQuotes
  | unknownEscape
  | invalidCodePoint
  | zeroIndentation
  | tabInBlock
  | textAfterIndicator
  | expectedAnchorName
  | expectedTagUri
  | unclosedTag
  | invalidTagEscape
  | expectedTagEnd
  | expectedHandleEnd
  | unknownDirective
  | invalidVersion
  | unsupportedVersion
  | repeatedDirective
  | undefinedHandle
  | unknownAnchor
  | expectedValue
  | expectedEntry
  | expectedKey
  | expectedCommaOrBracket
  | expectedCommaOrBrace
  | expectedDocumentStart
  | moreThanOneDocument
  | unexpectedType (expected : String)
  | duplicateField (name : String)
deriving DecidableEq, Repr

def Problem.message : Problem → String
  | controlCharacter => "control characters are not allowed"
  | cannotStartToken => "found character that cannot start any token"
  | keyWithoutColon => "could not find expected ':'"
  | colonNotAllowed => "mapping values are not allowed in this context"
  | keyNotAllowed => "mapping keys are not allowed in this context"
  | entryNotAllowed => "block sequence entries are not allowed in this context"
  | tabInIndentation => "found a tab character that violates indentation"
  | colonInScalar => "found unexpected ':'"
  | markerInQuotes => "found unexpected document indicator"
  | unclosedQuotes => "found unexpected end of stream"
  | unknownEscape => "found unknown escape character"
  | invalidCodePoint => "found invalid Unicode character escape code"
  | zeroIndentation => "found an indentation indicator equal to 0"
  | tabInBlock => "found a tab character where an indentation space is expected"
  | textAfterIndicator => "did not find expected comment or line break"
  | expectedAnchorName => "did not find expected alphabetic or numeric character"
  | expectedTagUri => "did not find expected tag URI"
  | unclosedTag => "did not find the expected '>'"
  | invalidTagEscape => "did not find URI escaped octet"
  | expectedTagEnd => "did not find expected whitespace or line break"
  | expectedHandleEnd => "did not find expected '!'"
  | unknownDirective => "found unknown directive name"
  | invalidVersion => "did not find expected version number"
  | unsupportedVersion => "found incompatible YAML document"
  | repeatedDirective => "found duplicate directive"
  | undefinedHandle => "found undefined tag handle"
  | unknownAnchor => "unknown anchor"
  | expectedValue => "did not find expected node content"
  | expectedEntry => "did not find expected '-' indicator"
  | expectedKey => "did not find expected key"
  | expectedCommaOrBracket => "did not find expected ',' or ']'"
  | expectedCommaOrBrace => "did not find expected ',' or '\x7d'"
  | expectedDocumentStart => "did not find expected document start"
  | moreThanOneDocument => "more than one document"
  | unexpectedType expected => "invalid type, expected " ++ expected
  | duplicateField name => "duplicate field '" ++ name ++ "'"

/-- A way to read the document of a text. -/
abbrev DocumentReader := List Char → Except Problem Document

end Yaml

end RazenLint
