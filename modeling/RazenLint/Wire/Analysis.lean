import RazenLint.Analysis
import RazenLint.Completion
import RazenLint.Fix
import RazenLint.Wire.Diagnostic

/-!
# Results of an analysis as data

Tokens, edits, actions and completion items as JSON values and back, and the
analysis of a document as a JSON value.
-/

namespace RazenLint

open Json

def Kind.toJson (kind : Kind) : Json :=
  .text kind.tag

def Kind.ofJson : Json → Decoded Kind :=
  asVariant Kind.all Kind.tag

def ResultType.toJson (type : ResultType) : Json :=
  .text type.name

def ResultType.ofJson : Json → Decoded ResultType :=
  asVariant ResultType.all ResultType.name

def TokenCategory.ofJson : Json → Decoded TokenCategory :=
  asVariant TokenCategory.all TokenCategory.name

def Token.recordType : RecordType :=
  ⟨"SemanticToken", ["line", "startCol", "length", "tokenType", "tokenModifiers"]⟩

def Token.toJson (t : Token) : Json :=
  .object [("line", .ofNat t.line), ("startCol", .ofNat t.startColumn), ("length", .ofNat t.length),
    ("tokenType", .text t.category.name), ("tokenModifiers", .ofNat t.modifiers)]

def Token.ofJson (value : Json) : Decoded Token := do
  let record ← value.asRecord recordType
  let line := record.field "line" asWord32
  let startColumn := record.field "startCol" asWord32
  let length := record.field "length" asWord32
  let category := record.field "tokenType" TokenCategory.ofJson
  let modifiers := record.field "tokenModifiers" asWord32
  record.firstProblem [problemOf "line" line, problemOf "startCol" startColumn,
    problemOf "length" length, problemOf "tokenType" category,
    problemOf "tokenModifiers" modifiers]
  let line ← record.required "line" line
  let startColumn ← record.required "startCol" startColumn
  let length ← record.required "length" length
  let category ← record.required "tokenType" category
  let modifiers ← record.required "tokenModifiers" modifiers
  record.finish
  return { line, startColumn, length, category, modifiers }

def TextEdit.recordType : RecordType := ⟨"TextEdit", ["range", "newText"]⟩

def TextEdit.toJson (e : TextEdit) : Json :=
  .object [("range", e.range.toJson), ("newText", .text e.newText)]

def TextEdit.ofJson (value : Json) : Decoded TextEdit := do
  let record ← value.asRecord recordType
  let range := record.field "range" Range.ofJson
  let newText := record.field "newText" asText
  record.firstProblem [problemOf "range" range, problemOf "newText" newText]
  let range ← record.required "range" range
  let newText ← record.required "newText" newText
  record.finish
  return { range, newText }

def CodeAction.recordType : RecordType :=
  ⟨"CodeAction", ["title", "kind", "document", "diagnostics", "edit"]⟩

def CodeAction.toJson (a : CodeAction) : Json :=
  .object [("title", .text a.title), ("kind", .text a.kind), ("document", .text a.document),
    ("diagnostics", .list (a.diagnostics.map Diagnostic.toJson)), ("edit", a.edit.toJson)]

def CodeAction.ofJson (value : Json) : Decoded CodeAction := do
  let record ← value.asRecord recordType
  let title := record.field "title" asText
  let kind := record.field "kind" asText
  let document := record.field "document" asText
  let diagnostics := record.field "diagnostics" (asList Diagnostic.ofJson)
  let edit := record.field "edit" TextEdit.ofJson
  record.firstProblem [problemOf "title" title, problemOf "kind" kind,
    problemOf "document" document, problemOf "diagnostics" diagnostics, problemOf "edit" edit]
  let title ← record.required "title" title
  let kind ← record.required "kind" kind
  let document ← record.required "document" document
  let diagnostics ← record.required "diagnostics" diagnostics
  let edit ← record.required "edit" edit
  record.finish
  return { title, kind, document, diagnostics, edit }

def CompletionKind.ofJson : Json → Decoded CompletionKind :=
  asVariant CompletionKind.all CompletionKind.name

def CompletionItem.recordType : RecordType :=
  ⟨"CompletionItem", ["label", "kind", "detail", "insertText"]⟩

def CompletionItem.toJson (i : CompletionItem) : Json :=
  .object ([("label", .text i.label), ("kind", .text i.kind.name)] ++
    presentMember "detail" (i.detail.map .text) ++
    presentMember "insertText" (i.insertText.map .text))

def CompletionItem.ofJson (value : Json) : Decoded CompletionItem := do
  let record ← value.asRecord recordType
  let label := record.field "label" asText
  let kind := record.field "kind" CompletionKind.ofJson
  let detail := record.field "detail" (asOptional asText)
  let insertText := record.field "insertText" (asOptional asText)
  record.firstProblem [problemOf "label" label, problemOf "kind" kind, problemOf "detail" detail,
    problemOf "insertText" insertText]
  let label ← record.required "label" label
  let kind ← record.required "kind" kind
  let detail ← Record.defaulted none detail
  let insertText ← Record.defaulted none insertText
  record.finish
  return { label, kind, detail, insertText }

def Analysis.toJson (a : Analysis) : Json :=
  .object [("document", .text a.document),
    ("diagnostics", .list (a.diagnostics.map Diagnostic.toJson)),
    ("tokens", .list (a.tokens.map Token.toJson))]

end RazenLint
