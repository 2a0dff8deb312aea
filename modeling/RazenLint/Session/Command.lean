import RazenLint.Session.Request
import RazenLint.Text.Utf8
import RazenLint.Wire.Diagnostic

/-!
# Commands

What a request asks for, once its method is known and its parameters are read.
`Command.document?` names the one document that a command is about.
-/

namespace RazenLint

open Json

/-- Why a line is answered with an error. -/
inductive ProtocolError where
  | malformed (reason : RequestError)
  | notUtf8 (reason : Text.Utf8Error)
  | invalidParams (method : String) (reason : DecodeError)
  | unknownMethod (method : String)
  | unknownDocument (document : String)
deriving DecidableEq, Repr

def ProtocolError.message : ProtocolError → String
  | malformed reason => "malformed request: " ++ reason.message
  | notUtf8 reason => "request is not valid UTF-8: " ++ reason.message
  | invalidParams method reason => "invalid params for '" ++ method ++ "': " ++ reason.message
  | unknownMethod method => "unknown method '" ++ method ++ "'"
  | unknownDocument document => "document is not open: " ++ document

inductive Command where
  /-- Opens a document or gives an open one a new text. -/
  | «open» (document text : String)
  | tokens (document : String)
  /-- Asks for the actions for some diagnostics, or for those of the last analysis. -/
  | codeActions (document : String) (diagnostics : Option (List Diagnostic))
  | completion (document : String) (position : Position)
  | close (document : String)
  | shutdown
deriving DecidableEq, Repr

namespace Command

/-- The document that a command is about. -/
def document? : Command → Option String
  | «open» document _ => some document
  | tokens document => some document
  | codeActions document _ => some document
  | completion document _ => some document
  | close document => some document
  | shutdown => none

def textRecordType : RecordType := ⟨"TextParams", ["document", "text"]⟩

def openOfJson (value : Json) : Decoded Command := do
  let record ← value.asRecord textRecordType
  let document := record.field "document" asText
  let text := record.field "text" asText
  record.firstProblem [problemOf "document" document, problemOf "text" text]
  let document ← record.required "document" document
  let text ← record.required "text" text
  record.finish
  return .open document text

def documentRecordType : RecordType := ⟨"DocumentParams", ["document"]⟩

/-- The document in parameters that name nothing else. -/
def documentOfJson (value : Json) : Decoded String := do
  let record ← value.asRecord documentRecordType
  let document := record.field "document" asText
  record.firstProblem [problemOf "document" document]
  let document ← record.required "document" document
  record.finish
  return document

def actionRecordType : RecordType := ⟨"CodeActionParams", ["document", "diagnostics"]⟩

def codeActionsOfJson (value : Json) : Decoded Command := do
  let record ← value.asRecord actionRecordType
  let document := record.field "document" asText
  let diagnostics := record.field "diagnostics" (asOptional (asList Diagnostic.ofJson))
  record.firstProblem [problemOf "document" document, problemOf "diagnostics" diagnostics]
  let document ← record.required "document" document
  let diagnostics ← Record.defaulted none diagnostics
  record.finish
  return .codeActions document diagnostics

def completionRecordType : RecordType := ⟨"CompletionParams", ["document", "position"]⟩

def completionOfJson (value : Json) : Decoded Command := do
  let record ← value.asRecord completionRecordType
  let document := record.field "document" asText
  let position := record.field "position" Position.ofJson
  record.firstProblem [problemOf "document" document, problemOf "position" position]
  let document ← record.required "document" document
  let position ← record.required "position" position
  record.finish
  return .completion document position

/-- How the parameters of a method are read, if there is such a method. -/
def decoder? (method : String) : Option (Json → Decoded Command) :=
  if method = "open" ∨ method = "change" then some openOfJson
  else if method = "tokens" then some fun value => return .tokens (← documentOfJson value)
  else if method = "codeActions" then some codeActionsOfJson
  else if method = "completion" then some completionOfJson
  else if method = "close" then some fun value => return .close (← documentOfJson value)
  else if method = "shutdown" then some fun _ => .ok .shutdown
  else none

/-- The command that a request gives. -/
def ofRequest (request : Request) : Except ProtocolError Command :=
  match decoder? request.method with
  | none => .error (.unknownMethod request.method)
  | some decode =>
    match decode request.params with
    | .ok command => .ok command
    | .error reason => .error (.invalidParams request.method reason)

end Command

end RazenLint
