import RazenLint.Json.Print
import RazenLint.Session.Command
import RazenLint.Text.Line
import RazenLint.Wire.Analysis

/-!
# Sessions

A session holds the documents that an editor has open. Each keeps its last text
and the analysis of that text. A request that fails changes nothing
(`Session.answer`). Every line that is not blank gets one line as its answer.
-/

namespace RazenLint

/-- An open document with the analysis of its text. -/
structure OpenDocument where
  text : String
  analysis : Analysis
deriving DecidableEq, Repr

structure Session where
  documents : Table OpenDocument
  /-- The session was asked to end. -/
  isShutDown : Bool
deriving DecidableEq, Repr

namespace Session

def fresh : Session := ⟨[], false⟩

/-- Number of open documents. -/
def openCount (session : Session) : Nat :=
  session.documents.length

def document (session : Session) (name : String) : Except ProtocolError OpenDocument :=
  match session.documents.get? name with
  | some found => .ok found
  | none => .error (.unknownDocument name)

/-- The session after a command, and the result of the command. -/
def perform (session : Session) : Command → Except ProtocolError (Session × Json)
  | .open name text =>
    let analysis := analyze name text
    .ok ({ session with documents := session.documents.insert name ⟨text, analysis⟩ },
      analysis.toJson)
  | .tokens name => do
    let found ← session.document name
    return (session, .list (found.analysis.tokens.map Token.toJson))
  | .codeActions name diagnostics => do
    let found ← session.document name
    let actions :=
      RazenLint.codeActions name found.text.toList (diagnostics.getD found.analysis.diagnostics)
    return (session, .list (actions.map CodeAction.toJson))
  | .completion name position => do
    let found ← session.document name
    let items := complete found.text.toList position
    return (session, .list (items.map CompletionItem.toJson))
  | .close name =>
    .ok ({ session with documents := session.documents.erase name },
      .bool (session.documents.get? name).isSome)
  | .shutdown => .ok (⟨[], true⟩, .null)

end Session

/-- The answer to a request, under the request's id. -/
structure Response where
  id : Json
  outcome : Except ProtocolError Json

namespace Response

def toJson (response : Response) : Json :=
  .object [("id", response.id),
    match response.outcome with
    | .ok result => ("result", result.sorted)
    | .error reason => ("error", .object [("message", .text reason.message)])]

/-- The line that is sent. -/
def line (response : Response) : String :=
  response.toJson.compact

end Response

namespace Session

/-- The session after a request, and the answer to it. -/
def answer (session : Session) (request : Request) : Session × Response :=
  match Command.ofRequest request >>= session.perform with
  | .ok (next, result) => (next, ⟨request.id, .ok result⟩)
  | .error reason => (session, ⟨request.id, .error reason⟩)

/-- The session after a line, and the answer to it. A blank line has none. -/
def handleLine (session : Session) (line : List Char) : Session × Option Response :=
  let line := Text.trim line
  if line.isEmpty then (session, none)
  else
    match Request.ofLine line with
    | .ok request =>
      let (next, response) := session.answer request
      (next, some response)
    | .error reason => (session, some ⟨.null, .error (.malformed reason)⟩)

/-- The session after a line of bytes, and the answer to it. -/
def handleBytes (session : Session) (bytes : List UInt8) : Session × Option Response :=
  match Text.decodeUtf8 bytes with
  | .ok line => session.handleLine line
  | .error reason => (session, some ⟨.null, .error (.notUtf8 reason)⟩)

end Session

/-- The lines of bytes, each with the newline that ends it. -/
def byteLines : List UInt8 → List (List UInt8)
  | [] => []
  | b :: rest =>
    if b = 0x0A then [b] :: byteLines rest
    else
      match byteLines rest with
      | [] => [[b]]
      | first :: others => (b :: first) :: others

namespace Session

/-- Handles lines in turn, up to the one that ends the session. -/
def serveLines (session : Session) : List (List UInt8) → Session × List Response
  | [] => (session, [])
  | line :: rest =>
    let (next, response) := session.handleBytes line
    if next.isShutDown then (next, response.toList)
    else
      let (final, responses) := next.serveLines rest
      (final, response.toList ++ responses)

/-- Serves the requests in an input, up to the one that ends the session. -/
def serve (session : Session) (input : List UInt8) : Session × List Response :=
  session.serveLines (byteLines input)

end Session

/-- What is written for responses : a line for each. -/
def outputOf (responses : List Response) : String :=
  String.join (responses.map fun response => response.line ++ "\n")

end RazenLint
