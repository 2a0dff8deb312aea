import RazenLint.Diagnostic
import RazenLint.Json.Decode

/-!
# Diagnostics as data

Positions, ranges and diagnostics as JSON values and back. A field that is
absent from a diagnostic is left out of the value. Lines and characters are
numbers of 32 bits.
-/

namespace RazenLint

open Json

/-- The member of a field that is left out when it is absent. -/
def presentMember (name : String) (value : Option Json) : List (String × Json) :=
  value.toList.map fun content => (name, content)

def Position.recordType : RecordType := ⟨"Position", ["line", "character"]⟩

def Position.toJson (p : Position) : Json :=
  .object [("line", .ofNat p.line), ("character", .ofNat p.character)]

def Position.ofJson (value : Json) : Decoded Position := do
  let record ← value.asRecord recordType
  let line := record.field "line" asWord32
  let character := record.field "character" asWord32
  record.firstProblem [problemOf "line" line, problemOf "character" character]
  let line ← record.required "line" line
  let character ← record.required "character" character
  record.finish
  return { line, character }

def Range.recordType : RecordType := ⟨"Range", ["start", "end"]⟩

def Range.toJson (r : Range) : Json :=
  .object [("start", r.start.toJson), ("end", r.stop.toJson)]

def Range.ofJson (value : Json) : Decoded Range := do
  let record ← value.asRecord recordType
  let start := record.field "start" Position.ofJson
  let stop := record.field "end" Position.ofJson
  record.firstProblem [problemOf "start" start, problemOf "end" stop]
  let start ← record.required "start" start
  let stop ← record.required "end" stop
  record.finish
  return { start, stop }

def Severity.toJson (severity : Severity) : Json :=
  .text severity.name

def Severity.ofJson : Json → Decoded Severity :=
  asVariant Severity.all Severity.name

def Rule.toJson (rule : Rule) : Json :=
  .text rule.name

def Rule.ofJson : Json → Decoded Rule :=
  asVariant Rule.all Rule.name

def FixCode.toJson (code : FixCode) : Json :=
  .text code.name

def FixCode.ofJson : Json → Decoded FixCode :=
  asVariant FixCode.all FixCode.name

def Diagnostic.recordType : RecordType :=
  ⟨"Diagnostic", ["range", "severity", "message", "source", "code", "fixCode"]⟩

def Diagnostic.toJson (d : Diagnostic) : Json :=
  .object ([("range", d.range.toJson), ("severity", d.severity.toJson), ("message", .text d.message),
    ("source", .text d.source), ("code", d.rule.toJson)] ++
    presentMember "fixCode" (d.fixCode.map FixCode.toJson))

def Diagnostic.ofJson (value : Json) : Decoded Diagnostic := do
  let record ← value.asRecord recordType
  let range := record.field "range" Range.ofJson
  let severity := record.field "severity" Severity.ofJson
  let message := record.field "message" asText
  let source := record.field "source" asText
  let rule := record.field "code" Rule.ofJson
  let fixCode := record.field "fixCode" (asOptional FixCode.ofJson)
  record.firstProblem [problemOf "range" range, problemOf "severity" severity,
    problemOf "message" message, problemOf "source" source, problemOf "code" rule,
    problemOf "fixCode" fixCode]
  let range ← record.required "range" range
  let severity ← record.required "severity" severity
  let message ← record.required "message" message
  let source ← record.required "source" source
  let rule ← record.required "code" rule
  let fixCode ← Record.defaulted none fixCode
  record.finish
  return { range, severity, message, source, rule, fixCode }

end RazenLint
