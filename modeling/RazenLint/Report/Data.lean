import RazenLint.Check.Result
import RazenLint.Json.Print
import RazenLint.Wire.Diagnostic

/-!
# Reports as data

A report lists every diagnostic of a check with its file. Lines and columns
count from one in it. It can be read back from its JSON value.
-/

namespace RazenLint

open Json

/-- The version of this program. -/
def programVersion : String := "0.1.0"

/-- A diagnostic in a report. -/
structure ReportedDiagnostic where
  rule : String
  severity : String
  file : String
  line : Nat
  column : Nat
  endLine : Nat
  endColumn : Nat
  message : String
  fix : Option String
deriving DecidableEq, Repr

structure DataReport where
  version : String
  path : String
  passed : Bool
  filesScanned : Nat
  errors : Nat
  warnings : Nat
  diagnostics : List ReportedDiagnostic
  skipped : List String
deriving DecidableEq, Repr

namespace ReportedDiagnostic

def ofDiagnostic (file : String) (d : Diagnostic) : ReportedDiagnostic where
  rule := d.rule.name
  severity := d.severity.name
  file
  line := d.range.start.line + 1
  column := d.range.start.character + 1
  endLine := d.range.stop.line + 1
  endColumn := d.range.stop.character + 1
  message := d.message
  fix := d.fixCode.map FixCode.name

def recordType : RecordType :=
  ⟨"JsonDiagnostic", ["rule", "severity", "file", "line", "column", "end_line", "end_column",
    "message", "fix"]⟩

def toJson (d : ReportedDiagnostic) : Json :=
  .object ([("rule", .text d.rule), ("severity", .text d.severity), ("file", .text d.file),
    ("line", .ofNat d.line), ("column", .ofNat d.column), ("end_line", .ofNat d.endLine),
    ("end_column", .ofNat d.endColumn), ("message", .text d.message)] ++
    presentMember "fix" (d.fix.map .text))

def ofJson (value : Json) : Decoded ReportedDiagnostic := do
  let record ← value.asRecord recordType
  let rule := record.field "rule" asText
  let severity := record.field "severity" asText
  let file := record.field "file" asText
  let line := record.field "line" asWord32
  let column := record.field "column" asWord32
  let endLine := record.field "end_line" asWord32
  let endColumn := record.field "end_column" asWord32
  let message := record.field "message" asText
  let fix := record.field "fix" (asOptional asText)
  record.firstProblem [problemOf "rule" rule, problemOf "severity" severity,
    problemOf "file" file, problemOf "line" line, problemOf "column" column,
    problemOf "end_line" endLine, problemOf "end_column" endColumn, problemOf "message" message,
    problemOf "fix" fix]
  let rule ← record.required "rule" rule
  let severity ← record.required "severity" severity
  let file ← record.required "file" file
  let line ← record.required "line" line
  let column ← record.required "column" column
  let endLine ← record.required "end_line" endLine
  let endColumn ← record.required "end_column" endColumn
  let message ← record.required "message" message
  let fix ← Record.defaulted none fix
  record.finish
  return { rule, severity, file, line, column, endLine, endColumn, message, fix }

end ReportedDiagnostic

namespace DataReport

/-- The report of a check of a path. -/
def ofResult (path : String) (result : CheckResult) (config : Config) : DataReport where
  version := programVersion
  path
  passed := result.passed config
  filesScanned := result.scanned
  errors := result.errorCount
  warnings := result.warningCount
  diagnostics := result.files.flatMap fun report =>
    report.diagnostics.map (ReportedDiagnostic.ofDiagnostic report.path)
  skipped := result.skipped.map SkippedFile.path

def recordType : RecordType :=
  ⟨"JsonReport", ["version", "path", "passed", "files_scanned", "errors", "warnings",
    "diagnostics", "skipped"]⟩

/-- The member of a list that is left out when it is empty. -/
def filledMember (name : String) (items : List Json) : List (String × Json) :=
  if items.isEmpty then [] else [(name, .list items)]

def toJson (report : DataReport) : Json :=
  .object ([("version", .text report.version), ("path", .text report.path),
    ("passed", .bool report.passed), ("files_scanned", .ofNat report.filesScanned),
    ("errors", .ofNat report.errors), ("warnings", .ofNat report.warnings),
    ("diagnostics", .list (report.diagnostics.map ReportedDiagnostic.toJson))] ++
    filledMember "skipped" (report.skipped.map .text))

def ofJson (value : Json) : Decoded DataReport := do
  let record ← value.asRecord recordType
  let version := record.field "version" asText
  let path := record.field "path" asText
  let passed := record.field "passed" asBool
  let filesScanned := record.field "files_scanned" asWord64
  let errors := record.field "errors" asWord64
  let warnings := record.field "warnings" asWord64
  let diagnostics := record.field "diagnostics" (asList ReportedDiagnostic.ofJson)
  let skipped := record.field "skipped" (asList asText)
  record.firstProblem [problemOf "version" version, problemOf "path" path,
    problemOf "passed" passed, problemOf "files_scanned" filesScanned,
    problemOf "errors" errors, problemOf "warnings" warnings,
    problemOf "diagnostics" diagnostics, problemOf "skipped" skipped]
  let version ← record.required "version" version
  let path ← record.required "path" path
  let passed ← record.required "passed" passed
  let filesScanned ← record.required "files_scanned" filesScanned
  let errors ← record.required "errors" errors
  let warnings ← record.required "warnings" warnings
  let diagnostics ← record.required "diagnostics" diagnostics
  let skipped ← Record.defaulted [] skipped
  record.finish
  return { version, path, passed, filesScanned, errors, warnings, diagnostics, skipped }

/-- The report as it is written. -/
def text (report : DataReport) : String :=
  report.toJson.pretty ++ "\n"

end DataReport

end RazenLint
