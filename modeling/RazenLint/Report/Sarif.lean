import RazenLint.Report.Data

/-!
# SARIF reports

A report in the format of static analysis results : the rules that occur, each
once and in their order, and a result for every diagnostic. Files are named
relative to the path that was checked.
-/

namespace RazenLint

/-- The region of a text from a place up to another one, counted from one. -/
structure SarifRegion where
  startLine : Nat
  startColumn : Nat
  endLine : Nat
  endColumn : Nat
deriving DecidableEq, Repr

structure SarifResult where
  rule : Rule
  level : String
  message : String
  uri : String
  region : SarifRegion
deriving DecidableEq, Repr

structure SarifReport where
  rules : List Rule
  results : List SarifResult
deriving DecidableEq, Repr

/-- The name of a severity among the levels of results. -/
def Severity.level : Severity → String
  | error => "error"
  | warning => "warning"

/-- The level of a rule where a result does not give one. -/
def Rule.defaultLevel : Rule → String
  | unknownLibrary | unknownFunction => "error"
  | unknownImport | kindMismatch | returnMismatch | deprecatedCall => "warning"

/-- A text with slashes in place of its backslashes. -/
def slashed (text : String) : String :=
  String.ofList (text.toList.map fun c => if c = '\\' then '/' else c)

/-- How a file is named in a report on a path : by its own name if it is the path,
by the way from the path if it is below it, and as it is otherwise. -/
def relativeUri (base file : String) : String :=
  if base = "" then file
  else if Path.same file base then (Path.fileName? file).getD file
  else
    match Path.relativeTo? base file with
    | some rest => slashed rest
    | none => file

def SarifRegion.ofRange (range : Range) : SarifRegion :=
  ⟨range.start.line + 1, range.start.character + 1, range.stop.line + 1,
    range.stop.character + 1⟩

namespace SarifResult

def ofDiagnostic (base file : String) (d : Diagnostic) : SarifResult :=
  ⟨d.rule, d.severity.level, d.message, relativeUri base file, .ofRange d.range⟩

def textJson (text : String) : Json :=
  .object [("text", .text text)]

def toJson (result : SarifResult) : Json :=
  .object [("ruleId", .text result.rule.name), ("level", .text result.level),
    ("message", textJson result.message),
    ("locations", .list [.object [("physicalLocation", .object [
      ("artifactLocation", .object [("uri", .text result.uri)]),
      ("region", .object [("startLine", .ofNat result.region.startLine),
        ("startColumn", .ofNat result.region.startColumn),
        ("endLine", .ofNat result.region.endLine),
        ("endColumn", .ofNat result.region.endColumn)])])]])]

end SarifResult

namespace SarifReport

/-- The report of a check of a path. -/
def ofResult (base : String) (result : CheckResult) : SarifReport :=
  let occurring := result.files.flatMap fun report => report.diagnostics.map Diagnostic.rule
  { rules := Rule.all.filter occurring.contains
    results := result.files.flatMap fun report =>
      report.diagnostics.map (SarifResult.ofDiagnostic base report.path) }

def schema : String :=
  "https://raw.githubusercontent.com/oasis-tcs/sarif-spec/master/Schemata/sarif-schema-2.1.0.json"

def ruleJson (rule : Rule) : Json :=
  .object [("id", .text rule.name), ("shortDescription", SarifResult.textJson rule.description),
    ("defaultConfiguration", .object [("level", .text rule.defaultLevel)])]

def toJson (report : SarifReport) : Json :=
  .object [("version", .text "2.1.0"), ("$schema", .text schema),
    ("runs", .list [.object [
      ("tool", .object [("driver", .object [("name", .text sourceName),
        ("version", .text programVersion), ("rules", .list (report.rules.map ruleJson))])]),
      ("results", .list (report.results.map SarifResult.toJson))]])]

/-- The report as it is written. -/
def text (report : SarifReport) : String :=
  report.toJson.pretty ++ "\n"

end SarifReport

end RazenLint
