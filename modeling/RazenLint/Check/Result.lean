import RazenLint.Analysis
import RazenLint.Check.Collect

/-!
# Results of a check

Every file is analyzed on its own, and a file that cannot be read as a text is
skipped. The result lists both in the order of their paths, so it does not
depend on the order in which the files are given.
-/

namespace RazenLint

/-- The diagnostics of one file. -/
structure FileReport where
  path : String
  diagnostics : List Diagnostic
deriving DecidableEq, Repr

/-- A file that could not be analyzed. -/
structure SkippedFile where
  path : String
  reason : String
deriving DecidableEq, Repr

structure CheckResult where
  files : List FileReport
  skipped : List SkippedFile
  /-- Number of files that were analyzed. -/
  scanned : Nat
deriving DecidableEq, Repr

namespace FileReport

def errorCount (report : FileReport) : Nat :=
  RazenLint.errorCount report.diagnostics

def warningCount (report : FileReport) : Nat :=
  RazenLint.warningCount report.diagnostics

end FileReport

namespace CheckResult

/-- The diagnostics of all files. -/
def diagnostics (result : CheckResult) : List Diagnostic :=
  result.files.flatMap FileReport.diagnostics

def errorCount (result : CheckResult) : Nat :=
  RazenLint.errorCount result.diagnostics

def warningCount (result : CheckResult) : Nat :=
  RazenLint.warningCount result.diagnostics

/-- Whether a check passes under a configuration. -/
def passed (result : CheckResult) (config : Config) : Bool :=
  result.errorCount = 0 && !(config.failOnWarnings && 0 < result.warningCount)

/-- The reports that hold a diagnostic. -/
def withFindings (result : CheckResult) : List FileReport :=
  result.files.filter fun report => !report.diagnostics.isEmpty

end CheckResult

/-! ## Checking files -/

/-- The report of a file, or why there is none. -/
def checkFile (files : FileSystem) (path : String) : Except SkippedFile FileReport :=
  match files.readText path with
  | .ok text => .ok ⟨path, (analyze path (String.ofList text)).diagnostics⟩
  | .error reason => .error ⟨path, reason.message⟩

/-- Whether a path comes before another one, or is the same. -/
def pathLE (first second : String) : Bool :=
  decide ¬(second < first)

/-- The result of checking files. -/
def checkFiles (files : FileSystem) (paths : List String) : CheckResult :=
  let outcomes := paths.map (checkFile files)
  let reports := outcomes.filterMap fun
    | .ok report => some report
    | .error _ => none
  let skipped := outcomes.filterMap fun
    | .ok _ => none
    | .error file => some file
  { files := reports.mergeSort fun a b => pathLE a.path b.path
    skipped := skipped.mergeSort fun a b => pathLE a.path b.path
    scanned := reports.length }

end RazenLint
