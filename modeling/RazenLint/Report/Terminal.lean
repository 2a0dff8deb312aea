import RazenLint.Report.Data

/-!
# Reports for a terminal

A report for people to read : every file that has diagnostics with a line for
each of them, the files that were skipped, and the verdict. Parts of it are
coloured where colours are on.
-/

namespace RazenLint

/-! ## Styles -/

inductive Color where
  | red
  | green
  | yellow
  | blue
  | cyan
deriving DecidableEq, Repr

def Color.code : Color → String
  | red => "31"
  | green => "32"
  | yellow => "33"
  | blue => "34"
  | cyan => "36"

/-- How a text is shown. -/
inductive Style where
  | colored (color : Color)
  | boldColored (color : Color)
  | dimmed
deriving DecidableEq, Repr

namespace Style

/-- What puts an end to every style. -/
def reset : String := "\x1b[0m"

/-- What begins a style. -/
def start : Style → String
  | colored color => "\x1b[" ++ color.code ++ "m"
  | boldColored color => "\x1b[1;" ++ color.code ++ "m"
  | dimmed => "\x1b[2m"

/-- A text in which a style begins again behind every end of styles. -/
def resume (style : Style) : List Char → List Char
  | '\x1b' :: '[' :: '0' :: 'm' :: rest =>
    '\x1b' :: '[' :: '0' :: 'm' :: (style.start.toList ++ resume style rest)
  | [] => []
  | c :: rest => c :: resume style rest

/-- A text in a style, where colours are on. -/
def paint (style : Style) (colors : Bool) (text : String) : String :=
  if colors then style.start ++ String.ofList (style.resume text.toList) ++ reset else text

end Style

/-! ## Parts of a report -/

/-- A text with blanks after it up to the given number of characters. -/
def padTo (width : Nat) (text : String) : String :=
  text ++ String.ofList (List.replicate (width - text.length) ' ')

/-- The number of columns in which a rule stands. -/
def ruleWidth : Nat := 22

namespace TerminalReport

def severityTag (colors : Bool) : Severity → String
  | .error => Style.paint (.colored .red) colors "ERROR"
  | .warning => Style.paint (.colored .yellow) colors "WARN "

def diagnosticLine (colors : Bool) (d : Diagnostic) : String :=
  let place := toString (d.range.start.line + 1) ++ ":" ++ toString (d.range.start.character + 1)
  "    " ++ severityTag colors d.severity ++ " " ++ Style.dimmed.paint colors place ++ " " ++
    Style.dimmed.paint colors (padTo ruleWidth d.rule.name) ++ d.message ++ "\n"

def fileBlock (colors : Bool) (report : FileReport) : String :=
  "  " ++ Style.paint (.boldColored .blue) colors report.path ++ "\n" ++
    String.join (report.diagnostics.map (diagnosticLine colors)) ++ "\n"

def skippedLine (colors : Bool) (file : SkippedFile) : String :=
  "  " ++ Style.paint (.colored .yellow) colors "SKIP " ++ " " ++
    Style.paint (.colored .blue) colors file.path ++ " " ++
    Style.dimmed.paint colors ("(" ++ file.reason ++ ")") ++ "\n"

/-- A count in the colour that it has when it is not zero. -/
def countText (colors : Bool) (color : Color) (count : Nat) (one none : String) : String :=
  if 0 < count then Style.paint (.colored color) colors (toString count ++ " " ++ one)
  else Style.paint (.colored .green) colors none

def verdictLine (colors : Bool) (result : CheckResult) (config : Config) : String :=
  let verdict :=
    if result.passed config then Style.paint (.colored .green) colors "✓ PASS"
    else Style.paint (.colored .red) colors "✗ FAIL"
  let note :=
    if config.failOnWarnings then "  " ++ Style.dimmed.paint colors "(fail_on_warnings)" else ""
  "  " ++ verdict ++ "  " ++ toString result.scanned ++ " file(s)  " ++
    countText colors .red result.errorCount "error(s)" "0 errors" ++ "  " ++
    countText colors .yellow result.warningCount "warning(s)" "0 warnings" ++ note ++ "\n"

/-- The report of a check of a path, under a configuration with the given source. -/
def text (colors : Bool) (path configSource : String) (result : CheckResult)
    (config : Config) : String :=
  let title := Style.paint (.boldColored .cyan) colors sourceName ++ " v" ++ programVersion
  "\n  " ++ title ++ "\n\n" ++
    "  " ++ Style.dimmed.paint colors "Scanning: " ++ path ++ "\n" ++
    "  " ++ Style.dimmed.paint colors "Config:   " ++ configSource ++ "\n\n" ++
    String.join (result.withFindings.map (fileBlock colors)) ++
    String.join (result.skipped.map (skippedLine colors)) ++
    (if result.skipped.isEmpty then "" else "\n") ++
    verdictLine colors result config ++ "\n"

end TerminalReport

end RazenLint
