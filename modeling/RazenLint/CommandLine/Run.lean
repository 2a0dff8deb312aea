import RazenLint.CommandLine.Arguments
import RazenLint.Config.Load
import RazenLint.Fix
import RazenLint.Report.Sarif
import RazenLint.Report.Terminal
import RazenLint.Session.State

/-!
# Commands of the program

A command reads a file system and its input, and gives what is written, the exit
code, and the file system after it. A command that cannot go on fails with one
message.
-/

namespace RazenLint

structure CommandOutcome where
  exitCode : Nat
  output : String
  errorOutput : String
  /-- The message of a command that failed. -/
  failure : Option String
  files : FileSystem
deriving Repr

/-- The exit code when all is well. -/
def exitSuccess : Nat := 0

/-- The exit code when a check does not pass. -/
def exitFailed : Nat := 1

/-- The exit code when a command could not do its work. -/
def exitError : Nat := 2

namespace CommandOutcome

/-- A command that wrote something to its output. -/
def wrote (files : FileSystem) (exitCode : Nat) (output : String) : CommandOutcome :=
  ⟨exitCode, output, "", none, files⟩

/-- A command that said what is wrong. -/
def refused (files : FileSystem) (lines : List String) : CommandOutcome :=
  ⟨exitError, "", String.join (lines.map (· ++ "\n")), none, files⟩

/-- A command that failed. -/
def failed (files : FileSystem) (reason : String) : CommandOutcome :=
  ⟨exitError, "", "", some ("Error: " ++ reason), files⟩

end CommandOutcome

/-! ## Checking -/

/-- What is said about a configuration that cannot be loaded. -/
def configErrorLines (e : ConfigError) : List String :=
  match e with
  | .unreadable .. | .malformed .. =>
    ["Error: " ++ e.message, "Run 'razencheck init' to create a config file"]
  | .noExtensions | .invalidPattern .. => ["Error: invalid config: " ++ e.message]

/-- The report of a check in a format. -/
def reportText (colors : Bool) (format : ReportFormat) (path root configSource : String)
    (result : CheckResult) (config : Config) : String :=
  match format with
  | .json => (DataReport.ofResult path result config).text
  | .sarif => (SarifReport.ofResult root result).text
  | .pretty => TerminalReport.text colors path configSource result config

/-- Checks the files below a path. -/
def runCheck (read : Yaml.DocumentReader) (files : FileSystem) (colors : Bool) (path : String)
    (explicit : Option String) (format : ReportFormat) : CommandOutcome :=
  let source := explicit <|> Config.discover? files
  match Config.load files source read with
  | .error e => .refused files (configErrorLines e)
  | .ok config =>
    match files.canonical path with
    | .error e =>
      .refused files
        ["Error: cannot access path " ++ Text.quotedName path ++ ": " ++ e.message]
    | .ok root =>
      match collectFiles files config root with
      | .error e => .failed files e.message
      | .ok [] => ⟨exitSuccess, "", "Warning: no files to scan\n", none, files⟩
      | .ok paths =>
        let result := checkFiles files paths
        .wrote files (if result.passed config then exitSuccess else exitFailed)
          (reportText colors format path root (source.getD "(defaults)") result config)

/-! ## Fixing and tokens -/

/-- Goes on with the text of a file. -/
def withSource (files : FileSystem) (path : String) (next : List Char → CommandOutcome) :
    CommandOutcome :=
  match files.readText path with
  | .ok text => next text
  | .error e => .failed files ("failed to read " ++ path ++ ": " ++ e.message)

/-- Makes all fixes in a file, and writes the file back or only shows its text. -/
def runFix (files : FileSystem) (path : String) (write : Bool) : CommandOutcome :=
  withSource files path fun text =>
    let (fixed, applied) := fixAll text
    let summary := "Applied " ++ toString applied ++ " fix(es) to " ++ path ++ "\n"
    if !write then .wrote files exitSuccess (String.ofList fixed)
    else if applied = 0 then ⟨exitSuccess, "", summary, none, files⟩
    else
      match files.write path (Text.encodeUtf8 fixed) with
      | .ok changed => ⟨exitSuccess, "", summary, none, changed⟩
      | .error e => .failed files ("failed to write " ++ path ++ ": " ++ e.message)

/-- Shows the tokens of a file. -/
def runTokens (files : FileSystem) (path : String) : CommandOutcome :=
  withSource files path fun text =>
    let tokens := (analyze path (String.ofList text)).tokens
    .wrote files exitSuccess ((Json.list (tokens.map Token.toJson)).pretty ++ "\n")

/-! ## Serving -/

/-- Answers the requests in an input. -/
def runServe (files : FileSystem) (input : List UInt8) : CommandOutcome :=
  let (_, responses) := Session.fresh.serve input
  .wrote files exitSuccess (outputOf responses)

/-! ## A new configuration -/

/-- Makes a directory and the missing ones around it, in at most the given steps. -/
def makeDirs (steps : Nat) (files : FileSystem) (path : String) :
    FileSystem × Option FileError :=
  match steps with
  | 0 => (files, none)
  | steps + 1 =>
    if path = "" then (files, none)
    else
      match files.makeDir path with
      | .ok changed => (changed, none)
      | .error .notFound =>
        match Path.parent? path with
        | none => (files, some .notFound)
        | some parent =>
          match makeDirs steps files parent with
          | (changed, some e) => (changed, some e)
          | (changed, none) =>
            match changed.makeDir path with
            | .ok complete => (complete, none)
            | .error e => (changed, if changed.isDir path then none else some e)
      | .error e => (files, if files.isDir path then none else some e)

/-- What is said about a new configuration. -/
def createdText (path : String) : String :=
  "Created " ++ path ++ "\n\nNext steps:\n  1. Edit " ++ path ++
    " to customize for your project\n  2. Run: razencheck check . --config " ++ path ++ "\n"

/-- Writes a new configuration, but never over something that exists. -/
def runInit (files : FileSystem) (path : String) : CommandOutcome :=
  if files.pathExists path then
    .refused files ["Error: file already exists: " ++ path,
      "Remove it or use --output to specify a different path"]
  else
    let parent := (Path.parent? path).getD ""
    let (files, problem) :=
      if parent = "." then (files, none)
      else makeDirs ((Path.segments parent).length + 1) files parent
    match problem with
    | some e => .refused files ["Error: failed to create directory: " ++ e.message]
    | none =>
      match files.write path (Text.encodeUtf8 Config.template.toList) with
      | .ok changed => .wrote changed exitSuccess (createdText path)
      | .error e => .refused files ["Error: failed to write config: " ++ e.message]

/-! ## All commands -/

/-- Does what the program is asked to do. -/
def Invocation.run (invocation : Invocation) (files : FileSystem) (colors : Bool)
    (input : List UInt8) (read : Yaml.DocumentReader := Yaml.ofText) : CommandOutcome :=
  match invocation with
  | .check path config format => runCheck read files colors path config format
  | .fix file write => runFix files file write
  | .tokens file => runTokens files file
  | .serve => runServe files input
  | .init output => runInit files output

/-- What the arguments of the program ask for. -/
def Invocation.ofArguments (arguments : List String) : Except UsageProblem Invocation :=
  CommandLine.ofArguments Config.mainFileName arguments

end RazenLint
