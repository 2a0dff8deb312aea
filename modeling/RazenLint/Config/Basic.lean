import RazenLint.FileSystem.Basic
import RazenLint.Glob.Match
import RazenLint.Glob.Read
import RazenLint.Text.Ascii
import RazenLint.Text.Blank
import RazenLint.Text.Quoted
import RazenLint.Yaml.Basic

/-!
# Configuration

A configuration says which files are checked and when a check fails. It is valid
when it names an extension and all its patterns can be read and matched.
-/

namespace RazenLint

structure Config where
  version : String
  /-- The extensions of files to check, without their dots. -/
  extensions : List String
  /-- Patterns for paths that are left out. -/
  excludedPaths : List String
  /-- Whether warnings make a check fail. -/
  failOnWarnings : Bool
deriving DecidableEq, Repr

/-- Why there is no configuration to work with. -/
inductive ConfigError where
  | unreadable (path : String) (reason : FileError)
  | malformed (path : String) (reason : Yaml.Problem)
  | noExtensions
  | invalidPattern (reason : Glob.ReadError)
deriving DecidableEq, Repr

def ConfigError.message : ConfigError → String
  | unreadable path reason => "failed to read config " ++ path ++ ": " ++ reason.message
  | malformed path reason => "failed to parse config " ++ path ++ ": " ++ reason.message
  | noExtensions => "config must list at least one file extension"
  | invalidPattern reason =>
    "invalid excluded_paths pattern " ++ Text.quoted reason.pattern ++ ": " ++ reason.message

namespace Config

/-- What holds where nothing is configured. -/
def standard : Config where
  version := "1"
  extensions := ["rzn"]
  excludedPaths := []
  failOnWarnings := false

/-- The patterns for paths that are left out. All are read before their nesting counts. -/
def excludedGlobs (config : Config) : Except ConfigError (List Glob) :=
  match config.excludedPaths.mapM Glob.ofText with
  | .error reason => .error (.invalidPattern reason)
  | .ok globs =>
    if globs.all Glob.isShallow then .ok globs
    else .error (.invalidPattern ⟨", ".intercalate config.excludedPaths, .tooNested⟩)

/-- The configuration itself, if it is valid. -/
def validated (config : Config) : Except ConfigError Config :=
  if config.extensions.all fun extension => (Text.trim extension.toList).isEmpty then
    .error .noExtensions
  else
    match config.excludedGlobs with
    | .ok _ => .ok config
    | .error e => .error e

/-- A text without the dots at its start. -/
def dropDots (text : String) : String :=
  String.ofList (text.toList.dropWhile (· = '.'))

/-- Whether a path has one of the extensions, in any case. -/
def isSourceFile (config : Config) (path : String) : Bool :=
  match Path.extension? path with
  | some extension =>
    config.extensions.any fun wanted => Text.sameIgnoringCase (dropDots wanted) extension
  | none => false

end Config

/-- Whether one of the patterns matches a path. -/
def isExcluded (globs : List Glob) (path : String) : Bool :=
  globs.any (·.matches path)

end RazenLint
