import RazenLint.Config.Document
import RazenLint.Yaml.Read

/-!
# Loading a configuration

A configuration comes from the file that is asked for, from the first one that
is found in the working directory or in the directory of the user, or else it is
the standard one. How the document in a file is read is a parameter, `Yaml.ofText`
unless another way is given.
-/

namespace RazenLint.Config

/-- The names of configuration files in the order in which they are tried. -/
def fileNames : List String :=
  ["razencheck.yaml", ".razencheck.yaml"]

/-- The name of the file that a user's directory and a new project have. -/
def mainFileName : String := "razencheck.yaml"

/-- The configuration in the file at a path, if it is valid. -/
def ofFile (read : Yaml.DocumentReader) (files : FileSystem) (path : String) :
    Except ConfigError Config :=
  match files.readText path with
  | .error reason => .error (.unreadable path reason)
  | .ok text =>
    match read text >>= ofYaml with
    | .error reason => .error (.malformed path reason)
    | .ok config => config.validated

/-- The paths where a configuration file is looked for. -/
def candidates (files : FileSystem) : List String :=
  fileNames.map (Path.join files.workingPath ·) ++
    [Path.join (Path.join files.configHome sourceDirectory) mainFileName]
where
  /-- The directory of this program among those of the user. -/
  sourceDirectory : String := "razencheck"

/-- The path of the first configuration file. -/
def discover? (files : FileSystem) : Option String :=
  (candidates files).find? files.isFile

/-- The configuration in the file that is asked for, or in the first one found. -/
def load (files : FileSystem) (explicit : Option String)
    (read : Yaml.DocumentReader := Yaml.ofText) : Except ConfigError Config :=
  match explicit <|> discover? files with
  | some path => ofFile read files path
  | none => .ok standard

end RazenLint.Config
