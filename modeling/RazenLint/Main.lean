import RazenLint.CommandLine.Run

/-!
# The program

The outer layer : it takes a picture of the part of the disk that a command
looks at, runs the command on the picture, and puts what the command wrote and
changed where it belongs. A session is served as its lines come in.
-/

namespace RazenLint.Program

/-! ## Pictures of the disk -/

def placeOf (path : String) : Place :=
  (Path.segments path).filter fun segment => !Path.isPassedOver segment

/-- What a link leads to when it leads nowhere. -/
def missingTarget : String := "/missing link target"

/-- A part of the disk, with the directories that it holds completely. -/
structure Picture where
  tree : FileTree
  complete : List String

namespace Picture

def put (picture : Picture) (path : String) (tree : FileTree) : Picture :=
  { picture with tree := picture.tree.put (placeOf path) tree }

/-- The picture with a directory at a path. -/
def withDir (picture : Picture) (path : String) : Picture :=
  match picture.tree.at? (placeOf path) with
  | some (.dir _) => picture
  | _ => picture.put path (.dir [])

/-- Why something cannot be opened. -/
def fileErrorOf : IO.Error → FileError
  | .permissionDenied .. => .permissionDenied
  | _ => .noSuchDevice

/-- The picture with a file at a path, or with what refuses to be read. -/
def withFile (picture : Picture) (path : String) (isRegular : Bool) : IO Picture := do
  try return picture.put path (.file (← IO.FS.readBinFile path).toList)
  catch e => return picture.put path (.closed isRegular (fileErrorOf e))

/-- Where the links of a path lead, if they lead to something. -/
def target? (path : String) : IO (Option String) := do
  try return some (← IO.FS.realPath path).toString
  catch _ => return none

/-- Adds what is at an absolute path without links, and everything below it. -/
partial def addBelow (picture : Picture) (path : String) : IO Picture := do
  let real ← IO.FS.realPath path
  match (← real.metadata).type with
  | .dir =>
    if picture.complete.contains path then return picture
    let mut picture := { picture.withDir path with complete := path :: picture.complete }
    for entry in ← real.readDir do
      let child := Path.join path entry.fileName
      match (← entry.path.symlinkMetadata).type with
      | .symlink =>
        let target ← target? child
        picture := picture.put child (.link (target.getD missingTarget))
        if let some target := target then picture ← addBelow picture target
      | _ => picture ← addBelow picture child
    return picture
  | .file => picture.withFile path true
  | _ => return picture.put path (.closed false .noSuchDevice)

/-- Adds what is on the way to a path, going on from a directory without links.
At its end stands what it leads to, if it leads to something. -/
partial def addWay (picture : Picture) (directory : String) :
    List String → IO (Picture × Option String)
  | [] => return (picture.withDir directory, some directory)
  | segment :: rest => do
    if Path.isPassedOver segment then return ← addWay picture directory rest
    if segment = ".." then
      return ← addWay picture ((Path.parent? directory).getD "/") rest
    let child := Path.join directory segment
    match ← target? child with
    | none => return (picture.withDir directory, none)
    | some target =>
      let picture := if target = child then picture else picture.put child (.link target)
      if ← (← IO.FS.realPath target).isDir then addWay (picture.withDir target) target rest
      else
        let isRegular := (← (← IO.FS.realPath target).metadata).type == .file
        return (← picture.withFile target isRegular, some target)

/-- Adds a path as the user gives it, with everything below it if that is asked for. -/
def addPath (picture : Picture) (workingPath path : String) (deep : Bool) : IO Picture := do
  let start := if Path.isAbsolute path then "/" else workingPath
  let (picture, target) ← picture.addWay start (Path.segments path)
  match deep, target with
  | true, some target => picture.addBelow target
  | _, _ => return picture

end Picture

/-- The directory in which users keep configuration. -/
def configHome : IO String := do
  match ← IO.getEnv "XDG_CONFIG_HOME" with
  | some directory => if Path.isAbsolute directory then return directory
  | none => pure ()
  return Path.join ((← IO.getEnv "HOME").getD "/") ".config"

/-- The paths that a command looks at, and whether it looks below them. -/
def pathsOf : Invocation → List (String × Bool)
  | .check path config _ => (path, true) :: config.toList.map fun file => (file, false)
  | .fix file _ | .tokens file => [(file, false)]
  | .serve => []
  | .init output => [(output, false)]

/-- The part of the disk that a command looks at. -/
def picture (invocation : Invocation) : IO FileSystem := do
  let workingPath := (← IO.FS.realPath ".").toString
  let empty : Picture := ⟨.dir [], []⟩
  let files : FileSystem := ⟨empty.tree, placeOf workingPath, ← configHome⟩
  let mut found := empty.withDir workingPath
  for path in Config.candidates files do
    found ← found.addPath workingPath path false
  for (path, deep) in pathsOf invocation do
    found ← found.addPath workingPath path deep
  return { files with tree := found.tree }

/-- Writes the files that a command changed. -/
def writeChanges (before after : FileSystem) : IO Unit := do
  let old := before.tree.files
  for (place, bytes) in after.tree.files do
    if !old.contains (place, bytes) then
      IO.FS.createDirAll (FileSystem.placePath place.dropLast)
      IO.FS.writeBinFile (FileSystem.placePath place) (ByteArray.mk bytes.toArray)

/-! ## Serving -/

/-- Reads a line of bytes with its newline, behind the bytes read before it. -/
partial def readLine (input : IO.FS.Stream) (before : List UInt8) : IO (List UInt8) := do
  match (← input.read 1).toList with
  | [] => return before.reverse
  | b :: _ => if b = 0x0A then return (b :: before).reverse else readLine input (b :: before)

/-- Answers the lines of an input as they come in. -/
partial def serve (input output : IO.FS.Stream) (session : Session) : IO Unit := do
  let line ← readLine input []
  if line.isEmpty then return
  let (session, response) := session.handleBytes line
  if let some response := response then
    output.putStrLn response.line
    output.flush
  if !session.isShutDown then serve input output session

/-! ## Running a command -/

def usageText : String :=
  "Usage: razencheck <COMMAND>\n\nCommands:\n" ++
    "  check <PATH> [--config <FILE>] [--format pretty|json|sarif]\n" ++
    "  fix <FILE> [--write]\n" ++
    "  tokens <FILE>\n" ++
    "  serve\n" ++
    "  init [--output <FILE>]\n"

/-- What is said about arguments that ask for nothing to be done. -/
def usageProblemText : UsageProblem → String
  | .helpWanted | .noCommand => usageText
  | .versionWanted => sourceName ++ " " ++ programVersion ++ "\n"
  | .unknownCommand => "error: unrecognized subcommand\n\n" ++ usageText
  | .unknownArgument => "error: unexpected argument\n\n" ++ usageText
  | .invalidValue => "error: invalid value for an argument\n\n" ++ usageText
  | .missingArgument => "error: a required argument was not provided\n\n" ++ usageText
  | .repeatedArgument => "error: an argument cannot be used multiple times\n\n" ++ usageText
  | .unneededValue => "error: unexpected value for an argument\n\n" ++ usageText

/-- Runs a command, and gives its exit code. -/
def runInvocation (invocation : Invocation) : IO Nat := do
  let stdout ← IO.getStdout
  let stderr ← IO.getStderr
  match invocation with
  | .serve =>
    serve (← IO.getStdin) stdout .fresh
    return exitSuccess
  | invocation =>
    let files ← picture invocation
    let outcome := invocation.run files (← stdout.isTty) []
    writeChanges files outcome.files
    stdout.putStr outcome.output
    stderr.putStr outcome.errorOutput
    if let some message := outcome.failure then stderr.putStrLn message
    return outcome.exitCode

end RazenLint.Program

open RazenLint in
/-- Does what the arguments ask for. -/
def main (arguments : List String) : IO UInt32 := do
  match Invocation.ofArguments arguments with
  | .ok invocation => return UInt32.ofNat (← Program.runInvocation invocation)
  | .error problem =>
    let text := Program.usageProblemText problem
    if problem.exitCode = 0 then (← IO.getStdout).putStr text else (← IO.getStderr).putStr text
    return UInt32.ofNat problem.exitCode
