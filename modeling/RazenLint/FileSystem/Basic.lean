import RazenLint.FileSystem.Tree
import RazenLint.Path
import RazenLint.Text.Utf8

/-!
# File systems

A file system is a tree of files with a working directory. Paths are looked up
in it as an operating system does : links are followed, everything but the last
name has to exist, and each failure has its cause. Changes give a new file
system. Every directory can be searched and changed, and every file that can be read
can be written.
-/

namespace RazenLint

structure FileSystem where
  tree : FileTree
  /-- The working directory, where relative paths start. -/
  workingPlace : Place
  /-- The directory in which a user keeps configuration. -/
  configHome : String
deriving Repr

namespace FileSystem

/-! ## Looking paths up -/

/-- A step of a lookup. -/
inductive Step where
  | stay
  | up
  | name (text : String)
deriving DecidableEq, Repr

/-- The steps of a path. A segment that leads nowhere still asks for a directory
to be there. -/
def stepsOf (path : String) : List Step :=
  (Path.segments path).map fun segment =>
    if Path.isPassedOver segment then .stay
    else if segment = ".." then .up
    else .name segment

/-- The most bytes that a name can have. -/
def maxNameBytes : Nat := 255

/-- The most bytes that a path can have. -/
def maxPathBytes : Nat := 4095

/-- The most links that one lookup follows. -/
def maxLinks : Nat := 40

/-- What a lookup ends at : a place, and what is there. The last name of a path
may be missing. -/
abbrev Target := Place × Option FileTree

/-- Goes on from a place, following at most the given number of links. The last
name is followed if it is asked for. -/
def follow (tree : FileTree) (followLast : Bool) (links : Nat) (place : Place)
    (steps : List Step) : Except FileError Target :=
  match steps with
  | [] => .ok (place, tree.at? place)
  | step :: rest =>
    match tree.at? place with
    | some (.dir entries) =>
      match step with
      | .stay => follow tree followLast links place rest
      | .up => follow tree followLast links place.dropLast rest
      | .name text =>
        if maxNameBytes < text.utf8ByteSize then .error .nameTooLong
        else
          match entries.lookup text with
          | none => if rest.isEmpty then .ok (place ++ [text], none) else .error .notFound
          | some (.link target) =>
            if rest.isEmpty && !followLast then .ok (place ++ [text], some (.link target))
            else
              match links with
              | 0 => .error .tooManyLinks
              | links + 1 =>
                follow tree followLast links (if Path.isAbsolute target then [] else place)
                  (stepsOf target ++ rest)
          | some _ => follow tree followLast links (place ++ [text]) rest
    | _ => .error .notADirectory
termination_by (links, steps.length)

variable (files : FileSystem)

/-- Looks a path up. -/
def lookup (path : String) (followLast : Bool) : Except FileError Target :=
  if path.toList.contains '\x00' then .error .nulInName
  else if path = "" then .error .notFound
  else if maxPathBytes < path.utf8ByteSize then .error .nameTooLong
  else
    follow files.tree followLast maxLinks (if Path.isAbsolute path then [] else files.workingPlace)
      (stepsOf path)

/-- What a path leads to, with its place. -/
def find (path : String) : Except FileError (Place × FileTree) :=
  match files.lookup path true with
  | .ok (place, some tree) => .ok (place, tree)
  | .ok (_, none) => .error .notFound
  | .error e => .error e

def pathExists (path : String) : Bool :=
  (files.find path).isOk

def isFile (path : String) : Bool :=
  match files.find path with
  | .ok (_, tree) => tree.isFile
  | .error _ => false

def isDir (path : String) : Bool :=
  match files.find path with
  | .ok (_, tree) => tree.isDir
  | .error _ => false

/-- The absolute path of a place. -/
def placePath (place : Place) : String :=
  "/" ++ Path.ofSegments place

/-- The absolute path of the working directory. -/
def workingPath : String :=
  placePath files.workingPlace

/-- The absolute path without links that leads to the same as a path. -/
def canonical (path : String) : Except FileError String :=
  (files.find path).map fun (place, _) => placePath place

/-! ## Reading and writing -/

def readBytes (path : String) : Except FileError (List UInt8) :=
  match files.find path with
  | .ok (_, .file bytes) => .ok bytes
  | .ok (_, .closed _ reason) => .error reason
  | .ok (_, _) => .error .isADirectory
  | .error e => .error e

/-- The text of a file. -/
def readText (path : String) : Except FileError (List Char) :=
  match files.readBytes path with
  | .ok bytes =>
    match Text.decodeUtf8 bytes with
    | .ok text => .ok text
    | .error _ => .error .notUtf8
  | .error e => .error e

/-- The file system with something put at a place. -/
def put (place : Place) (new : FileTree) : FileSystem :=
  { files with tree := files.tree.put place new }

/-- A path without the slashes at its end. -/
def dropSlashes (path : String) : String :=
  String.ofList (path.toList.reverse.dropWhile (· = '/')).reverse

/-- Gives a file the given content, and makes it if it is missing. A path with a
slash at its end is taken for a directory. -/
def write (path : String) (bytes : List UInt8) : Except FileError FileSystem :=
  if path.toList.getLast? = some '/' then
    match files.lookup (dropSlashes path) false with
    | .ok _ => .error .isADirectory
    | .error e => .error e
  else
    match files.lookup path true with
    | .ok (_, some (.dir _)) => .error .isADirectory
    | .ok (_, some (.closed _ reason)) => .error reason
    | .ok (place, _) => .ok (files.put place (.file bytes))
    | .error e => .error e

/-- Makes a directory inside one that exists. -/
def makeDir (path : String) : Except FileError FileSystem :=
  match files.lookup path false with
  | .ok (_, some _) => .error .exists
  | .ok (place, none) => .ok (files.put place (.dir []))
  | .error e => .error e

end FileSystem

end RazenLint
