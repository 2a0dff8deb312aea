import RazenLint.Table

/-!
# Trees of files

A tree is a file, a directory of named trees, a link, or something that cannot be
opened. Its places are the lists of names that lead from its root to something in
it. `at?` looks a place up without following links, and `put` changes one place.
-/

namespace RazenLint

/-- Why an operation on a path fails. -/
inductive FileError where
  | notFound
  | exists
  | notADirectory
  | isADirectory
  | noSuchDevice
  | permissionDenied
  | nameTooLong
  | tooManyLinks
  | nulInName
  | notUtf8
deriving DecidableEq, Repr

def FileError.message : FileError → String
  | notFound => "No such file or directory (os error 2)"
  | «exists» => "File exists (os error 17)"
  | notADirectory => "Not a directory (os error 20)"
  | isADirectory => "Is a directory (os error 21)"
  | noSuchDevice => "No such device or address (os error 6)"
  | permissionDenied => "Permission denied (os error 13)"
  | nameTooLong => "File name too long (os error 36)"
  | tooManyLinks => "Too many levels of symbolic links (os error 40)"
  | nulInName => "file name contained an unexpected NUL byte"
  | notUtf8 => "stream did not contain valid UTF-8"

inductive FileTree where
  | file (bytes : List UInt8)
  /-- The entries of a directory in the order of their names. -/
  | dir (entries : List (String × FileTree))
  /-- A link to a path. -/
  | link (target : String)
  /-- What refuses to be opened for a reason, a regular file or something that is none
  of these. -/
  | closed (isRegular : Bool) (reason : FileError)
deriving Repr, Inhabited

/-- The names on the way from the root. -/
abbrev Place := List String

namespace FileTree

def isDir : FileTree → Bool
  | dir _ => true
  | _ => false

/-- Whether a tree is a regular file. -/
def isFile : FileTree → Bool
  | file _ => true
  | closed isRegular _ => isRegular
  | _ => false

/-- What is under a name. -/
def entry? (tree : FileTree) (name : String) : Option FileTree :=
  match tree with
  | dir entries => entries.lookup name
  | _ => none

/-- What is at a place. -/
def at? (tree : FileTree) : Place → Option FileTree
  | [] => some tree
  | name :: rest =>
    match tree.entry? name with
    | some child => child.at? rest
    | none => none

/-- The tree with something put at a place, in directories that are made where
they are missing. Nothing is put below what is no directory. -/
def put (tree : FileTree) (place : Place) (new : FileTree) : FileTree :=
  match place, tree with
  | [], _ => new
  | name :: rest, dir entries =>
    match entries.lookup name with
    | some child => dir (Table.replace name (child.put rest new) entries)
    | none => dir (Table.insert name ((dir []).put rest new) entries)
  | _ :: _, tree => tree

mutual

/-- The files of a tree with the places where they are. -/
def files : FileTree → List (Place × List UInt8)
  | file bytes => [([], bytes)]
  | dir entries => entryFiles entries
  | link _ | closed .. => []

def entryFiles : List (String × FileTree) → List (Place × List UInt8)
  | [] => []
  | (name, tree) :: rest =>
    (tree.files.map fun (place, bytes) => (name :: place, bytes)) ++ entryFiles rest

end

mutual

/-- Number of directories in a tree. -/
def dirCount : FileTree → Nat
  | file _ => 0
  | dir entries => 1 + entryDirCount entries
  | link _ | closed .. => 0

def entryDirCount : List (String × FileTree) → Nat
  | [] => 0
  | (_, tree) :: rest => tree.dirCount + entryDirCount rest

end

end FileTree

end RazenLint
