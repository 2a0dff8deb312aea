import RazenLint.Config.Basic

/-!
# Collecting files

The files to check lie below a directory, which is searched without its hidden
directories and without what the configuration leaves out. Below a directory
that is left out nothing is searched. Links are followed, and one that leads back
to a directory around it is an error. The search stops : the directories around
a place are distinct, so links lead into at most as many as there are.
-/

namespace RazenLint

/-- Why files cannot be collected. -/
inductive CollectError where
  | inaccessible (root : String) (reason : FileError)
  | invalidConfig (reason : ConfigError)
  | brokenLink (path : String) (reason : FileError)
  | linkLoop (path ancestor : String)
deriving DecidableEq, Repr

/-- The message of an error in a configuration, with its cause after it. -/
def ConfigError.chain (e : ConfigError) : String :=
  match e with
  | .unreadable _ reason => e.message ++ ": " ++ reason.message
  | .malformed _ reason => e.message ++ ": " ++ reason.message
  | .noExtensions => e.message
  | .invalidPattern reason => e.message ++ ": " ++ reason.message

def CollectError.message : CollectError → String
  | inaccessible root reason => "cannot access " ++ root ++ ": " ++ reason.message
  | invalidConfig reason => reason.chain
  | brokenLink path reason =>
    "IO error for operation on " ++ path ++ ": " ++ reason.message ++ ": " ++ reason.message
  | linkLoop path ancestor =>
    "File system loop found: " ++ path ++ " points to an ancestor " ++ ancestor

/-! ## Searching a directory -/

/-- A search below a directory. -/
structure Search where
  files : FileSystem
  config : Config
  globs : List Glob
  /-- The path of the directory. -/
  root : String

/-- A directory that is being searched : the names that lead to it from the root
of the search, and where it is. -/
structure Visit where
  names : List String
  place : Place
deriving DecidableEq, Repr

namespace Search

variable (search : Search)

/-- The path of something below the root. -/
def pathOf (names : List String) : String :=
  Path.joinAll search.root names

/-- Whether the configuration leaves out what some names lead to. -/
def leavesOut (names : List String) : Bool :=
  isExcluded search.globs (Path.ofSegments names)

/-- Whether names lead to something hidden. -/
def isHidden (names : List String) : Bool :=
  names.getLast?.any fun name => name.toList.head? = some '.'

/-- Whether a file is one to check. -/
def takes (names : List String) : Bool :=
  !search.leavesOut names && search.config.isSourceFile (search.pathOf names)

/-- Whether a directory is searched. -/
def enters (names : List String) : Bool :=
  !isHidden names && !search.leavesOut names

mutual

/-- The files in a tree to which some names lead, after at most the given number
of links into directories. `around` are the directories around it, the innermost
first. -/
def below (search : Search) (links : Nat) (around : List Visit) (names : List String)
    (place : Place) (tree : FileTree) : Except CollectError (List (List String)) :=
  match tree with
  | .file _ => .ok (if search.takes names then [names] else [])
  | .closed isRegular _ => .ok (if isRegular && search.takes names then [names] else [])
  | .dir entries =>
    if search.enters names then
      inEntries search links (⟨names, place⟩ :: around) names place entries
    else .ok []
  | .link _ =>
    match search.files.find (search.pathOf names) with
    | .error reason => .error (.brokenLink (search.pathOf names) reason)
    | .ok (target, .dir entries) =>
      match around.find? (·.place = target) with
      | some visit => .error (.linkLoop (search.pathOf names) (search.pathOf visit.names))
      | none =>
        if search.enters names then
          match links with
          | 0 => .ok []
          | links + 1 => inEntries search links (⟨names, target⟩ :: around) names target entries
        else .ok []
    | .ok (_, target) => .ok (if target.isFile && search.takes names then [names] else [])
termination_by (links, sizeOf tree)

/-- The files in the entries of a directory. -/
def inEntries (search : Search) (links : Nat) (around : List Visit) (names : List String)
    (place : Place) (entries : List (String × FileTree)) :
    Except CollectError (List (List String)) :=
  match entries with
  | [] => .ok []
  | (name, tree) :: rest =>
    match below search links around (names ++ [name]) (place ++ [name]) tree with
    | .error e => .error e
    | .ok found =>
      match inEntries search links around names place rest with
      | .error e => .error e
      | .ok others => .ok (found ++ others)
termination_by (links, sizeOf entries)

end

end Search

/-! ## The files to check -/

/-- Whether names come before others, or are the same. -/
def namesLE (first second : List String) : Bool :=
  decide ¬(second < first)

/-- The paths of the files to check below a root, in the order of their names. A
root that is a file is the one file to check. There is none below anything else. -/
def collectFiles (files : FileSystem) (config : Config) (root : String) :
    Except CollectError (List String) :=
  match files.find root with
  | .error reason => .error (.inaccessible root reason)
  | .ok (place, .dir entries) =>
    match config.excludedGlobs with
    | .error reason => .error (.invalidConfig reason)
    | .ok globs =>
      let search : Search := ⟨files, config, globs, root⟩
      match search.inEntries files.tree.dirCount [⟨[], place⟩] [] place entries with
      | .error e => .error e
      | .ok found => .ok ((found.mergeSort namesLE).map search.pathOf)
  | .ok (_, target) =>
    if target.isFile then .ok [root]
    else
      match config.excludedGlobs with
      | .error reason => .error (.invalidConfig reason)
      | .ok _ => .ok []

end RazenLint
