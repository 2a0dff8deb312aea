/-!
# Paths

A path is a text that a user or a directory gives. Slashes divide it into
segments, and its components are the segments that lead somewhere : empty
segments and single dots are passed over, except for a dot at the start.
-/

namespace RazenLint.Path

inductive Component where
  | root
  /-- The dot at the start of a path. -/
  | here
  | up
  | name (text : String)
deriving DecidableEq, Repr

/-! ## Segments -/

/-- The pieces of a text between its slashes. There is always one. -/
def segmentsOf : List Char → List (List Char)
  | [] => [[]]
  | c :: cs =>
    if c = '/' then [] :: segmentsOf cs
    else
      match segmentsOf cs with
      | [] => [[c]]
      | first :: rest => (c :: first) :: rest

/-- The segments of a path. -/
def segments (path : String) : List String :=
  (segmentsOf path.toList).map String.ofList

/-- The path with the given segments. -/
def ofSegments (segments : List String) : String :=
  "/".intercalate segments

/-- Whether a segment inside a path leads nowhere. -/
def isPassedOver (segment : String) : Bool :=
  segment = "" || segment = "."

/-- The component of a segment inside a path. -/
def component? (segment : String) : Option Component :=
  if isPassedOver segment then none
  else if segment = ".." then some .up
  else some (.name segment)

/-! ## Components -/

def isAbsolute (path : String) : Bool :=
  path.toList.head? = some '/'

/-- The component that a path starts with before its segments, and the segments
behind it. -/
def start (path : String) : Option Component × List String :=
  if isAbsolute path then (some .root, (segments path).drop 1)
  else
    match segments path with
    | "." :: rest => (some .here, rest)
    | body => (none, body)

def components (path : String) : List Component :=
  let (first, body) := start path
  first.toList ++ body.filterMap component?

/-- Whether two paths have the same components. -/
def same (first second : String) : Bool :=
  components first = components second

/-- The name at the end of a path, if a name is at its end. -/
def fileName? (path : String) : Option String :=
  match (components path).getLast? with
  | some (.name text) => some text
  | _ => none

/-- What stands behind the last dot of a name, unless only that dot is before it. -/
def extensionOf? (name : String) : Option String :=
  let reversed := name.toList.reverse
  let behind := reversed.takeWhile (· ≠ '.')
  match reversed.dropWhile (· ≠ '.') with
  | _ :: _ :: _ => some (String.ofList behind.reverse)
  | _ => none

/-- The extension of a path without its dot. -/
def extension? (path : String) : Option String :=
  (fileName? path).bind extensionOf?

/-! ## Building and cutting paths -/

/-- The path of a name inside a directory. An absolute path stays as it is. -/
def join (directory name : String) : String :=
  if isAbsolute name then name
  else if directory = "" ∨ directory.toList.getLast? = some '/' then directory ++ name
  else directory ++ "/" ++ name

/-- The path of something deeper inside a directory. -/
def joinAll (directory : String) (names : List String) : String :=
  names.foldl join directory

/-- Segments without those at both ends that lead nowhere. -/
def trimSegments (body : List String) : List String :=
  ((body.dropWhile isPassedOver).reverse.dropWhile isPassedOver).reverse

/-- The segments behind the given components, if they begin with them. -/
def dropComponents : List Component → List String → Option (List String)
  | [], body => some body
  | _ :: _, [] => none
  | wanted :: rest, segment :: body =>
    match component? segment with
    | none => dropComponents (wanted :: rest) body
    | some found => if found = wanted then dropComponents rest body else none

/-- The path behind a directory, if the path begins with the directory. -/
def relativeTo? (directory path : String) : Option String :=
  let (first, body) := start path
  let rest := match components directory, first with
    | wanted :: rest, some found => if wanted = found then dropComponents rest body else none
    | wanted, none => dropComponents wanted body
    | [], some _ => none
  rest.map fun left => ofSegments (trimSegments left)

/-- The path of the directory around a path. -/
def parent? (path : String) : Option String :=
  let (first, body) := start path
  let shown (left : List String) : String := match first with
    | some .root => "/" ++ ofSegments left
    | some _ => ofSegments ("." :: left)
    | none => ofSegments left
  let trimEnd (left : List String) : List String := (left.reverse.dropWhile isPassedOver).reverse
  match trimEnd body with
  | [] => if first = some .here then some "" else none
  | left => some (shown (trimEnd left.dropLast))

end RazenLint.Path
