import RazenLint.Table
import RazenLint.Text.Utf8
import RazenLint.Yaml.Scan

/-!
# Reading YAML

The values of a document are read from its tokens. A reader consumes tokens
from the front and makes at most the given number of steps, which the number of
tokens bounds. It keeps the anchors that it met.
-/

namespace RazenLint.Yaml

/-- What a reader has before it, and what it knows. -/
structure Reading where
  tokens : List Token
  /-- What the handles of tags stand for. -/
  handles : List (String × Tag)
  /-- The numbers of the names of anchors. -/
  numbers : Table Nat
  /-- The values at anchors, as `Document.anchored` has them. -/
  anchored : List (Nat × Yaml)

/-- A step through the tokens of a document that can fail. -/
abbrev Reader := StateT Reading (Except Problem)

namespace Reader

/-- The next token, which is not consumed. -/
def peek : Reader (Option Token) := do
  return (← get).tokens.head?

/-- Passes over the next token. -/
def drop : Reader Unit :=
  modify fun s => { s with tokens := s.tokens.drop 1 }

/-- Whether one of the given tokens comes next. -/
def comesNext (wanted : List Token) : Reader Bool := do
  return (← peek).any wanted.contains

/-! ## Anchors and tags -/

/-- The number of the anchor that a reference means. -/
def numberOf (name : String) : Reader Nat := do
  match (← get).numbers.get? name with
  | some number => return number
  | none => throw .unknownAnchor

/-- Notes that a value with an anchor begins, and gives its index among those. An anchor has
the number of names before it, so one with an old name can share its number with a later one. -/
def beginAnchored (name : String) : Reader Nat := do
  let s ← get
  let number := s.numbers.length
  set { s with
    numbers := Table.insert name number s.numbers, anchored := s.anchored ++ [(number, empty)] }
  return s.anchored.length

/-- Notes the value with an anchor that began at an index. -/
def endAnchored (index : Nat) (found : Yaml) : Reader Unit :=
  modify fun s => { s with
    anchored := s.anchored.modify index fun (number, _) => (number, found) }

/-- The tag that a handle and the text behind it stand for. -/
def resolve (handle : String) (suffix : Tag) : Reader Tag := do
  if handle = "" then return suffix
  match (← get).handles.lookup handle with
  | some meaning => return meaning ++ suffix
  | none => throw .undefinedHandle

/-- Reads an anchor, if one comes next. -/
def anchor? : Reader (Option String) := do
  match ← peek with
  | some (.anchor name) =>
    drop
    return some name
  | _ => return none

/-- Reads a tag, if one comes next. -/
def tag? : Reader (Option Tag) := do
  match ← peek with
  | some (.tag handle suffix) =>
    drop
    return some (← resolve handle suffix)
  | _ => return none

/-- Reads an anchor and a tag, in either order. -/
def properties : Reader (Option String × Option Tag) := do
  let before ← anchor?
  let tag ← tag?
  let behind ← if before.isSome || tag.isNone then pure none else anchor?
  return (before <|> behind, tag)

/-! ## Values -/

mutual

/-- Reads a value with its anchor and tag, or a reference in its place. -/
def value : Nat → Bool → Bool → Reader Yaml
  | 0, _, _ => throw .expectedValue
  | steps + 1, block, sameColumn => do
    match ← peek with
    | some (.reference name) =>
      drop
      return .reference (← numberOf name)
    | _ =>
      match ← properties with
      | (some name, tag) =>
        let index ← beginAnchored name
        let found ← content steps block sameColumn true tag
        endAnchored index found
        return found
      | (none, tag) => content steps block sameColumn tag.isSome tag

/-- Reads what stands behind an anchor and a tag. Values shown by indentation, and items at
the column of the mapping around them, can stand only in some places. Nothing can stand there
if the value may be left out. -/
def content : Nat → Bool → Bool → Bool → Option Tag → Reader Yaml
  | 0, _, _, _, _ => throw .expectedValue
  | steps + 1, block, sameColumn, mayBeEmpty, tag => do
    match ← peek, sameColumn, block with
    | some (.scalar style text), _, _ =>
      drop
      return .scalar style tag text
    | some .bracketOpen, _, _ =>
      drop
      brackets steps []
    | some .braceOpen, _, _ =>
      drop
      braces steps []
    | some .item, true, _ => sameColumnItems steps []
    | some .blockSequence, _, true =>
      drop
      items steps []
    | some .blockMapping, _, true =>
      drop
      pairs steps []
    | _, _, _ => if mayBeEmpty then return .scalar .plain tag "" else throw .expectedValue

/-- Reads a value of a mapping, or the empty one before the given tokens. -/
def optional : Nat → Bool → List Token → Reader Yaml
  | 0, _, _ => throw .expectedValue
  | steps + 1, block, ends => do
    if ← comesNext ends then return empty else value steps block block

/-- Reads a value of a mapping behind its colon, if a colon comes next. -/
def behindColon : Nat → Bool → List Token → Reader Yaml
  | 0, _, _ => throw .expectedValue
  | steps + 1, block, ends => do
    if ← comesNext [.value] then
      drop
      optional steps block ends
    else return empty

/-- Reads the items of a sequence up to its end. -/
def items : Nat → List Yaml → Reader Yaml
  | 0, _ => throw .expectedEntry
  | steps + 1, reversed => do
    match ← peek with
    | some .blockEnd =>
      drop
      return .sequence reversed.reverse
    | some .item =>
      drop
      let found ←
        if ← comesNext [.item, .blockEnd] then pure empty else value steps true false
      items steps (found :: reversed)
    | _ => throw .expectedEntry

/-- Reads the items of a sequence at the column of the mapping around it. -/
def sameColumnItems : Nat → List Yaml → Reader Yaml
  | 0, _ => throw .expectedEntry
  | steps + 1, reversed => do
    if ← comesNext [.item] then
      drop
      let found ←
        if ← comesNext [.item, .key, .value, .blockEnd] then pure empty
        else value steps true false
      sameColumnItems steps (found :: reversed)
    else return .sequence reversed.reverse

/-- Reads the pairs of a mapping up to its end. -/
def pairs : Nat → List (Yaml × Yaml) → Reader Yaml
  | 0, _ => throw .expectedKey
  | steps + 1, reversed => do
    let ends := [Token.key, Token.value, Token.blockEnd]
    match ← peek with
    | some .blockEnd =>
      drop
      return .mapping reversed.reverse
    | some .key =>
      drop
      let found ← optional steps true ends
      let under ← behindColon steps true ends
      pairs steps ((found, under) :: reversed)
    | _ => throw .expectedKey

/-- Reads the items between brackets. A pair among them is a mapping of its own. -/
def brackets : Nat → List Yaml → Reader Yaml
  | 0, _ => throw .expectedCommaOrBracket
  | steps + 1, reversed => do
    let ends := [Token.comma, Token.bracketClose]
    if !reversed.isEmpty then
      if ← comesNext [.comma] then drop
      else if !(← comesNext [.bracketClose]) then throw .expectedCommaOrBracket
    match ← peek with
    | some .bracketClose =>
      drop
      return .sequence reversed.reverse
    | some .key =>
      drop
      let found ← optional steps false (.value :: ends)
      let under ← behindColon steps false ends
      brackets steps (.mapping [(found, under)] :: reversed)
    | _ =>
      let found ← value steps false false
      brackets steps (found :: reversed)

/-- Reads the pairs between braces. A key may stand without a value. -/
def braces : Nat → List (Yaml × Yaml) → Reader Yaml
  | 0, _ => throw .expectedCommaOrBrace
  | steps + 1, reversed => do
    let ends := [Token.comma, Token.braceClose]
    if !reversed.isEmpty then
      if ← comesNext [.comma] then drop
      else if !(← comesNext [.braceClose]) then throw .expectedCommaOrBrace
    match ← peek with
    | some .braceClose =>
      drop
      return .mapping reversed.reverse
    | some .key =>
      drop
      let found ← optional steps false (.value :: ends)
      let under ← behindColon steps false ends
      braces steps ((found, under) :: reversed)
    | _ =>
      let found ← value steps false false
      braces steps ((found, empty) :: reversed)

end

/-- Reads a value in as many steps as the tokens can take. -/
def root : Reader Yaml := do
  value (8 * (← get).tokens.length + 8) true false

/-! ## Documents -/

/-- The handles that every document has. -/
def standardHandles : List (String × Tag) :=
  [("!", Text.encodeUtf8 "!".toList), ("!!", Text.encodeUtf8 "tag:yaml.org,2002:".toList)]

/-- The versions that can be read. -/
def supportedVersions : List (Nat × Nat) := [(1, 1), (1, 2)]

/-- Reads the directives of a document, and tells whether there are any. A version and a
handle can be given once. -/
def directives : Reader Bool := do
  let s ← get
  let found := s.tokens.takeWhile fun
    | .version .. | .handle .. => true
    | _ => false
  let versions : List (Nat × Nat) := found.filterMap fun
    | .version major minor => some (major, minor)
    | _ => none
  let handles : List (String × Tag) := found.filterMap fun
    | .handle name meaning => some (name, meaning)
    | _ => none
  if !versions.all supportedVersions.contains then throw .unsupportedVersion
  if 1 < versions.length ∨ ¬(handles.map Prod.fst).Nodup then throw .repeatedDirective
  set { s with tokens := s.tokens.drop found.length, handles := handles ++ standardHandles }
  return !found.isEmpty

/-- Reads the one document there may be. -/
def document : Reader (Option Yaml) := do
  if (← peek).isNone then return none
  let directed ← directives
  let found ←
    if ← comesNext [.documentStart] then
      drop
      if (← peek).isNone || (← comesNext [.documentStart, .documentEnd]) then pure empty else root
    else if directed then throw .expectedDocumentStart
    else root
  modify fun s => { s with tokens := s.tokens.dropWhile (· = .documentEnd) }
  match ← peek with
  | none => return some found
  | some .documentStart => throw .moreThanOneDocument
  | some _ => throw .expectedDocumentStart

end Reader

/-- The one document of a text. -/
def ofText : DocumentReader := fun text => do
  let (root, s) ← Reader.document.run ⟨← tokens text, [], [], []⟩
  return ⟨root, s.anchored⟩

end RazenLint.Yaml
