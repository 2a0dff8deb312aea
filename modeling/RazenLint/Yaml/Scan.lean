import RazenLint.Yaml.Block
import RazenLint.Yaml.Property

/-!
# Scanning YAML

Scanning turns the text of a document into tokens. Whether a scalar or a bracket
begins a key is only known at the colon behind it, so the places where a key
may have begun are kept, one for each open bracket, and the tokens of the key
are put there later. A key has to end on its line.
-/

namespace RazenLint.Yaml

/-- A place where a key may have begun. -/
structure KeyStart where
  /-- Nothing but a key can stand there. -/
  required : Bool
  /-- Number of tokens before it. -/
  tokensBefore : Nat
  line : Nat
  column : Nat
  index : Nat
deriving DecidableEq, Repr

/-- The most characters between the start of a key and its colon. -/
def maxKeyLength : Nat := 1024

structure Scanner where
  cursor : Cursor
  /-- The tokens that were found, the last one first. -/
  tokens : List Token
  /-- The column of the innermost indented collection, or −1 outside of all. -/
  indent : Int
  /-- The columns around it. -/
  outer : List Int
  /-- The possible key outside brackets. -/
  blockKey : Option KeyStart
  /-- The possible keys in open brackets, the innermost first. -/
  bracketKeys : List (Option KeyStart)
  /-- Whether a key may begin here. -/
  keyAllowed : Bool

namespace Scanner

def ofText (text : List Char) : Scanner :=
  ⟨.ofText text, [], -1, [], none, [], true⟩

def inBrackets (s : Scanner) : Bool :=
  !s.bracketKeys.isEmpty

def column (s : Scanner) : Int :=
  s.cursor.column

/-- The possible key at the current level. -/
def keyStart (s : Scanner) : Option KeyStart :=
  match s.bracketKeys with
  | [] => s.blockKey
  | key :: _ => key

def setKeyStart (s : Scanner) (key : Option KeyStart) : Scanner :=
  match s.bracketKeys with
  | [] => { s with blockKey := key }
  | _ :: rest => { s with bracketKeys := key :: rest }

def push (s : Scanner) (token : Token) : Scanner :=
  { s with tokens := token :: s.tokens }

/-- Passes over characters. -/
def skip (s : Scanner) (count : Nat) : Scanner :=
  { s with cursor := s.cursor.skip count }

/-- Puts a token behind the given number of tokens. -/
def insert (s : Scanner) (before : Nat) (token : Token) : Scanner :=
  { s with tokens := s.tokens.insertIdx (s.tokens.length - before) token }

/-! ## Gaps between tokens -/

/-- Passes over blanks, breaks and a comment, in at most the given steps. A break
outside brackets allows a key. A tab is no blank where a key may begin. A byte
order mark at the start of a line is passed over, but it takes a column. -/
def skipGap (steps : Nat) (inComment : Bool) (s : Scanner) : Scanner :=
  match steps, s.cursor.rest with
  | 0, _ | _, [] => s
  | steps + 1, c :: _ =>
    if isBreak c then
      skipGap steps false { s with
        cursor := s.cursor.next, keyAllowed := s.keyAllowed || !s.inBrackets }
    else if inComment || c = ' ' || (c = '\t' && (s.inBrackets || !s.keyAllowed)) then
      skipGap steps inComment { s with cursor := s.cursor.next }
    else if c = '#' then skipGap steps true { s with cursor := s.cursor.next }
    else if c = byteOrderMark ∧ s.cursor.column = 0 then
      skipGap steps false { s with cursor := s.cursor.next }
    else s

/-! ## Indented collections -/

/-- Opens an indented collection at a column, if it is deeper than the current
one. Its token goes behind the given number of tokens. -/
def indentTo (s : Scanner) (column : Int) (before : Nat) (token : Token) : Scanner :=
  if s.inBrackets || column ≤ s.indent then s
  else { s.insert before token with indent := column, outer := s.indent :: s.outer }

/-- Closes the collections of the given list that are deeper than a column. -/
def closeDeeper (column indent : Int) (tokens : List Token) :
    List Int → List Token × Int × List Int
  | [] => (tokens, indent, [])
  | around :: outer =>
    if column < indent then closeDeeper column around (.blockEnd :: tokens) outer
    else (tokens, indent, around :: outer)

/-- Closes the indented collections that are deeper than a column. -/
def dedentTo (s : Scanner) (column : Int) : Scanner :=
  if s.inBrackets then s
  else
    let (tokens, indent, outer) := closeDeeper column s.indent s.tokens s.outer
    { s with tokens, indent, outer }

/-! ## Possible keys -/

/-- Whether a key that began there may still end here. -/
def isFresh (s : Scanner) (key : KeyStart) : Bool :=
  s.cursor.line ≤ key.line && s.cursor.index ≤ key.index + maxKeyLength

/-- A possible key, if it may still end here. -/
def keepFresh (s : Scanner) : Option KeyStart → Except Problem (Option KeyStart)
  | none => .ok none
  | some key =>
    if s.isFresh key then .ok (some key)
    else if key.required then .error .keyWithoutColon
    else .ok none

/-- Drops the possible keys that can no longer end. -/
def dropStale (s : Scanner) : Except Problem Scanner := do
  let blockKey ← s.keepFresh s.blockKey
  let bracketKeys ← s.bracketKeys.mapM s.keepFresh
  return { s with blockKey, bracketKeys }

/-- Drops the possible key of the current level. -/
def dropKey (s : Scanner) : Except Problem Scanner :=
  if s.keyStart.any (·.required) then .error .keyWithoutColon else .ok (s.setKeyStart none)

/-- Notes that a key may begin here. -/
def noteKey (s : Scanner) : Except Problem Scanner := do
  if s.keyAllowed then
    let s ← s.dropKey
    return s.setKeyStart (some {
      required := !s.inBrackets && s.indent = s.column
      tokensBefore := s.tokens.length
      line := s.cursor.line, column := s.cursor.column, index := s.cursor.index })
  else return s

/-! ## Tokens -/

/-- A mark for the start or the end of a document. -/
def marker (s : Scanner) (token : Token) : Except Problem Scanner := do
  let s ← (s.dedentTo (-1)).dropKey
  return { (s.push token).skip 3 with keyAllowed := false }

def openBracket (s : Scanner) (token : Token) : Except Problem Scanner := do
  let s ← s.noteKey
  return { (s.push token).skip 1 with bracketKeys := none :: s.bracketKeys, keyAllowed := true }

def closeBracket (s : Scanner) (token : Token) : Except Problem Scanner := do
  let s ← s.dropKey
  return { (s.push token).skip 1 with bracketKeys := s.bracketKeys.drop 1, keyAllowed := false }

def comma (s : Scanner) : Except Problem Scanner := do
  let s ← s.dropKey
  return { (s.push .comma).skip 1 with keyAllowed := true }

/-- The dash before an item. -/
def item (s : Scanner) : Except Problem Scanner := do
  if !s.inBrackets && !s.keyAllowed then throw .entryNotAllowed
  let s ← (s.indentTo s.column s.tokens.length .blockSequence).dropKey
  return { (s.push .item).skip 1 with keyAllowed := true }

/-- The question mark before a key. -/
def key (s : Scanner) : Except Problem Scanner := do
  if !s.inBrackets && !s.keyAllowed then throw .keyNotAllowed
  let s ← (s.indentTo s.column s.tokens.length .blockMapping).dropKey
  return { (s.push .key).skip 1 with keyAllowed := !s.inBrackets }

/-- The colon before a value. -/
def value (s : Scanner) : Except Problem Scanner := do
  match s.keyStart with
  | some start =>
    let s := s.insert start.tokensBefore .key
    let s := s.indentTo start.column start.tokensBefore .blockMapping
    return { ((s.setKeyStart none).push .value).skip 1 with keyAllowed := false }
  | none =>
    if !s.inBrackets && !s.keyAllowed then throw .colonNotAllowed
    let s := s.indentTo s.column s.tokens.length .blockMapping
    return { (s.push .value).skip 1 with keyAllowed := !s.inBrackets }

/-- A scalar that may be a key. -/
def scalar (s : Scanner) (style : Style) (read : Cursor → Except Problem ScalarEnd) :
    Except Problem Scanner := do
  let s ← s.noteKey
  let found ← read s.cursor
  return { s.push (.scalar style found.text) with
    cursor := found.cursor, keyAllowed := found.afterBreak }

/-- A scalar below an indicator, which is no key. -/
def block (s : Scanner) (style : Style) : Except Problem Scanner := do
  let s ← s.dropKey
  let found ← blockScalar (style = .folded) s.indent s.cursor
  return { s.push (.scalar style found.text) with
    cursor := found.cursor, keyAllowed := found.afterBreak }

/-- What stands before a value, or in its place. A key can begin with it. -/
def property (s : Scanner) (read : Cursor → Except Problem (Token × Cursor)) :
    Except Problem Scanner := do
  let s ← s.noteKey
  let (found, behind) ← read s.cursor
  return { s.push found with cursor := behind, keyAllowed := false }

def named (s : Scanner) (token : String → Token) : Except Problem Scanner :=
  s.property fun cursor => (anchorName cursor).map fun (name, behind) => (token name, behind)

/-- A line before a document. -/
def directive (s : Scanner) : Except Problem Scanner := do
  let s ← (s.dedentTo (-1)).dropKey
  let (found, behind) ← Yaml.directive s.cursor
  return { s.push found with cursor := behind, keyAllowed := false }

/-- Whether a scalar without quotes can begin with a character. -/
def beginsPlain (s : Scanner) (c : Char) (rest : List Char) : Bool :=
  if c = '-' then !rest.head?.any isGap
  else if c = '?' ∨ c = ':' then !s.inBrackets && !endsWord rest
  else !(isBracket c || "#&*!|>'\"%@\x60".toList.contains c || endsWord [c])

/-- The token at the current place, which is no gap. -/
def token (s : Scanner) (c : Char) (rest : List Char) : Except Problem Scanner :=
  let alone := endsWord rest
  if s.column = 0 ∧ c = '%' then s.directive
  else if s.column = 0 ∧ startsWithMarker s.cursor.rest then
    s.marker (if c = '-' then .documentStart else .documentEnd)
  else if c = '[' then s.openBracket .bracketOpen
  else if c = '\x7b' then s.openBracket .braceOpen
  else if c = ']' then s.closeBracket .bracketClose
  else if c = '\x7d' then s.closeBracket .braceClose
  else if c = ',' then s.comma
  else if c = '-' ∧ alone then s.item
  else if c = '?' ∧ (s.inBrackets ∨ alone) then s.key
  else if c = ':' ∧ (s.inBrackets ∨ alone) then s.value
  else if c = '*' then s.named .reference
  else if c = '&' then s.named .anchor
  else if c = '!' then s.property (tag s.inBrackets)
  else if c = '|' ∧ !s.inBrackets then s.block .literal
  else if c = '>' ∧ !s.inBrackets then s.block .folded
  else if c = '\'' ∨ c = '"' then s.scalar .quoted (quotedScalar c)
  else if s.beginsPlain c rest then s.scalar .plain (plainScalar s.inBrackets (s.indent + 1))
  else .error .cannotStartToken

/-- Goes on to the end of the text, in at most the given steps. -/
def run : Nat → Scanner → Except Problem (List Token)
  | 0, _ => .error .unclosedQuotes
  | steps + 1, s => do
    let s ← (s.skipGap s.cursor.rest.length false).dropStale
    match s.cursor.rest with
    | [] =>
      let s ← (s.dedentTo (-1)).dropKey
      return s.tokens.reverse
    | c :: rest => run steps (← (s.dedentTo s.column).token c rest)

end Scanner

/-- The tokens of a text. -/
def tokens (text : List Char) : Except Problem (List Token) :=
  if text.all isAllowed then
    let text := normalizeBreaks text
    (Scanner.ofText text).run (text.length + 1)
  else .error .controlCharacter

end RazenLint.Yaml
