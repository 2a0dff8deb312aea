import RazenLint.Json.Number
import RazenLint.Text.Ascii

/-!
# Scanning JSON text

The parts of a JSON text below the level of values : blanks, the three words,
strings and numbers. A scan consumes characters from the front of the text and
fails with what was wrong at the place it came to. Strings and numbers that
nobody asks for are scanned under looser rules (`skipString`, `skipNumber`).
-/

namespace RazenLint.Json

/-- What can be wrong with a JSON text. -/
inductive ReadError where
  | endInList
  | endInObject
  | endInString
  | endInValue
  | expectedColon
  | expectedListEnd
  | expectedObjectEnd
  | expectedWord
  | expectedValue
  | invalidEscape
  | invalidNumber
  | numberTooLarge
  | controlInString
  | keyNotText
  | loneSurrogate
  | halfSurrogatePair
  | trailingComma
  | trailingText
  | tooDeep
deriving DecidableEq, Repr

/-- What is wrong, without the line and the column behind it. -/
def ReadError.message : ReadError → String
  | endInList => "EOF while parsing a list"
  | endInObject => "EOF while parsing an object"
  | endInString => "EOF while parsing a string"
  | endInValue => "EOF while parsing a value"
  | expectedColon => "expected `:`"
  | expectedListEnd => "expected `,` or `]`"
  | expectedObjectEnd => "expected `,` or `\x7d`"
  | expectedWord => "expected ident"
  | expectedValue => "expected value"
  | invalidEscape => "invalid escape"
  | invalidNumber => "invalid number"
  | numberTooLarge => "number out of range"
  | controlInString => "control character (\\u0000-\\u001F) found while parsing a string"
  | keyNotText => "key must be a string"
  | loneSurrogate => "lone leading surrogate in hex escape"
  | halfSurrogatePair => "unexpected end of hex escape"
  | trailingComma => "trailing comma"
  | trailingText => "trailing characters"
  | tooDeep => "recursion limit exceeded"

/-- A step through a text that can fail. -/
abbrev Scan := StateT (List Char) (Except ReadError)

namespace Scan

/-- The next character, which stays where it is. -/
def peek : Scan (Option Char) := do
  return (← get).head?

/-- Takes the next character. -/
def next : Scan (Option Char) := do
  let c ← peek
  modify List.tail
  return c

/-- The blanks of the format, which are fewer than those of the standard. -/
def isSpace (c : Char) : Bool :=
  c = ' ' || c = '\n' || c = '\t' || c = '\r'

/-- The next character past any blanks. -/
def peekPastSpace : Scan (Option Char) := do
  modify (·.dropWhile isSpace)
  peek

/-- Takes the given letters. -/
def letters : List Char → Scan Unit
  | [] => return
  | c :: cs => do
    match ← next with
    | none => throw .endInValue
    | some found => if found = c then letters cs else throw .expectedWord

/-- Takes the digits that come next. -/
def digits : Scan (List Char) := do
  let cs ← get
  set (cs.dropWhile Char.isDigit)
  return cs.takeWhile Char.isDigit

/-! ## Strings -/

/-- The number that four hexadecimal digits write. A text that ends within four
bytes of UTF-8 is too short for them. -/
def hexFour : Scan Nat := do
  let cs ← get
  match cs.take 4 |>.mapM Text.hexDigit? with
  | some [a, b, c, d] =>
    set (cs.drop 4)
    return ((a * 16 + b) * 16 + c) * 16 + d
  | _ =>
    let bytes := (cs.take 4).foldl (fun n c => n + c.utf8Size) 0
    if bytes < 4 then throw .endInString else throw .invalidEscape

/-- The character of a short escape. -/
def shortEscape? (c : Char) : Option Char :=
  [('"', '"'), ('\\', '\\'), ('/', '/'), ('b', '\x08'), ('f', '\x0c'), ('n', '\n'), ('r', '\r'),
    ('t', '\t')].lookup c

def isHighSurrogate (n : Nat) : Bool :=
  0xD800 ≤ n && n ≤ 0xDBFF

def isLowSurrogate (n : Nat) : Bool :=
  0xDC00 ≤ n && n ≤ 0xDFFF

/-- Takes a character that has to follow the first half of a pair. -/
def pairSign (sign : Char) : Scan Unit := do
  match ← peek with
  | none => throw .endInString
  | some c => if c = sign then modify List.tail else throw .halfSurrogatePair

/-- The character of an escape, past the backslash. A character outside the
basic plane is written as a pair of surrogates. -/
def escape : Scan Char := do
  match ← next with
  | none => throw .endInString
  | some 'u' =>
    let first ← hexFour
    if isLowSurrogate first then throw .loneSurrogate
    else if isHighSurrogate first then
      pairSign '\\'
      pairSign 'u'
      let second ← hexFour
      if isLowSurrogate second then
        return Char.ofNat (0x10000 + (first - 0xD800) * 0x400 + (second - 0xDC00))
      else throw .loneSurrogate
    else return Char.ofNat first
  | some c =>
    match shortEscape? c with
    | some meant => return meant
    | none => throw .invalidEscape

/-- The characters up to the closing quote, in at most `steps` steps, after the
characters read before in reverse. -/
def stringBody : Nat → List Char → Scan (List Char)
  | 0, _ => throw .endInString
  | steps + 1, reversed => do
    match ← next with
    | none => throw .endInString
    | some '"' => return reversed.reverse
    | some '\\' => stringBody steps ((← escape) :: reversed)
    | some c => if c.toNat < 0x20 then throw .controlInString else stringBody steps (c :: reversed)

/-- The text of a string, past its opening quote. -/
def string : Scan String := do
  return String.ofList (← stringBody ((← get).length + 1) [])

/-- Passes over an escape. Surrogates need not be paired. -/
def skipEscape : Scan Unit := do
  match ← next with
  | none => throw .endInString
  | some 'u' => discard hexFour
  | some c => if (shortEscape? c).isNone then throw .invalidEscape

def skipStringBody : Nat → Scan Unit
  | 0 => throw .endInString
  | steps + 1 => do
    match ← next with
    | none => throw .endInString
    | some '"' => return
    | some '\\' =>
      skipEscape
      skipStringBody steps
    | some c => if c.toNat < 0x20 then throw .controlInString else skipStringBody steps

/-- Passes over a string, past its opening quote. -/
def skipString : Scan Unit := do
  skipStringBody ((← get).length + 1)

/-! ## Numbers -/

/-- The double that a significand and an exponent stand for. -/
def double (positive : Bool) (significand : Nat) (exponent : Int) : Scan Number := do
  match decimalToDouble? significand exponent with
  | some f => return .ofDouble positive f
  | none => throw .numberTooLarge

/-- As many digits as a word can take, the significand they give after the one
before them, and whether digits are left that it cannot take. -/
def takeIntoWord (significand : Nat) : List Char → Nat × Nat × Bool
  | [] => (significand, 0, false)
  | c :: cs =>
    let more := significand * 10 + (c.toNat - '0'.toNat)
    if maxWord < more then (significand, 0, true)
    else
      let (final, taken, full) := takeIntoWord more cs
      (final, taken + 1, full)

def isExponentSign (c : Option Char) : Bool :=
  c = some 'e' || c = some 'E'

/-- A number from its exponent sign on. -/
def exponent (positive : Bool) (significand : Nat) (start : Int) : Scan Number := do
  discard next
  let sign ← peek
  if sign = some '+' ∨ sign = some '-' then discard next
  match ← peek with
  | none => throw .endInValue
  | some c =>
    if !c.isDigit then throw .invalidNumber
    let size := (← digits).foldl (fun n c => n * 10 + (c.toNat - '0'.toNat)) 0
    if sign = some '-' then
      if maxExponent < size then return .ofDouble positive 0.0
      else double positive significand (start - size)
    else if maxExponent < size then
      if significand = 0 then return .ofDouble positive 0.0 else throw .numberTooLarge
    else double positive significand (start + size)

/-- A number from the exponent sign on, if there is one. -/
def afterDigits (positive : Bool) (significand : Nat) (start : Int) : Scan Number := do
  if isExponentSign (← peek) then exponent positive significand start
  else double positive significand start

/-- A number from its point on. Digits that the significand cannot take are
passed over. -/
def fraction (positive : Bool) (significand : Nat) (start : Int) : Scan Number := do
  discard next
  let cs ← digits
  if cs.isEmpty then
    match ← peek with
    | none => throw .endInValue
    | some _ => throw .invalidNumber
  let (significand, taken, _) := takeIntoWord significand cs
  afterDigits positive significand (start - taken)

/-- A number past its sign. -/
def number (positive : Bool) : Scan Number := do
  match ← peek with
  | none => throw .endInValue
  | some c =>
    if !c.isDigit then throw .invalidNumber
    let cs ← digits
    if c = '0' ∧ cs.length ≠ 1 then throw .invalidNumber
    let (significand, taken, full) := takeIntoWord 0 cs
    let start : Int := if full then cs.length - taken else 0
    let after ← peek
    if after = some '.' then fraction positive significand start
    else if isExponentSign after then exponent positive significand start
    else if full then double positive significand start
    else return .ofWord positive significand

/-- Passes over digits, of which there has to be one. -/
def skipDigits : Scan Unit := do
  if (← digits).isEmpty then throw .invalidNumber

/-- Passes over a number past its sign. Its size does not matter. -/
def skipNumber : Scan Unit := do
  let c ← peek
  let cs ← digits
  if cs.isEmpty || (c = some '0' && cs.length ≠ 1) then throw .invalidNumber
  if (← peek) = some '.' then
    discard next
    skipDigits
  if isExponentSign (← peek) then
    discard next
    let sign ← peek
    if sign = some '+' ∨ sign = some '-' then discard next
    skipDigits

end Scan

end RazenLint.Json
