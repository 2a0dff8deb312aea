import RazenLint.Text.Ascii
import RazenLint.Yaml.Token

/-!
# Scalars of YAML

The text of a scalar may go over several lines. A single break inside it is read
as a space, and of several breaks all but the first are kept. Scalars are read
from a cursor and leave one behind.
-/

namespace RazenLint.Yaml

/-! ## Blanks and breaks inside a scalar -/

/-- What stands between two words of a scalar, in reverse. -/
inductive Gap where
  | blanks (reversed : List Char)
  /-- Breaks, of which the first may have been escaped. -/
  | breaks (first : Option Char) (reversed : List Char)
deriving DecidableEq, Repr

namespace Gap

def none : Gap := blanks []

def hasBreak : Gap → Bool
  | blanks _ => false
  | breaks _ _ => true

/-- The gap with another blank or break. Blanks beside breaks are dropped. -/
def push (c : Char) : Gap → Gap
  | blanks reversed => if isBreak c then breaks (some c) [] else blanks (c :: reversed)
  | breaks first reversed =>
    if isBreak c then breaks first (c :: reversed) else breaks first reversed

/-- The text that a gap stands for, in reverse. -/
def folded : Gap → List Char
  | blanks reversed => reversed
  | breaks Option.none reversed => reversed
  | breaks (some first) reversed =>
    if first = '\n' then if reversed.isEmpty then [' '] else reversed
    else reversed ++ [first]

end Gap

/-- A scalar that was read : its text, whether a break stands behind it, and the
place behind it. -/
structure ScalarEnd where
  text : String
  afterBreak : Bool
  cursor : Cursor

/-! ## Scalars without quotes -/

/-- Reads on in a scalar without quotes in at most the given steps. `text` is
what was read before in reverse. Outside brackets, words belong to the scalar
as long as they are indented by `indent`. -/
def plainFrom (steps : Nat) (inBrackets : Bool) (indent : Int) (text : List Char) (gap : Gap)
    (cursor : Cursor) : Except Problem ScalarEnd :=
  let done : ScalarEnd := ⟨String.ofList text.reverse, gap.hasBreak, cursor⟩
  match steps, cursor.rest with
  | 0, _ | _, [] => .ok done
  | steps + 1, c :: rest =>
    if isGap c || isBreak c then
      if gap.hasBreak && c = '\t' && decide ((cursor.column : Int) < indent) then
        .error .tabInIndentation
      else plainFrom steps inBrackets indent text (gap.push c) cursor.next
    else if gap ≠ .none ∧ (c = '#' ∨ (!inBrackets ∧ (cursor.column : Int) < indent)) then .ok done
    else if cursor.column = 0 ∧ startsWithMarker cursor.rest then .ok done
    else if inBrackets && c = ':' && (rest.head?.any fun d => isBracket d || d = '?') then
      .error .colonInScalar
    else if (c = ':' && endsWord rest) || (inBrackets && isBracket c) then .ok done
    else plainFrom steps inBrackets indent (c :: (gap.folded ++ text)) .none cursor.next

/-- Reads a scalar without quotes. -/
def plainScalar (inBrackets : Bool) (indent : Int) (cursor : Cursor) : Except Problem ScalarEnd :=
  plainFrom cursor.rest.length inBrackets indent [] .none cursor

/-! ## Scalars in quotes -/

/-- The character that a letter behind a backslash stands for. -/
def namedEscape? (c : Char) : Option Char :=
  [('0', '\x00'), ('a', '\x07'), ('b', '\x08'), ('t', '\t'), ('\t', '\t'), ('n', '\n'),
    ('v', '\x0b'), ('f', '\x0c'), ('r', '\r'), ('e', '\x1b'), (' ', ' '), ('"', '"'), ('/', '/'),
    ('\\', '\\'), ('N', '\u0085'), ('_', '\u00a0'), ('L', '\u2028'), ('P', '\u2029')].lookup c

/-- Number of digits behind a letter that begins a code point. -/
def codePointDigits? (c : Char) : Option Nat :=
  [('x', 2), ('u', 4), ('U', 8)].lookup c

/-- The code point of digits. -/
def codePoint? (digits : List Char) : Option Nat :=
  digits.foldl (fun value c => do return (← value) * 16 + (← Text.hexDigit? c)) (some 0)

/-- The character of an escape behind its backslash, and the number of
characters that the escape has there. -/
def escape (rest : List Char) : Except Problem (Char × Nat) :=
  match rest with
  | [] => .error .unknownEscape
  | c :: behind =>
    match namedEscape? c, codePointDigits? c with
    | some meant, _ => .ok (meant, 1)
    | none, some count =>
      match codePoint? (behind.take count) with
      | none => .error .invalidCodePoint
      | some value =>
        if behind.length < count ∨ !value.isValidChar then .error .invalidCodePoint
        else .ok (Char.ofNat value, count + 1)
    | none, none => .error .unknownEscape

/-- Reads on in a scalar between the given quotes in at most the given steps. -/
def quotedFrom (steps : Nat) (quote : Char) (text : List Char) (gap : Gap) (cursor : Cursor) :
    Except Problem ScalarEnd :=
  let joined := gap.folded ++ text
  match steps, cursor.rest with
  | 0, _ | _, [] => .error .unclosedQuotes
  | steps + 1, c :: rest =>
    if isGap c || isBreak c then quotedFrom steps quote text (gap.push c) cursor.next
    else if cursor.column = 0 ∧ startsWithMarker cursor.rest then .error .markerInQuotes
    else if c = quote then
      if c = '\'' ∧ rest.head? = some '\'' then
        quotedFrom steps quote ('\'' :: joined) .none (cursor.skip 2)
      else .ok ⟨String.ofList joined.reverse, false, cursor.next⟩
    else if c = '\\' ∧ quote = '"' then
      if rest.head?.any isBreak then
        quotedFrom steps quote joined (.breaks none []) (cursor.skip 2)
      else
        match escape rest with
        | .ok (meant, count) =>
          quotedFrom steps quote (meant :: joined) .none (cursor.skip (count + 1))
        | .error problem => .error problem
    else quotedFrom steps quote (c :: joined) .none cursor.next

/-- Reads a scalar at its opening quote. -/
def quotedScalar (quote : Char) (cursor : Cursor) : Except Problem ScalarEnd :=
  quotedFrom (cursor.rest.length + 1) quote [] .none cursor.next

end RazenLint.Yaml
