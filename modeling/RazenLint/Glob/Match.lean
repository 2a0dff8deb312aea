import RazenLint.Glob.Basic
import RazenLint.Text.Utf8

/-!
# Matching paths

Matching is over the bytes of a path. A pattern is run over a set of rests of
the path, beginning with the whole of it : each piece turns a rest into the
rests that it can leave. The pattern matches when nothing can be left of the
path. A set of rests of one text is a list in which no length occurs twice.

A pattern that is nested too deeply cannot be matched (`isShallow`). What counts
is the nesting of the regular expression that says the same as the pattern.
-/

namespace RazenLint.Glob

open Text (encodeUtf8)

/-- The byte of a slash. -/
def slash : UInt8 := 0x2F

/-- The bytes of a character. -/
def bytesOf (c : Char) : List UInt8 :=
  encodeUtf8 [c]

/-- The text without the given bytes at its front, if they are there. -/
def dropFront? : List UInt8 → List UInt8 → Option (List UInt8)
  | [], rest => some rest
  | _ :: _, [] => none
  | a :: front, b :: rest => if a = b then dropFront? front rest else none

/-- Closed ranges of bytes that a range of characters stands for : those of the
bytes of its two ends, with the last byte of the lower end and the first byte
of the upper end taken as one range. -/
def byteRanges (low high : Char) : List (UInt8 × UInt8) :=
  let single (b : UInt8) : UInt8 × UInt8 := (b, b)
  if low = high then (bytesOf low).map single
  else
    match (bytesOf low).getLast?, bytesOf high with
    | some last, first :: rest =>
      (bytesOf low).dropLast.map single ++ (last, first) :: rest.map single
    | _, _ => []

/-- Whether a byte is in a set of characters. -/
def inSet (ranges : List (Char × Char)) (b : UInt8) : Bool :=
  ranges.any fun (low, high) => (byteRanges low high).any fun (first, last) => first ≤ b && b ≤ last

/-- All rests of a text, the text itself first and nothing last. -/
def tails : List UInt8 → List (List UInt8)
  | [] => [[]]
  | b :: rest => (b :: rest) :: tails rest

/-- The rests behind each of the slashes. -/
def behindSlashes : List UInt8 → List (List UInt8)
  | [] => []
  | b :: rest => if b = slash then rest :: behindSlashes rest else behindSlashes rest

/-- The rest behind a slash at the front. -/
def behindSlash? : List UInt8 → Option (List UInt8)
  | [] => none
  | b :: rest => if b = slash then some rest else none

/-- The rests without those that have the length of an earlier one. -/
def distinct (rests : List (List UInt8)) : List (List UInt8) :=
  (rests.foldl (fun (kept, sizes) rest =>
    if sizes.contains rest.length then (kept, sizes)
    else (rest :: kept, rest.length :: sizes)) (([] : List (List UInt8)), ([] : List Nat))).1

/-- What a single byte leaves, when it is one that is asked for. -/
def behindByte? (wanted : UInt8 → Bool) : List UInt8 → Option (List UInt8)
  | [] => none
  | b :: rest => if wanted b then some rest else none

mutual

/-- Whether a piece stands for no text, not even for the empty one. -/
def Piece.isNothing : Piece → Bool
  | .choice branches => allNothing branches
  | _ => false

/-- Whether a pattern has no piece that stands for a text. -/
def isNothing : List Piece → Bool
  | [] => true
  | piece :: rest => piece.isNothing && isNothing rest

def allNothing : List (List Piece) → Bool
  | [] => true
  | branch :: rest => isNothing branch && allNothing rest

end

mutual

/-- The rests that a piece can leave of each of the given ones. A choice leaves
out its empty branches, and a choice between empty branches is passed over. -/
def Piece.restsOf : Piece → List (List UInt8) → List (List UInt8)
  | .literal c, texts => texts.filterMap (dropFront? (bytesOf c))
  | .anyByte, texts => texts.filterMap (behindByte? fun _ => true)
  | .anyBytes, texts => texts.flatMap tails
  | .anyLeading, texts => texts ++ texts.flatMap behindSlashes
  | .anyTrailing, texts => (texts.filterMap behindSlash?).flatMap tails
  | .anyBetween, texts =>
    let behind := texts.filterMap behindSlash?
    behind ++ behind.flatMap behindSlashes
  | .oneOf negated ranges, texts =>
    texts.filterMap (behindByte? fun b => inSet ranges b != negated)
  | .choice branches, texts =>
    if allNothing branches then texts else branchRests branches texts

/-- The rests that a pattern can leave of each of the given ones. -/
def restsOf : List Piece → List (List UInt8) → List (List UInt8)
  | [], texts => texts
  | piece :: rest, texts => restsOf rest (distinct (piece.restsOf texts))

/-- The rests that one of the branches can leave. -/
def branchRests : List (List Piece) → List (List UInt8) → List (List UInt8)
  | [], _ => []
  | branch :: others, texts =>
    if isNothing branch then branchRests others texts
    else restsOf branch texts ++ branchRests others texts

end

/-- Whether a pattern matches a path. A pattern of nothing but leading
components matches every path. -/
def «matches» (glob : Glob) (path : String) : Bool :=
  match glob with
  | [.anyLeading] => true
  | glob => (restsOf glob [encodeUtf8 path.toList]).any List.isEmpty

/-! ## Nesting -/

/-- The number of bytes and ranges of bytes that a set is made of. -/
def setSize (ranges : List (Char × Char)) : Nat :=
  (ranges.flatMap fun (low, high) => byteRanges low high).length

/-- The number of expressions that stand for a piece, one after another. -/
def Piece.width : Piece → Nat
  | .literal c => (bytesOf c).length
  | .anyTrailing => 2
  | .choice branches => if allNothing branches then 0 else 1
  | _ => 1

mutual

/-- How deep the expression of a piece is nested. A repetition, a set, a group, a
choice and a sequence are one level each, where a set, a choice or a sequence of
one is none of its own. -/
def Piece.depth : Piece → Nat
  | .literal _ | .anyByte => 0
  | .anyBytes | .anyTrailing => 1
  | .anyLeading | .anyBetween => 4
  | .oneOf _ ranges => if 1 < setSize ranges then 2 else 1
  | .choice branches =>
    if allNothing branches then 0
    else (if 1 < branches.countP (!isNothing ·) then 2 else 1) + branchDepth branches

/-- How deep the pieces of a pattern are nested. -/
def depth : List Piece → Nat
  | [] => 0
  | piece :: rest => max piece.depth (depth rest)

/-- How deep the branches of a choice are nested. -/
def branchDepth : List (List Piece) → Nat
  | [] => 0
  | branch :: others =>
    max (depth branch + if 1 < (branch.map Piece.width).sum then 1 else 0) (branchDepth others)

end

/-- The number of levels that an expression can have. -/
def maxDepth : Nat := 250

/-- Whether a pattern can be matched. Its expression is a sequence, which is a level
of its own. -/
def isShallow (glob : Glob) : Bool :=
  depth glob < maxDepth

end RazenLint.Glob
