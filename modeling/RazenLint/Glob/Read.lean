import RazenLint.Glob.Basic

/-!
# Reading patterns

The text of a pattern is read from its front. The open braces are a stack : for
each, the branches that are complete and the pieces of the branch that is being
read. Whether two stars stand for components depends on the characters around
them, so the character before the current one is kept.
-/

namespace RazenLint.Glob

/-! ## Sets of bytes -/

/-- Adds a character of a set, as the end of the last range or on its own. -/
def addToSet (inRange : Bool) (c : Char) :
    List (Char × Char) → Except Problem (List (Char × Char))
  | (low, high) :: reversed =>
    if inRange then
      if c < low then .error (.invalidRange low c) else .ok ((low, c) :: reversed)
    else .ok ((c, c) :: (low, high) :: reversed)
  | [] => .ok [(c, c)]

/-- The ranges of a set up to its bracket, after the given ones in reverse, and
the text behind the bracket. -/
def readSet (first inRange : Bool) (reversed : List (Char × Char)) :
    List Char → Except Problem (List (Char × Char) × List Char)
  | [] => .error .unclosedSet
  | c :: cs =>
    if c = ']' ∧ !first then
      .ok ((if inRange then ('-', '-') :: reversed else reversed).reverse, cs)
    else if c = '-' ∧ !first ∧ !inRange then readSet false true reversed cs
    else
      match addToSet inRange c reversed with
      | .ok more => readSet false false more cs
      | .error problem => .error problem

theorem length_of_readSet {first inRange : Bool} {reversed ranges : List (Char × Char)}
    {cs rest : List Char} (h : readSet first inRange reversed cs = .ok (ranges, rest)) :
    rest.length < cs.length := by
  induction cs generalizing first inRange reversed with
  | nil => simp [readSet] at h
  | cons c cs ih =>
    rw [readSet] at h
    simp only [List.length_cons]
    split at h
    · simp only [Except.ok.injEq, Prod.mk.injEq] at h
      obtain ⟨_, rfl⟩ := h
      omega
    · split at h
      · have := ih h
        omega
      · split at h
        · have := ih h
          omega
        · simp at h

/-- A set behind its opening bracket, and the text behind it. -/
def readSetPiece : List Char → Except Problem (Piece × List Char)
  | cs =>
    let negated := cs.head? = some '!' || cs.head? = some '^'
    match readSet true false [] (if negated then cs.drop 1 else cs) with
    | .ok (ranges, rest) => .ok (.oneOf negated ranges, rest)
    | .error problem => .error problem

theorem length_of_readSetPiece {cs rest : List Char} {piece : Piece}
    (h : readSetPiece cs = .ok (piece, rest)) : rest.length ≤ cs.length := by
  simp only [readSetPiece] at h
  split at h
  · rename_i heq
    have := length_of_readSet heq
    simp only [Except.ok.injEq, Prod.mk.injEq] at h
    obtain ⟨_, rfl⟩ := h
    split at this
    · simp only [List.length_drop] at this
      omega
    · omega
  · simp at h

/-! ## Open braces -/

/-- A brace that is open : the branches before it was last divided, and the
pieces since then, both in reverse. -/
structure OpenChoice where
  branches : List (List Piece)
  current : List Piece

/-- What was read of a pattern : the pieces of the innermost branch in reverse,
the branches complete beside it, and the open braces around it. -/
structure Reading where
  current : List Piece
  branches : List (List Piece)
  outer : List OpenChoice

namespace Reading

def start : Reading := ⟨[], [], []⟩

def push (piece : Piece) (reading : Reading) : Reading :=
  { reading with current := piece :: reading.current }

/-- Whether a brace is open. -/
def inChoice (reading : Reading) : Bool :=
  !reading.outer.isEmpty

def openChoice (reading : Reading) : Reading :=
  ⟨[], [], ⟨reading.branches, reading.current⟩ :: reading.outer⟩

/-- Begins another branch, or reads the comma as itself outside braces. -/
def comma (reading : Reading) : Reading :=
  if reading.inChoice then
    { reading with current := [], branches := reading.current.reverse :: reading.branches }
  else reading.push (.literal ',')

def closeChoice (reading : Reading) : Except Problem Reading :=
  match reading.outer with
  | [] => .error .unopenedChoice
  | around :: outer =>
    let branches := (reading.current.reverse :: reading.branches).reverse
    .ok ⟨.choice branches :: around.current, around.branches, outer⟩

/-- The pattern that was read, when no brace is open. -/
def finish (reading : Reading) : Except Problem Glob :=
  if reading.inChoice then .error .unclosedChoice else .ok reading.current.reverse

/-- Two stars that have no meaning of their own. -/
def twoStars (reading : Reading) : Reading :=
  (reading.push .anyBytes).push .anyBytes

/-- Puts stars that fill a component in place of the slash before them. Stars
after such stars add nothing. -/
def fillComponent (atEnd : Bool) (reading : Reading) : Reading :=
  match reading.current with
  | .anyLeading :: _ | .anyTrailing :: _ => reading
  | current => { reading with
      current := (if atEnd then .anyTrailing else .anyBetween) :: current.drop 1 }

/-- Reads two stars behind the given character, with the given text after them.
The answer tells whether the slash after them belongs to them. -/
def stars (before : Option Char) (rest : List Char) (reading : Reading) : Reading × Bool :=
  let next := rest.head?
  if reading.current.isEmpty then
    if next = none ∨ next = some '/' then (reading.push .anyLeading, next.isSome)
    else (reading.twoStars, false)
  else if before ≠ some '/' ∧
      (!reading.inChoice ∨ (before ≠ some ',' ∧ before ≠ some '\x7b')) then
    (reading.twoStars, false)
  else
    match next with
    | none => (reading.fillComponent true, false)
    | some '/' => (reading.fillComponent false, true)
    | some c =>
      if reading.inChoice ∧ (c = ',' ∨ c = '\x7d') then (reading.fillComponent true, false)
      else (reading.twoStars, false)

end Reading

/-! ## Patterns -/

/-- Reads the rest of a pattern behind the given character. -/
def readFrom (before : Option Char) (reading : Reading) (cs : List Char) :
    Except Problem Glob :=
  match cs with
  | [] => reading.finish
  | '?' :: rest => readFrom (some '?') (reading.push .anyByte) rest
  | '*' :: '*' :: rest =>
    let (reading, takesSlash) := reading.stars before rest
    if takesSlash then readFrom (some '/') reading (rest.drop 1)
    else readFrom (some '*') reading rest
  | '*' :: rest => readFrom (some '*') (reading.push .anyBytes) rest
  | '[' :: rest =>
    match h : readSetPiece rest with
    | .error problem => .error problem
    | .ok (piece, rest') =>
      have : rest'.length ≤ rest.length := length_of_readSetPiece h
      readFrom (some ']') (reading.push piece) rest'
  | '\x7b' :: rest => readFrom (some '\x7b') reading.openChoice rest
  | '\x7d' :: rest =>
    match reading.closeChoice with
    | .ok reading => readFrom (some '\x7d') reading rest
    | .error problem => .error problem
  | ',' :: rest => readFrom (some ',') reading.comma rest
  | '\\' :: c :: rest => readFrom (some c) (reading.push (.literal c)) rest
  | '\\' :: [] => .error .danglingEscape
  | c :: rest => readFrom (some c) (reading.push (.literal c)) rest
termination_by cs.length

/-- The pattern that a text stands for. -/
def ofText (text : String) : Except ReadError Glob :=
  match readFrom none .start text.toList with
  | .ok glob => .ok glob
  | .error problem => .error ⟨text, problem⟩

end RazenLint.Glob
