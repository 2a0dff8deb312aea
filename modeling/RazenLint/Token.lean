import RazenLint.Symbol

/-!
# Semantic tokens

Every symbol gives one token where it is declared or imported and one token for
each place that refers to it. An editor colours the text by them.
-/

namespace RazenLint

inductive TokenCategory where
  | var
  | library
deriving DecidableEq, Repr

namespace TokenCategory

def all : List TokenCategory :=
  [var, library]

def name : TokenCategory → String
  | var => "variable"
  | library => "library"

/-- Variables come before libraries. -/
def rank : TokenCategory → Nat
  | var => 0
  | library => 1

end TokenCategory

/-! ## Modifiers are the bits of a number -/

def declarationBit : Nat := 1
def unusedBit : Nat := 2
def usedBit : Nat := 4

/-- The names of the modifiers, the lowest bit first. -/
def modifierNames : List String :=
  ["declaration", "unused", "used"]

structure Token where
  line : Nat
  startColumn : Nat
  length : Nat
  category : TokenCategory
  modifiers : Nat
deriving DecidableEq, Repr

namespace Token

def isDeclaration (token : Token) : Bool :=
  token.modifiers &&& declarationBit ≠ 0

def ofSpan (category : TokenCategory) (modifiers : Nat) (span : Span) : Token :=
  ⟨span.line, span.start, span.length, category, modifiers⟩

/-- The token where a symbol is declared. -/
def ofDeclaration (category : TokenCategory) (used : Bool) (span : Span) : Token :=
  ofSpan category (declarationBit ||| if used then usedBit else unusedBit) span

/-- The tokens of a symbol : its declaration, then its references. -/
def ofSymbol (category : TokenCategory) (span : Span) (references : List Span) : List Token :=
  ofDeclaration category (!references.isEmpty) span ::
    references.map (ofSpan category usedBit)

/-- Order by line, column and category. -/
def compare (a b : Token) : Ordering :=
  (Ord.compare a.line b.line).then
    ((Ord.compare a.startColumn b.startColumn).then
      (Ord.compare a.category.rank b.category.rank))

/-- A list without the tokens that equal the one before them. -/
def dropRepeats : List Token → List Token
  | [] => []
  | [token] => [token]
  | first :: second :: rest =>
    if first = second then dropRepeats (second :: rest)
    else first :: dropRepeats (second :: rest)

end Token

/-- The tokens of a symbol table, in reading order. -/
def SymbolTable.tokens (table : SymbolTable) : List Token :=
  let declared := table.declared.flatMap fun (_, v) => Token.ofSymbol .var v.span v.references
  let libraries := table.libraries.flatMap fun (_, l) => Token.ofSymbol .library l.span l.references
  Token.dropRepeats ((declared ++ libraries).mergeSort fun a b => (a.compare b).isLE)

end RazenLint
