/-!
# Declared kinds

A declaration keyword commits its variable to a kind of value. The kinds named
after an operation imply one of the base kinds (`Kind.base`), and the universal
kind `any` commits to nothing.
-/

namespace RazenLint

inductive Kind where
  | numeric
  | textual
  | boolean
  | collection
  | any
  | sum
  | difference
  | product
  | quotient
  | remainder
  | length
  | concatenation
  | slice
deriving DecidableEq, Repr

namespace Kind

/-- Every kind, in the order of its declaration. -/
def all : List Kind :=
  [numeric, textual, boolean, collection, any, sum, difference, product, quotient, remainder,
    length, concatenation, slice]

/-- The name of a kind in messages. -/
def name : Kind → String
  | numeric => "numeric"
  | textual => "textual"
  | boolean => "boolean"
  | collection => "collection"
  | any => "any"
  | sum => "sum-like"
  | difference => "difference-like"
  | product => "product-like"
  | quotient => "quotient-like"
  | remainder => "remainder-like"
  | length => "length-like"
  | concatenation => "concatenation-like"
  | slice => "slice-like"

/-- The name of a kind in exchanged data. -/
def tag : Kind → String
  | numeric => "numeric"
  | textual => "textual"
  | boolean => "boolean"
  | collection => "collection"
  | any => "any"
  | sum => "sum"
  | difference => "difference"
  | product => "product"
  | quotient => "quotient"
  | remainder => "remainder"
  | length => "length"
  | concatenation => "concatenation"
  | slice => "slice"

/-- The base kind that a kind implies. -/
def base : Kind → Kind
  | numeric | sum | difference | product | quotient | remainder | length => numeric
  | textual | concatenation | slice => textual
  | boolean => boolean
  | collection => collection
  | any => any

def isAny (kind : Kind) : Bool :=
  kind.base = any

/-- A base kind is its own base. -/
@[simp] theorem base_base (kind : Kind) : kind.base.base = kind.base := by
  cases kind <;> rfl

/-- The keyword that declares a variable of this kind's base. -/
def keyword (kind : Kind) : String :=
  match kind.base with
  | numeric => "let"
  | textual => "take"
  | boolean => "hold"
  | collection => "list"
  | _ => "put"

end Kind

/-- The declaration keywords with their kinds, longer keywords first and
keywords of one length in alphabetical order. -/
def declarationKeywords : List (String × Kind) :=
  [("concat", .concatenation), ("slice", .slice), ("store", .any), ("diff", .difference),
    ("hold", .boolean), ("list", .collection), ("prod", .product), ("take", .textual),
    ("text", .textual), ("arr", .collection), ("box", .any), ("div", .quotient),
    ("len", .length), ("let", .numeric), ("map", .collection), ("mod", .remainder),
    ("put", .any), ("ref", .any), ("sum", .sum)]

/-- The kind that a word commits to, if it is a declaration keyword. -/
def Kind.ofKeyword? (word : String) : Option Kind :=
  declarationKeywords.lookup word

/-- The keywords that begin an import. -/
def importKeywords : List String :=
  ["lib", "use", "using"]

end RazenLint
