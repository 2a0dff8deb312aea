import RazenLint.Edit
import RazenLint.Event.Reading
import RazenLint.Library.Catalog
import RazenLint.Table

/-!
# Completion

What can be typed at a cursor. The line up to the cursor tells the context
(`Context.ofText?`), and the context tells the candidates. Nothing is offered
on a line that is a comment or inside a string literal.
-/

namespace RazenLint

open Text

inductive CompletionKind where
  | keyword
  | library
  | function
  | var
deriving DecidableEq, Repr

namespace CompletionKind

def all : List CompletionKind :=
  [keyword, library, function, var]

def name : CompletionKind → String
  | keyword => "keyword"
  | library => "library"
  | function => "function"
  | var => "variable"

/-- Keywords come first, then libraries, functions and variables. -/
def rank : CompletionKind → Nat
  | keyword => 0
  | library => 1
  | function => 2
  | var => 3

end CompletionKind

structure CompletionItem where
  label : String
  kind : CompletionKind
  detail : Option String
  insertText : Option String
deriving DecidableEq, Repr

/-- Order by kind and label. -/
def CompletionItem.compare (a b : CompletionItem) : Ordering :=
  (Ord.compare a.kind.rank b.kind.rank).then (Ord.compare a.label b.label)

/-! ## Contexts -/

/-- What the text before a cursor asks for. The word is what is typed so far. -/
inductive Context where
  /-- A function of the named library. -/
  | function (library word : List Char)
  /-- A library to import. -/
  | imported (word : List Char)
  /-- A statement. -/
  | statement (word : List Char)
  /-- A variable or a library. -/
  | expression (word : List Char)
deriving DecidableEq, Repr

/-- The word that a text ends with, empty when it ends with something else. -/
def lastWord (cs : List Char) : List Char :=
  (cs.reverse.takeWhile isWord).reverse

/-- The text before the word that it ends with. -/
def beforeLastWord (cs : List Char) : List Char :=
  (cs.reverse.dropWhile isWord).reverse

/-- The library in a text that ends with `library::` or `library[`. -/
def qualifier? (cs : List Char) : Option (List Char) :=
  let library := match cs.reverse with
    | ':' :: ':' :: before => lastWord before.reverse
    | '[' :: before => lastWord before.reverse
    | _ => []
  if library.isEmpty then none else some library

/-- Whether a text is an import keyword with blanks after it. -/
def isImportStart (cs : List Char) : Bool :=
  (trimEnd cs).length < cs.length && importKeywords.contains (String.ofList (trim cs))

/-- The context that the text before a cursor sets up. After a point nothing is
known about what may follow. -/
def Context.ofText? (before : List Char) : Option Context :=
  let word := lastWord before
  let rest := beforeLastWord before
  match qualifier? rest with
  | some library => some (.function library word)
  | none =>
    if isImportStart rest then some (.imported word)
    else if rest.all isBlank then some (.statement word)
    else if rest.getLast? = some '.' then none
    else some (.expression word)

/-- Whether a string literal is open at the end of a text : a closed literal
shows two quotes in the masked text, an open one shows one. -/
def insideLiteral (before : List Char) : Bool :=
  (mask before).countP isQuote % 2 = 1

/-! ## Candidates -/

/-- Whether a name begins with what is typed. -/
def beginsWith (name : String) (word : List Char) : Bool :=
  word.isPrefixOf name.toList

def functionItem (library : Library) (f : LibraryFunction) : CompletionItem where
  label := f.name
  kind := .function
  detail := some (library.name ++ "::" ++ f.name ++ "() -> " ++ (f.result.map (·.name)).getD "any")
  insertText := some (f.name ++ "()")

def functionItems (library word : List Char) : List CompletionItem :=
  match Library.resolve? (String.ofList library) with
  | none => []
  | some found => (found.functions.filter (beginsWith ·.name word)).map (functionItem found)

/-- The libraries with a name that begins with the word, in any case. -/
def libraryItems (word : List Char) : List CompletionItem :=
  (libraryNames.filter (beginsWith · (word.map Char.toLower))).map fun name =>
    ⟨name, .library, some "library", none⟩

def keywordItems (word : List Char) : List CompletionItem :=
  ((declarationKeywords.filter (beginsWith ·.1 word)).map fun (keyword, kind) =>
    ⟨keyword, .keyword, some ("declare a " ++ kind.name ++ " variable"),
      some (keyword ++ " $\x7b1:name\x7d = $\x7b2:value\x7d")⟩) ++
  ((importKeywords.filter (beginsWith · word)).map fun keyword =>
    ⟨keyword, .keyword, some "import a library", some (keyword ++ " $\x7b1:library\x7d")⟩)

/-- The variables that lines before the given one declare, each with the kind
of its last declaration there. -/
def variableItems (text : List Char) (line : Nat) (word : List Char) : List CompletionItem :=
  let declared := (events text).filterMap fun event =>
    event.declaration?.bind fun d =>
      if d.nameSpan.line < line && beginsWith d.name word then some (d.name, d.kind) else none
  (Table.ofEntries declared).map fun (name, kind) => ⟨name, .var, some kind.name, none⟩

/-- The candidates for a context on the given line. -/
def Context.items (text : List Char) (line : Nat) : Context → List CompletionItem
  | function library word => functionItems library word
  | imported word => libraryItems word
  | statement word => keywordItems word
  | expression word => variableItems text line word ++ libraryItems word

/-- The given line of a text. The line after the last one counts and is empty. -/
def lineForCursor? (text : List Char) (line : Nat) : Option (List Char) :=
  if line = (lines text).length then some [] else (lines text)[line]?

/-- The characters before a cursor on its line. -/
def textBefore? (text : List Char) (position : Position) : Option (List Char) := do
  let line ← lineForCursor? text position.line
  if position.character ≤ line.length then return line.take position.character else none

/-- A list of items without those that repeat the kind and label before them. -/
def dropRepeatedItems : List CompletionItem → List CompletionItem
  | [] => []
  | [item] => [item]
  | first :: second :: rest =>
    if first.compare second = .eq then dropRepeatedItems (first :: rest)
    else first :: dropRepeatedItems (second :: rest)
termination_by items => items.length

/-- The candidates at a cursor, by kind and label. -/
def complete (text : List Char) (position : Position) : List CompletionItem :=
  match textBefore? text position with
  | none => []
  | some before =>
    if isCommentLine before || insideLiteral before then []
    else
      match Context.ofText? before with
      | none => []
      | some context =>
        dropRepeatedItems
          ((context.items text position.line).mergeSort fun a b => (a.compare b).isLE)

end RazenLint
