/-!
# Arguments

The arguments of the program name a command and what it works on. An option is
given by its long name or by a letter, its value stands in the same argument or
in the next one, and letters can share an argument. Behind two dashes nothing is
an option. A value is looked at when the next option or value is met, so what is
wrong with it comes after an option that does not exist.
-/

namespace RazenLint

/-- The formats of a report. -/
inductive ReportFormat where
  | pretty
  | json
  | sarif
deriving DecidableEq, Repr

namespace ReportFormat

def all : List ReportFormat :=
  [pretty, json, sarif]

def name : ReportFormat → String
  | pretty => "pretty"
  | json => "json"
  | sarif => "sarif"

def ofName? (text : String) : Option ReportFormat :=
  all.find? (·.name = text)

end ReportFormat

/-- What the program is asked to do. -/
inductive Invocation where
  | check (path : String) (config : Option String) (format : ReportFormat)
  | fix (file : String) (write : Bool)
  | tokens (file : String)
  | serve
  | init (output : String)
deriving DecidableEq, Repr

/-- Why arguments ask for nothing to be done. -/
inductive UsageProblem where
  | helpWanted
  | versionWanted
  | noCommand
  | unknownCommand
  | unknownArgument
  | invalidValue
  | missingArgument
  | repeatedArgument
  | unneededValue
deriving DecidableEq, Repr

/-- The exit code of the program. Help and version are no errors. -/
def UsageProblem.exitCode : UsageProblem → Nat
  | helpWanted | versionWanted => 0
  | noCommand | unknownCommand | unknownArgument | invalidValue | missingArgument
  | repeatedArgument | unneededValue => 2

namespace CommandLine

/-! ## Commands and their options -/

inductive CommandName where
  | check
  | fix
  | tokens
  | serve
  | init
deriving DecidableEq, Repr

/-- The command that a word names. -/
def CommandName.ofWord? (word : String) : Option CommandName :=
  [("check", check), ("lint", check), ("fix", fix), ("tokens", tokens), ("serve", serve),
    ("init", init)].lookup word

/-- What an argument gives. -/
inductive Slot where
  | path
  | config
  | format
  | output
  | write
  | help
deriving DecidableEq, Repr

def Slot.takesValue : Slot → Bool
  | path | config | format | output => true
  | write | help => false

/-- The options of a command : a long name, a letter, and what they give. -/
def CommandName.options : CommandName → List (String × Char × Slot)
  | check => [("config", 'c', .config), ("format", 'f', .format), ("help", 'h', .help)]
  | fix => [("write", 'w', .write), ("help", 'h', .help)]
  | init => [("output", 'o', .output), ("help", 'h', .help)]
  | tokens | serve => [("help", 'h', .help)]

/-- Whether a command works on a path. -/
def CommandName.takesPath : CommandName → Bool
  | check | fix | tokens => true
  | serve | init => false

def CommandName.long? (command : CommandName) (name : String) : Option Slot :=
  (command.options.find? (·.1 = name)).map (·.2.2)

def CommandName.letter? (command : CommandName) (letter : Char) : Option Slot :=
  (command.options.find? (·.2.1 = letter)).map (·.2.2)

/-! ## Collecting values -/

/-- What the arguments of a command have given so far. -/
structure Given where
  values : List (Slot × String)
  /-- What was given last, with its value if it has come. -/
  pending : Option (Slot × Option String)
  /-- Two dashes were met. -/
  noMoreOptions : Bool
  /-- A path was given. -/
  hasPath : Bool
deriving DecidableEq, Repr

/-- A step through arguments that can end in a problem. -/
abbrev Outcome (α : Type) := Except UsageProblem α

namespace Given

def nothing : Given := ⟨[], none, false, false⟩

/-- Whether a text can be the value of a slot. -/
def isValue (slot : Slot) (text : String) : Bool :=
  match slot with
  | .format => (ReportFormat.ofName? text).isSome
  | _ => text ≠ ""

/-- Takes a value. A slot has one value. -/
def store (given : Given) (slot : Slot) (text : String) : Outcome Given :=
  if given.values.any (·.1 = slot) then .error .repeatedArgument
  else if isValue slot text then .ok { given with values := (slot, text) :: given.values }
  else .error .invalidValue

/-- Takes the value that was given last. -/
def settle (given : Given) : Outcome Given :=
  match given.pending with
  | none => .ok given
  | some (_, none) => .error .invalidValue
  | some (slot, some text) => ({ given with pending := none } : Given).store slot text

/-- Takes an option that has no value. -/
def raise (given : Given) (slot : Slot) : Outcome Given := do
  let given ← given.settle
  match slot with
  | .help => throw .helpWanted
  | slot => given.store slot "true"

/-- Takes an option whose value stands in the same argument, or comes next. -/
def begin (given : Given) (slot : Slot) (value : Option String) : Outcome Given := do
  let given ← given.settle
  match value with
  | some text => given.store slot text
  | none => return { given with pending := some (slot, none) }

/-- Reads an argument that begins with two dashes, behind them. -/
def long (given : Given) (command : CommandName) (cs : List Char) : Outcome Given :=
  let name := String.ofList (cs.takeWhile (· ≠ '='))
  let value := match cs.dropWhile (· ≠ '=') with
    | [] => none
    | _ :: text => some (String.ofList text)
  match command.long? name with
  | none => .error .unknownArgument
  | some slot =>
    if slot.takesValue then given.begin slot value
    else if value.isSome then .error .unneededValue
    else given.raise slot

/-- Reads letters. A letter that has a value takes what is left, without an equals
sign before it. -/
def letters (given : Given) (command : CommandName) : List Char → Outcome Given
  | [] => .ok given
  | c :: rest =>
    match command.letter? c with
    | none => .error .unknownArgument
    | some slot =>
      if slot.takesValue then
        match rest with
        | [] => given.begin slot none
        | '=' :: text => given.begin slot (some (String.ofList text))
        | text => given.begin slot (some (String.ofList text))
      else
        match given.raise slot with
        | .ok given => letters given command rest
        | .error problem => .error problem

/-- Reads an argument that is no option. -/
def word (given : Given) (command : CommandName) (text : String) : Outcome Given :=
  match given.pending, given.noMoreOptions with
  | some (slot, none), false => .ok { given with pending := some (slot, some text) }
  | _, _ =>
    if command.takesPath && !given.hasPath then do
      let given ← given.settle
      return { given with pending := some (.path, some text), hasPath := true }
    else .error .unknownArgument

/-- Reads an argument. -/
def argument (given : Given) (command : CommandName) (text : String) : Outcome Given :=
  if given.noMoreOptions then given.word command text
  else
    match text.toList with
    | ['-', '-'] => .ok { given with noMoreOptions := true }
    | '-' :: '-' :: cs => given.long command cs
    | '-' :: c :: cs => given.letters command (c :: cs)
    | _ => given.word command text

def value? (given : Given) (slot : Slot) : Option String :=
  given.values.lookup slot

/-- The path that a command cannot do without. -/
def path (given : Given) : Outcome String :=
  match given.value? .path with
  | some text => .ok text
  | none => .error .missingArgument

/-- What a command is asked to do. -/
def invocation (given : Given) (command : CommandName) (standardOutput : String) :
    Outcome Invocation := do
  match command with
  | .check =>
    let format := ((given.value? .format).bind ReportFormat.ofName?).getD .pretty
    return .check (← given.path) (given.value? .config) format
  | .fix => return .fix (← given.path) (given.value? .write).isSome
  | .tokens => return .tokens (← given.path)
  | .serve => return .serve
  | .init => return .init ((given.value? .output).getD standardOutput)

end Given

/-! ## Whole command lines -/

/-- What the arguments behind the name of a command ask for. -/
def ofCommand (standardOutput : String) (command : CommandName) (arguments : List String) :
    Outcome Invocation := do
  let given ← arguments.foldlM (fun (given : Given) text => given.argument command text) .nothing
  (← given.settle).invocation command standardOutput

/-- The word that asks for help on commands. -/
def helpWord : String := "help"

/-- Whether a word names a command, help included. -/
def namesCommand (word : String) : Bool :=
  word = helpWord || (CommandName.ofWord? word).isSome

/-- What the words behind `help` ask for. No command has commands of its own. -/
def helpProblem : List String → UsageProblem
  | [] => .helpWanted
  | [word] => if namesCommand word then .helpWanted else .unknownCommand
  | _ => .unknownCommand

/-- What the first letter of an argument before a command asks for. -/
def letterProblem : List Char → UsageProblem
  | 'h' :: _ => .helpWanted
  | 'V' :: _ => .versionWanted
  | _ => .unknownArgument

/-- What an argument before a command asks for, behind its two dashes. -/
def longProblem (cs : List Char) : UsageProblem :=
  let name := String.ofList (cs.takeWhile (· ≠ '='))
  if name = "help" ∨ name = "version" then
    if cs.contains '=' then .unneededValue
    else if name = "help" then .helpWanted
    else .versionWanted
  else .unknownArgument

/-- What the arguments of the program ask for. New configurations go to
`standardOutput` where no path is given for them. -/
def ofArguments (standardOutput : String) : List String → Outcome Invocation
  | [] => .error .noCommand
  | first :: rest =>
    match CommandName.ofWord? first with
    | some command => ofCommand standardOutput command rest
    | none =>
      if first = helpWord then .error (helpProblem rest)
      else
        match first.toList with
        | ['-', '-'] =>
          match rest with
          | [] => .error .noCommand
          | word :: _ =>
            .error (if namesCommand word then .unknownArgument else .unknownCommand)
        | '-' :: '-' :: cs => .error (longProblem cs)
        | '-' :: c :: cs => .error (letterProblem (c :: cs))
        | _ => .error .unknownCommand

end CommandLine

end RazenLint
