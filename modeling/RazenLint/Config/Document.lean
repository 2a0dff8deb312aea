import RazenLint.Config.Basic

/-!
# Configuration documents

A configuration is written as a mapping of its fields. Fields that are left out
have their standard values, and other keys do not count.
-/

namespace RazenLint

namespace Yaml

/-- The tag that makes a literal scalar a truth value. -/
def boolTag : Tag := Text.encodeUtf8 "tag:yaml.org,2002:bool".toList

/-- Whether a value stands for nothing. -/
def isNull : Yaml → Bool
  | scalar .plain _ text => ["", "~", "null", "Null", "NULL"].contains text
  | _ => false

namespace Document

variable (document : Document)

def asText (value : Yaml) : Except Problem String :=
  match document.follow value with
  | .scalar _ _ text => .ok text
  | _ => .error (.unexpectedType "a string")

/-- The words for truth values. -/
def asBool (value : Yaml) : Except Problem Bool :=
  match document.follow value with
  | .scalar style tag text =>
    let named := style = .plain || (style = .literal && tag = some boolTag)
    if named && ["true", "True", "TRUE"].contains text then .ok true
    else if named && ["false", "False", "FALSE"].contains text then .ok false
    else .error (.unexpectedType "a boolean")
  | _ => .error (.unexpectedType "a boolean")

/-- A list of texts. Nothing stands for the empty list. -/
def asTexts (value : Yaml) : Except Problem (List String) :=
  match document.follow value with
  | .sequence items => items.mapM document.asText
  | other => if other.isNull then .ok [] else .error (.unexpectedType "a sequence")

/-- The pairs of the mapping that the document is, with texts as its keys. A document that
holds nothing has none. -/
def fields : Except Problem (List (String × Yaml)) :=
  match document.root with
  | none | some (.scalar .plain _ "") => .ok []
  | some (.mapping pairs) => pairs.mapM fun (key, value) => return (← document.asText key, value)
  | some _ => .error (.unexpectedType "struct Config")

end Document

/-- The value of a field that may occur once. -/
def field? (pairs : List (String × Yaml)) (name : String) : Except Problem (Option Yaml) :=
  match pairs.filter (·.1 = name) with
  | [] => .ok none
  | [(_, value)] => .ok (some value)
  | _ => .error (.duplicateField name)

/-- A field, decoded, or its standard value. -/
def fieldOr {α : Type} (standard : α) (decode : Yaml → Except Problem α)
    (pairs : List (String × Yaml)) (name : String) : Except Problem α := do
  match ← field? pairs name with
  | some value => decode value
  | none => return standard

end Yaml

namespace Config

/-- The configuration in a document. -/
def ofYaml (document : Yaml.Document) : Except Yaml.Problem Config := do
  let fields ← document.fields
  return {
    version := ← Yaml.fieldOr standard.version document.asText fields "version"
    extensions := ← Yaml.fieldOr standard.extensions document.asTexts fields "extensions"
    excludedPaths :=
      ← Yaml.fieldOr standard.excludedPaths document.asTexts fields "excluded_paths"
    failOnWarnings :=
      ← Yaml.fieldOr standard.failOnWarnings document.asBool fields "fail_on_warnings" }

/-- The lines of the document that a new configuration starts from. -/
def templateLines : List String :=
  ["# razencheck configuration",
    "version: \"1\"",
    "",
    "# File extensions (without the dot) analyzed by \x60razencheck check\x60",
    "extensions:",
    "  - \"rzn\"",
    "",
    "# Glob patterns for paths to skip",
    "excluded_paths:",
    "  - \"**/build/**\"",
    "  - \"**/.git/**\"",
    "",
    "# Exit non-zero on warnings as well as errors",
    "fail_on_warnings: false"]

/-- The document that a new configuration starts from. -/
def template : String :=
  String.join (templateLines.map (· ++ "\n"))

end Config

end RazenLint
