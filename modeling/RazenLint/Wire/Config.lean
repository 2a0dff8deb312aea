import RazenLint.Config.Basic
import RazenLint.Json.Decode

/-!
# Configurations as data

A configuration as a JSON value and back. Every field may be left out.
-/

namespace RazenLint.Config

open Json

def recordType : RecordType :=
  ⟨"Config", ["version", "extensions", "excluded_paths", "fail_on_warnings"]⟩

def toJson (config : Config) : Json :=
  .object [("version", .text config.version),
    ("extensions", .list (config.extensions.map .text)),
    ("excluded_paths", .list (config.excludedPaths.map .text)),
    ("fail_on_warnings", .bool config.failOnWarnings)]

def ofJson (value : Json) : Decoded Config := do
  let record ← value.asRecord recordType
  let version := record.field "version" asText
  let extensions := record.field "extensions" (asList asText)
  let excludedPaths := record.field "excluded_paths" (asList asText)
  let failOnWarnings := record.field "fail_on_warnings" asBool
  record.firstProblem [problemOf "version" version, problemOf "extensions" extensions,
    problemOf "excluded_paths" excludedPaths, problemOf "fail_on_warnings" failOnWarnings]
  let version ← Record.defaulted standard.version version
  let extensions ← Record.defaulted standard.extensions extensions
  let excludedPaths ← Record.defaulted standard.excludedPaths excludedPaths
  let failOnWarnings ← Record.defaulted standard.failOnWarnings failOnWarnings
  record.finish
  return { version, extensions, excludedPaths, failOnWarnings }

end RazenLint.Config
