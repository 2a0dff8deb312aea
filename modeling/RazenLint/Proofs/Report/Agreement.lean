import RazenLint.Proofs.Diagnostic
import RazenLint.Proofs.Json.Way
import RazenLint.Proofs.Wire.Diagnostic
import RazenLint.Report.Sarif

/-!
# Two reports on the same findings

The data report and the SARIF report on a check say the same things at different places. A form
(`ReportForm`) tells where a kind of report says what, so one reader, `ReportForm.findings`, reads
both. `reads_data` and `reads_sarif` show that it finds every diagnostic of every file in turn,
with its place counted from zero again. `reports_agree` adds the counts of the one report and the
rules of the other : these are the rules that occur, in their order, and where the diagnostics come
from an analysis the level of a rule is the level of each of its findings.
-/

namespace RazenLint

open Json

/-! ## Findings in a report -/

/-- A finding as a report presents it, with its place as the analysis counts. -/
structure PresentedFinding where
  file : String
  rule : String
  level : String
  message : String
  range : Range
deriving DecidableEq

namespace PresentedFinding

def ofDiagnostic (file : String) (d : Diagnostic) : PresentedFinding :=
  ⟨file, d.rule.name, d.severity.name, d.message, d.range⟩

/-- The finding with its file named relative to a path. -/
def relativeTo (base : String) (f : PresentedFinding) : PresentedFinding :=
  { f with file := relativeUri base f.file }

end PresentedFinding

/-- The diagnostics of all files in turn, each with its file. -/
def CheckResult.entries (result : CheckResult) : List (String × Diagnostic) :=
  result.files.flatMap fun report => report.diagnostics.map fun d => (report.path, d)

/-- The findings of all files in turn. -/
def CheckResult.presented (result : CheckResult) : List PresentedFinding :=
  result.entries.map fun (file, d) => .ofDiagnostic file d

/-- A place among those from zero, which is written as its number among those from one. -/
def asPlace (value : Json) : Decoded Nat := do
  match ← value.asWord32 with
  | 0 => value.notA "a number that counts from one"
  | place + 1 => .ok place

/-- Where a kind of report says what : the way to its findings, and the ways into each of them. -/
structure ReportForm where
  findingsWay : List Step
  file : List Step
  rule : List Step
  level : List Step
  message : List Step
  startLine : List Step
  startColumn : List Step
  endLine : List Step
  endColumn : List Step

namespace ReportForm

def finding (form : ReportForm) (value : Json) : Decoded PresentedFinding := do
  let file ← value.asAt form.file asText
  let rule ← value.asAt form.rule asText
  let level ← value.asAt form.level asText
  let message ← value.asAt form.message asText
  let startLine ← value.asAt form.startLine asPlace
  let startColumn ← value.asAt form.startColumn asPlace
  let endLine ← value.asAt form.endLine asPlace
  let endColumn ← value.asAt form.endColumn asPlace
  return ⟨file, rule, level, message, ⟨⟨startLine, startColumn⟩, ⟨endLine, endColumn⟩⟩⟩

/-- The findings of a report. -/
def findings (form : ReportForm) : Json → Decoded (List PresentedFinding) :=
  asAt form.findingsWay (asList form.finding)

def data : ReportForm where
  findingsWay := [.member "diagnostics"]
  file := [.member "file"]
  rule := [.member "rule"]
  level := [.member "severity"]
  message := [.member "message"]
  startLine := [.member "line"]
  startColumn := [.member "column"]
  endLine := [.member "end_line"]
  endColumn := [.member "end_column"]

/-- The way into a result to its place. -/
def placeWay : List Step :=
  [.member "locations", .item 0, .member "physicalLocation"]

def sarif : ReportForm where
  findingsWay := [.member "runs", .item 0, .member "results"]
  file := placeWay ++ [.member "artifactLocation", .member "uri"]
  rule := [.member "ruleId"]
  level := [.member "level"]
  message := [.member "message", .member "text"]
  startLine := placeWay ++ [.member "region", .member "startLine"]
  startColumn := placeWay ++ [.member "region", .member "startColumn"]
  endLine := placeWay ++ [.member "region", .member "endLine"]
  endColumn := placeWay ++ [.member "region", .member "endColumn"]

end ReportForm

/-- The rules that a SARIF report lists, each with its level. -/
def sarifRules : Json → Decoded (List (String × String)) :=
  asAt [.member "runs", .item 0, .member "tool", .member "driver", .member "rules"] (asList rule)
where
  rule (value : Json) : Decoded (String × String) := do
    let name ← value.asAt [.member "id"] asText
    let level ← value.asAt [.member "defaultConfiguration", .member "level"] asText
    return (name, level)

/-! ## Reading the reports -/

/-- The numbers of a position have 32 bits when they count from one. -/
structure Position.FitsFromOne (p : Position) : Prop where
  line : p.line < 2 ^ 32 - 1
  character : p.character < 2 ^ 32 - 1

structure Range.FitsFromOne (r : Range) : Prop where
  start : r.start.FitsFromOne
  stop : r.stop.FitsFromOne

theorem reads_place {n : Nat} (hn : n < 2 ^ 32 - 1) : Reads asPlace (ofNat (n + 1)) n := by
  intro j hj
  rw [asPlace, reads_word32 (by omega) j hj, ok_bind]

/-- An entry that says what a finding is, each part where the form looks for it, is read as the
finding. -/
theorem ReportForm.reads_finding (form : ReportForm) {entry : Json} {f : PresentedFinding}
    (hfits : f.range.FitsFromOne)
    (hfile : entry.at? form.file = some (.text f.file))
    (hrule : entry.at? form.rule = some (.text f.rule))
    (hlevel : entry.at? form.level = some (.text f.level))
    (hmessage : entry.at? form.message = some (.text f.message))
    (hstartLine : entry.at? form.startLine = some (.ofNat (f.range.start.line + 1)))
    (hstartColumn : entry.at? form.startColumn = some (.ofNat (f.range.start.character + 1)))
    (hendLine : entry.at? form.endLine = some (.ofNat (f.range.stop.line + 1)))
    (hendColumn : entry.at? form.endColumn = some (.ofNat (f.range.stop.character + 1))) :
    Reads form.finding entry f := by
  intro j hj
  rw [finding, reads_at hfile (reads_text f.file) j hj, ok_bind,
    reads_at hrule (reads_text f.rule) j hj, ok_bind,
    reads_at hlevel (reads_text f.level) j hj, ok_bind,
    reads_at hmessage (reads_text f.message) j hj, ok_bind,
    reads_at hstartLine (reads_place hfits.start.line) j hj, ok_bind,
    reads_at hstartColumn (reads_place hfits.start.character) j hj, ok_bind,
    reads_at hendLine (reads_place hfits.stop.line) j hj, ok_bind,
    reads_at hendColumn (reads_place hfits.stop.character) j hj, ok_bind]
  rfl

/-- A severity has one name in both reports. -/
theorem Severity.level_eq_name (severity : Severity) : severity.level = severity.name := by
  cases severity <;> rfl

theorem Diagnostic.reads_data {d : Diagnostic} (hd : d.range.FitsFromOne) (file : String) :
    Reads ReportForm.data.finding (ReportedDiagnostic.ofDiagnostic file d).toJson
      (.ofDiagnostic file d) :=
  ReportForm.data.reads_finding hd rfl rfl rfl rfl rfl rfl rfl rfl

theorem Diagnostic.reads_sarif {d : Diagnostic} (hd : d.range.FitsFromOne) (base file : String) :
    Reads ReportForm.sarif.finding (SarifResult.ofDiagnostic base file d).toJson
      ((PresentedFinding.ofDiagnostic file d).relativeTo base) :=
  ReportForm.sarif.reads_finding hd rfl rfl
    (congrArg (fun level => some (Json.text level)) d.severity.level_eq_name)
    rfl rfl rfl rfl rfl

section

variable {result : CheckResult}

theorem CheckResult.map_snd_entries (result : CheckResult) :
    result.entries.map (·.2) = result.diagnostics := by
  simp [entries, diagnostics, List.map_flatMap, Function.comp_def]

theorem DataReport.diagnostics_ofResult (path : String) (config : Config) :
    (DataReport.ofResult path result config).diagnostics =
      result.entries.map fun (file, d) => .ofDiagnostic file d := by
  simp [ofResult, CheckResult.entries, List.map_flatMap, Function.comp_def]

theorem SarifReport.results_ofResult (base : String) :
    (SarifReport.ofResult base result).results =
      result.entries.map fun (file, d) => .ofDiagnostic base file d := by
  simp [ofResult, CheckResult.entries, List.map_flatMap, Function.comp_def]

theorem CheckResult.mem_diagnostics_of_mem_entries {entry : String × Diagnostic}
    (h : entry ∈ result.entries) : entry.2 ∈ result.diagnostics := by
  rw [← map_snd_entries]
  exact List.mem_map_of_mem h

theorem CheckResult.reads_data (h : ∀ d ∈ result.diagnostics, d.range.FitsFromOne)
    (path : String) (config : Config) :
    Reads ReportForm.data.findings (DataReport.ofResult path result config).toJson
      result.presented := by
  have hway : (DataReport.ofResult path result config).toJson.at? ReportForm.data.findingsWay =
      some (.list ((DataReport.ofResult path result config).diagnostics.map
        ReportedDiagnostic.toJson)) := rfl
  refine reads_at hway ?_
  rw [DataReport.diagnostics_ofResult, List.map_map]
  exact reads_map fun entry hentry =>
    Diagnostic.reads_data (h _ (mem_diagnostics_of_mem_entries hentry)) entry.1

theorem CheckResult.reads_sarif (h : ∀ d ∈ result.diagnostics, d.range.FitsFromOne)
    (base : String) :
    Reads ReportForm.sarif.findings (SarifReport.ofResult base result).toJson
      (result.presented.map (.relativeTo base)) := by
  have hway : (SarifReport.ofResult base result).toJson.at? ReportForm.sarif.findingsWay =
      some (.list ((SarifReport.ofResult base result).results.map SarifResult.toJson)) := rfl
  refine reads_at hway ?_
  rw [SarifReport.results_ofResult, presented, List.map_map, List.map_map]
  exact reads_map fun entry hentry =>
    Diagnostic.reads_sarif (h _ (mem_diagnostics_of_mem_entries hentry)) base entry.1

end

/-! ## Rules and counts -/

theorem CheckResult.reads_rules (result : CheckResult) (base : String) :
    Reads sarifRules (SarifReport.ofResult base result).toJson
      ((SarifReport.ofResult base result).rules.map fun rule => (rule.name, rule.defaultLevel)) := by
  have hway : (SarifReport.ofResult base result).toJson.at?
      [.member "runs", .item 0, .member "tool", .member "driver", .member "rules"] =
        some (.list ((SarifReport.ofResult base result).rules.map SarifReport.ruleJson)) := rfl
  refine reads_at hway (reads_map fun rule _ j hj => ?_)
  have hname : (SarifReport.ruleJson rule).at? [.member "id"] = some (.text rule.name) := rfl
  have hlevel : (SarifReport.ruleJson rule).at? [.member "defaultConfiguration", .member "level"] =
      some (.text rule.defaultLevel) := rfl
  rw [sarifRules.rule, reads_at hname (reads_text _) j hj, ok_bind,
    reads_at hlevel (reads_text _) j hj, ok_bind]
  rfl

theorem Rule.mem_all (rule : Rule) : rule ∈ Rule.all := by
  cases rule <;> decide

theorem Rule.name_injective : Function.Injective Rule.name := by
  intro rule other h
  cases rule <;> cases other <;> first | rfl | exact absurd h (by decide)

theorem SarifReport.pairwise_rules (base : String) (result : CheckResult) :
    (SarifReport.ofResult base result).rules.Pairwise (·.rank < ·.rank) :=
  List.Pairwise.filter _ (by decide : Rule.all.Pairwise (·.rank < ·.rank))

theorem SarifReport.mem_rules_iff {base : String} {result : CheckResult} {rule : Rule} :
    rule ∈ (SarifReport.ofResult base result).rules ↔ ∃ f ∈ result.presented, f.rule = rule.name := by
  have hrules : result.files.flatMap (fun report => report.diagnostics.map Diagnostic.rule) =
      result.entries.map (·.2.rule) := by
    simp [CheckResult.entries, List.map_flatMap, Function.comp_def]
  have hnames : result.presented.map PresentedFinding.rule =
      (result.entries.map (·.2.rule)).map Rule.name := by
    rw [CheckResult.presented, List.map_map, List.map_map]
    rfl
  rw [ofResult, hrules, List.mem_filter, List.contains_iff_mem, and_iff_right rule.mem_all,
    ← List.mem_map_of_injective Rule.name_injective, ← hnames, List.mem_map]

theorem CheckResult.length_presented (result : CheckResult) :
    result.presented.length = result.diagnostics.length := by
  rw [presented, List.length_map, ← map_snd_entries, List.length_map]

theorem CheckResult.countP_level (result : CheckResult) (level : String) :
    result.presented.countP (·.level = level) =
      result.diagnostics.countP (·.severity.name = level) := by
  rw [presented, List.countP_map, ← map_snd_entries, List.countP_map]
  rfl

theorem CheckResult.errorCount_eq (result : CheckResult) :
    result.errorCount = result.presented.countP (·.level = "error") := by
  rw [countP_level]
  refine List.countP_congr fun d _ => ?_
  cases hd : d.severity <;> simp [Diagnostic.isError, hd, Severity.name]

/-- What is not an error is a warning. -/
theorem CheckResult.warningCount_eq (result : CheckResult) :
    result.warningCount = result.presented.countP (·.level = "warning") := by
  have hsplit := List.length_eq_countP_add_countP Diagnostic.isError (l := result.diagnostics)
  have hwarnings : result.diagnostics.countP (¬Diagnostic.isError ·) =
      result.diagnostics.countP (·.severity.name = "warning") := by
    refine List.countP_congr fun d _ => ?_
    cases hd : d.severity <;> simp [Diagnostic.isError, hd, Severity.name]
  rw [countP_level, ← hwarnings, warningCount, RazenLint.warningCount, RazenLint.errorCount]
  omega

/-- The level of a finding is the one that its rule has in general. -/
theorem Finding.level_diagnostic (f : Finding) :
    f.diagnostic.severity.name = f.diagnostic.rule.defaultLevel := by
  cases f <;> rfl

/-- The diagnostics of every file come from an analysis of some text. -/
def CheckResult.Analyzed (result : CheckResult) : Prop :=
  ∀ report ∈ result.files, ∃ text, report.diagnostics = (analyze report.path text).diagnostics

theorem CheckResult.Analyzed.name_severity {result : CheckResult} (h : result.Analyzed)
    {d : Diagnostic} (hd : d ∈ result.diagnostics) : d.severity.name = d.rule.defaultLevel := by
  obtain ⟨report, hreport, hd⟩ := List.mem_flatMap.1 hd
  obtain ⟨text, hdiagnostics⟩ := h report hreport
  rw [hdiagnostics, analyze, diagnose_eq] at hd
  obtain ⟨f, -, rfl⟩ := List.mem_map.1 hd
  exact f.level_diagnostic

/-- Both reports on a result are read as its findings in turn, with the same rules, levels,
messages and places, which count from one in the reports. The errors and the warnings that the
data report counts are the findings with these levels, and there are no others. The rules of the
SARIF report stand in their order, each once, and are those of the findings. In a result of
analyses the level of every finding is the one that the report gives for its rule. -/
theorem reports_agree {result : CheckResult}
    (h : ∀ d ∈ result.diagnostics, d.range.FitsFromOne) (path base : String) (config : Config) :
    Reads ReportForm.data.findings (DataReport.ofResult path result config).toJson
        result.presented ∧
      Reads ReportForm.sarif.findings (SarifReport.ofResult base result).toJson
        (result.presented.map (.relativeTo base)) ∧
      (∃ errors warnings,
        (DataReport.ofResult path result config).toJson.member? "errors" = some (.ofNat errors) ∧
        (DataReport.ofResult path result config).toJson.member? "warnings" =
          some (.ofNat warnings) ∧
        errors = result.presented.countP (·.level = "error") ∧
        warnings = result.presented.countP (·.level = "warning") ∧
        errors + warnings = result.presented.length) ∧
      ∃ rules : List Rule,
        Reads sarifRules (SarifReport.ofResult base result).toJson
          (rules.map fun rule => (rule.name, rule.defaultLevel)) ∧
        rules.Pairwise (·.rank < ·.rank) ∧
        (∀ rule, rule ∈ rules ↔ ∃ f ∈ result.presented, f.rule = rule.name) ∧
        (result.Analyzed → ∀ f ∈ result.presented,
          ∃ rule ∈ rules, f.rule = rule.name ∧ f.level = rule.defaultLevel) := by
  refine ⟨CheckResult.reads_data h path config, CheckResult.reads_sarif h base,
    ⟨result.errorCount, result.warningCount, rfl, rfl, result.errorCount_eq,
      result.warningCount_eq, ?_⟩,
    (SarifReport.ofResult base result).rules, result.reads_rules base,
    SarifReport.pairwise_rules base result, fun _ => SarifReport.mem_rules_iff,
    fun hanalyzed f hf => ?_⟩
  · rw [result.length_presented]
    exact Nat.add_sub_cancel' List.countP_le_length
  · obtain ⟨⟨file, d⟩, hentry, rfl⟩ := List.mem_map.1 hf
    exact ⟨d.rule, SarifReport.mem_rules_iff.2 ⟨_, hf, rfl⟩, rfl,
      hanalyzed.name_severity (CheckResult.mem_diagnostics_of_mem_entries hentry)⟩

/-- A file with a deprecated call of an unknown function, and a file without findings. -/
def cubeSample : CheckResult :=
  ⟨[⟨"p/a.rzn", (analyze "p/a.rzn" "Mathlib[cube](3)").diagnostics⟩,
    ⟨"p/b.rzn", (analyze "p/b.rzn" "").diagnostics⟩], [], 2⟩

theorem map_range_cubeSample : cubeSample.diagnostics.map (·.range) =
    [⟨⟨0, 0⟩, ⟨0, 16⟩⟩, ⟨⟨0, 8⟩, ⟨0, 12⟩⟩] := by
  simp only [CheckResult.diagnostics, cubeSample, List.flatMap_cons, List.flatMap_nil, analyze,
    diagnose_eq]
  decide +kernel

/-- Both findings are read from both reports. -/
theorem reports_agree_cubeSample :
    (∀ d ∈ cubeSample.diagnostics, d.range.FitsFromOne) ∧ cubeSample.Analyzed ∧
      cubeSample.presented.length = 2 ∧
      ReportForm.data.findings (DataReport.ofResult "p" cubeSample .standard).toJson =
        .ok cubeSample.presented ∧
      ReportForm.sarif.findings (SarifReport.ofResult "p" cubeSample).toJson =
        .ok (cubeSample.presented.map (.relativeTo "p")) := by
  have hfits : ∀ d ∈ cubeSample.diagnostics, d.range.FitsFromOne := by
    intro d hd
    have hrange := List.mem_map_of_mem (f := Diagnostic.range) hd
    rw [map_range_cubeSample, List.mem_pair] at hrange
    rcases hrange with hrange | hrange <;> rw [hrange] <;>
      exact ⟨⟨by decide, by decide⟩, ⟨by decide, by decide⟩⟩
  have hanalyzed : cubeSample.Analyzed :=
    List.forall_mem_cons.2 ⟨⟨_, rfl⟩, List.forall_mem_singleton.2 ⟨_, rfl⟩⟩
  have hlength : cubeSample.presented.length = 2 := by
    rw [CheckResult.length_presented, ← List.length_map (f := Diagnostic.range),
      map_range_cubeSample]
    rfl
  obtain ⟨hdata, hsarif, -⟩ := reports_agree hfits "p" "p" .standard
  exact ⟨hfits, hanalyzed, hlength, hdata _ rfl, hsarif _ rfl⟩

end RazenLint
