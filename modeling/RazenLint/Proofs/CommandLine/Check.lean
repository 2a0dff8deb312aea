import RazenLint.CommandLine.Run
import RazenLint.Proofs.Check.Result
import RazenLint.Proofs.Diagnostic
import RazenLint.Proofs.Wire.RoundTrip

/-!
# The check command

A check goes through the files that it collects (`GoesThrough`), and what it comes to is a report
of them all (`checkOutcome`). Its exit code is the verdict on them : it fails when a file that can
be read has an error, or any diagnostic at all under a configuration that fails on warnings
(`FileSystem.Fails`, `passed_checkFiles_iff`). The form of the report and the order of the files
have no part in it (`exitCode_runCheck`).
-/

namespace RazenLint

open Text

variable {read : Yaml.DocumentReader} {files : FileSystem}

/-! ## The verdict -/

/-- Some file of a list can be read and has a diagnostic of a kind. -/
def FileSystem.Finds (files : FileSystem) (paths : List String) (p : Diagnostic → Prop) : Prop :=
  ∃ path ∈ paths, ∃ text, files.Holds path text ∧
    ∃ d ∈ (analyze path (String.ofList text)).diagnostics, p d

/-- The files of a list have errors, or any diagnostics where warnings count. -/
def FileSystem.Fails (files : FileSystem) (config : Config) (paths : List String) : Prop :=
  files.Finds paths (·.isError = true) ∨
    config.failOnWarnings = true ∧ files.Finds paths fun _ => True

theorem report?_eq_some_iff {path : String} {report : FileReport} :
    report? files path = some report ↔ ∃ text, files.Holds path text ∧
      report = ⟨path, (analyze path (String.ofList text)).diagnostics⟩ := by
  cases hread : files.readText path with
  | ok text =>
    have htext := FileSystem.readText_eq_ok_iff.1 hread
    rw [report?_of_readText hread, Option.some_inj]
    constructor
    · rintro rfl
      exact ⟨text, htext, rfl⟩
    · rintro ⟨other, hother, rfl⟩
      obtain rfl := Except.ok.inj (hread.symm.trans (FileSystem.readText_eq_ok_iff.2 hother))
      rfl
  | error reason =>
    rw [report?_of_error hread]
    refine ⟨nofun, fun ⟨text, htext, _⟩ => ?_⟩
    cases hread.symm.trans (FileSystem.readText_eq_ok_iff.2 htext)

/-- The diagnostics of a check are those of the files that can be read. -/
theorem exists_mem_diagnostics_checkFiles_iff {paths : List String} {p : Diagnostic → Prop} :
    (∃ d ∈ (checkFiles files paths).diagnostics, p d) ↔ files.Finds paths p := by
  rw [checkFiles_eq]
  simp only [CheckResult.diagnostics, List.mem_flatMap, (perm_sortByPath _ _).mem_iff,
    List.mem_filterMap, report?_eq_some_iff]
  constructor
  · rintro ⟨d, ⟨_, ⟨path, hpath, text, htext, rfl⟩, hd⟩, hp⟩
    exact ⟨path, hpath, text, htext, d, hd, hp⟩
  · rintro ⟨path, hpath, text, htext, d, hd, hp⟩
    exact ⟨d, ⟨_, ⟨path, hpath, text, htext, rfl⟩, hd⟩, hp⟩

/-- What does not pass has an error, or a diagnostic of any kind where warnings count. -/
theorem CheckResult.passed_eq_false_iff (result : CheckResult) (config : Config) :
    result.passed config = false ↔ (∃ d ∈ result.diagnostics, d.isError = true) ∨
      config.failOnWarnings = true ∧ ∃ d ∈ result.diagnostics, True := by
  have herrors : result.errorCount = 0 ↔ ¬∃ d ∈ result.diagnostics, d.isError = true := by
    rw [errorCount, RazenLint.errorCount, List.countP_eq_zero]
    simp
  by_cases hnone : result.errorCount = 0
  · have hwarnings : 0 < result.warningCount ↔ ∃ d ∈ result.diagnostics, True := by
      rw [warningCount, RazenLint.warningCount, ← errorCount, hnone, Nat.sub_zero,
        List.length_pos_iff_exists_mem]
      simp
    rw [← hwarnings, or_iff_right (herrors.1 hnone)]
    simp [passed, hnone]
  · have herror : ∃ d ∈ result.diagnostics, d.isError = true :=
      not_not.1 (mt herrors.2 hnone)
    simp [passed, hnone, herror]

/-- A check passes when its files do not fail. -/
theorem passed_checkFiles_iff (config : Config) (paths : List String) :
    (checkFiles files paths).passed config = true ↔ ¬files.Fails config paths := by
  rw [← Bool.not_eq_false, CheckResult.passed_eq_false_iff, exists_mem_diagnostics_checkFiles_iff,
    exists_mem_diagnostics_checkFiles_iff, FileSystem.Fails]

theorem passed_checkFiles_perm {others paths : List String} (h : others.Perm paths)
    (config : Config) :
    (checkFiles files others).passed config = (checkFiles files paths).passed config := by
  rw [Bool.eq_iff_iff, passed_checkFiles_iff, passed_checkFiles_iff]
  simp only [FileSystem.Fails, FileSystem.Finds, h.mem_iff]

/-! ## Runs -/

theorem files_runCheck (read : Yaml.DocumentReader) (files : FileSystem) (colors : Bool)
    (target : String) (explicit : Option String) (format : ReportFormat) :
    (runCheck read files colors target explicit format).files = files := by
  rw [runCheck]
  split
  · rfl
  · split
    · rfl
    · split <;> rfl

/-- A check goes through some paths : its configuration loads, its target is there, and these are
the files to check. -/
structure GoesThrough (read : Yaml.DocumentReader) (files : FileSystem) (target : String)
    (explicit : Option String) (config : Config) (root : String) (paths : List String) : Prop where
  loaded : Config.load files (explicit <|> Config.discover? files) read = .ok config
  found : files.canonical target = .ok root
  collected : collectFiles files config root = .ok paths
  nonempty : paths ≠ []

/-- What a check comes to that goes through some paths : a report of them all. -/
def checkOutcome (files : FileSystem) (colors : Bool) (target : String) (explicit : Option String)
    (format : ReportFormat) (config : Config) (root : String) (paths : List String) :
    CommandOutcome :=
  .wrote files (if (checkFiles files paths).passed config then exitSuccess else exitFailed)
    (reportText colors format target root
      ((explicit <|> Config.discover? files).getD "(defaults)") (checkFiles files paths) config)

theorem GoesThrough.runCheck_eq {target root : String} {explicit : Option String} {config : Config}
    {paths : List String} (h : GoesThrough read files target explicit config root paths)
    (colors : Bool) (format : ReportFormat) : runCheck read files colors target explicit format =
      checkOutcome files colors target explicit format config root paths := by
  obtain ⟨first, rest, rfl⟩ := List.exists_cons_of_ne_nil h.nonempty
  simp only [runCheck, h.loaded, h.found, h.collected]
  rfl

theorem runCheck_of_load_error {explicit : Option String} {e : ConfigError}
    (h : Config.load files (explicit <|> Config.discover? files) read = .error e) (target : String)
    (colors : Bool) (format : ReportFormat) : runCheck read files colors target explicit format =
      .refused files (configErrorLines e) := by
  simp only [runCheck, h]

/-! ## The exit code -/

/-- The exit code of a check with files. -/
def exitCodeOf (passed : Bool) : Nat :=
  if passed then exitSuccess else exitFailed

theorem exitCodeOf_eq_zero_iff {passed : Bool} : exitCodeOf passed = 0 ↔ passed = true := by
  cases passed <;> decide

theorem exitCodeOf_eq_one_iff {passed : Bool} : exitCodeOf passed = 1 ↔ passed = false := by
  cases passed <;> decide

/-- An exit code that is the verdict of a check on some paths : the same in all formats, 1 when
the files fail and 0 otherwise, whatever order they are looked at in. The data report on the files
is written with this verdict, and read back with it if its numbers fit. -/
structure IsVerdict (read : Yaml.DocumentReader) (files : FileSystem) (target : String)
    (explicit : Option String) (config : Config) (paths : List String) (exitCode : Nat) : Prop where
  formats : ∀ colors format,
    (runCheck read files colors target explicit format).exitCode = exitCode
  fails : exitCode = 1 ↔ files.Fails config paths
  passes : exitCode = 0 ↔ ¬files.Fails config paths
  order : ∀ others : List String, others.Perm paths →
    (checkFiles files others).passed config = decide (exitCode = 0)
  reported : paths ≠ [] → ∃ report : DataReport,
    (∀ colors, (runCheck read files colors target explicit .json).output = report.text) ∧
      report.toJson.member? "passed" = some (.bool (decide (exitCode = 0))) ∧
      (report.Fits → ∃ j, Json.ofText report.text.toList = .ok j ∧
        (DataReport.ofJson j).map (·.passed) = .ok (decide (exitCode = 0)))

section

variable {target root : String} {explicit : Option String} {config : Config} {paths : List String}
  (hloaded : Config.load files (explicit <|> Config.discover? files) read = .ok config)
include hloaded

theorem runCheck_of_canonical_error {e : FileError} (h : files.canonical target = .error e)
    (colors : Bool) (format : ReportFormat) :
    runCheck read files colors target explicit format = .refused files
      ["Error: cannot access path " ++ Text.quotedName target ++ ": " ++ e.message] := by
  simp only [runCheck, hloaded, h]

variable (hfound : files.canonical target = .ok root)
include hfound

/-- Without files a check passes and reports nothing. -/
theorem runCheck_of_nil (hcollected : collectFiles files config root = .ok []) (colors : Bool)
    (format : ReportFormat) : runCheck read files colors target explicit format =
      ⟨exitSuccess, "", "Warning: no files to scan\n", none, files⟩ := by
  simp only [runCheck, hloaded, hfound, hcollected]

variable (hcollected : collectFiles files config root = .ok paths)
include hcollected

theorem exitCode_of_collected (colors : Bool) (format : ReportFormat) :
    (runCheck read files colors target explicit format).exitCode =
      exitCodeOf ((checkFiles files paths).passed config) := by
  by_cases hnil : paths = []
  · subst hnil
    have hpassed : (checkFiles files []).passed config = true := by
      rw [passed_checkFiles_iff]
      simp [FileSystem.Fails, FileSystem.Finds]
    rw [runCheck_of_nil hloaded hfound hcollected, hpassed]
    rfl
  · rw [GoesThrough.runCheck_eq ⟨hloaded, hfound, hcollected, hnil⟩]
    rfl

theorem isVerdict_of_collected : IsVerdict read files target explicit config paths
    (exitCodeOf ((checkFiles files paths).passed config)) := by
  have hpassed : decide (exitCodeOf ((checkFiles files paths).passed config) = 0) =
      (checkFiles files paths).passed config := by
    simp only [exitCodeOf_eq_zero_iff, Bool.decide_eq_true]
  refine ⟨exitCode_of_collected hloaded hfound hcollected, ?_, ?_, fun others hperm => ?_,
    fun hnonempty => ⟨.ofResult target (checkFiles files paths) config, fun colors => ?_, ?_,
      fun hfits => ?_⟩⟩
  · rw [exitCodeOf_eq_one_iff, ← Bool.not_eq_true, passed_checkFiles_iff, not_not]
  · rw [exitCodeOf_eq_zero_iff, passed_checkFiles_iff]
  · rw [hpassed, passed_checkFiles_perm hperm]
  · rw [GoesThrough.runCheck_eq ⟨hloaded, hfound, hcollected, hnonempty⟩]
    rfl
  · rw [hpassed]
    rfl
  · obtain ⟨j, hread, hreport⟩ := DataReport.reads_text hfits
    refine ⟨j, hread, ?_⟩
    rw [hreport, hpassed]
    rfl

end

/-- Where the configuration loads, the target is there and files are collected, the exit code of a
check is the verdict on these files. Where the configuration does not load, or the target cannot
be reached, the exit code is 2 and nothing is written. So it is however the documents of
configurations are read. -/
theorem exitCode_runCheck (read : Yaml.DocumentReader) (files : FileSystem) (target : String)
    (explicit : Option String) :
    (∀ config root paths,
      Config.load files (explicit <|> Config.discover? files) read = .ok config →
      files.canonical target = .ok root → collectFiles files config root = .ok paths →
      ∃ exitCode, IsVerdict read files target explicit config paths exitCode) ∧
    (∀ e, Config.load files (explicit <|> Config.discover? files) read = .error e →
      ∀ colors format,
        (runCheck read files colors target explicit format).exitCode = 2 ∧
          (runCheck read files colors target explicit format).output = "") ∧
    ∀ config e, Config.load files (explicit <|> Config.discover? files) read = .ok config →
      files.canonical target = .error e → ∀ colors format,
        (runCheck read files colors target explicit format).exitCode = 2 ∧
          (runCheck read files colors target explicit format).output = "" := by
  refine ⟨fun config root paths hloaded hfound hcollected =>
    ⟨_, isVerdict_of_collected hloaded hfound hcollected⟩, fun e h colors format => ?_,
    fun config e hloaded h colors format => ?_⟩
  · rw [runCheck_of_load_error h]
    exact ⟨rfl, rfl⟩
  · rw [runCheck_of_canonical_error hloaded h]
    exact ⟨rfl, rfl⟩

/-- Without the names of configuration files in it, a root directory configures nothing. -/
theorem discover?_root {entries : List (String × FileTree)}
    (h : ∀ name ∈ ["razencheck.yaml", ".razencheck.yaml", "razencheck"],
      entries.lookup name = none) : Config.discover? ⟨.dir entries, [], "/"⟩ = none := by
  obtain ⟨hmain, hhidden, huser, -⟩ : _ ∧ _ ∧ _ ∧ _ := by simpa only [List.forall_mem_cons] using h
  have hpaths : Config.candidates ⟨.dir entries, [], "/"⟩ =
      ["/razencheck.yaml", "/.razencheck.yaml", "/razencheck/razencheck.yaml"] := by
    change Config.fileNames.map (Path.join (FileSystem.placePath []) ·) ++
      [Path.join (Path.join "/" Config.candidates.sourceDirectory) Config.mainFileName] = _
    decide +kernel
  have hmissing : ∀ path ∈ ["/razencheck.yaml", "/.razencheck.yaml", "/razencheck/razencheck.yaml"],
      FileSystem.find ⟨.dir entries, [], "/"⟩ path = .error .notFound := by
    simp only [List.forall_mem_cons]
    refine ⟨FileSystem.find_rootMissing rfl rfl (by decide +kernel : FileSystem.HasSteps _
        [.stay, .name "razencheck.yaml"]) (by decide +kernel) hmain,
      FileSystem.find_rootMissing rfl rfl (by decide +kernel : FileSystem.HasSteps _
        [.stay, .name ".razencheck.yaml"]) (by decide +kernel) hhidden,
      FileSystem.find_rootMissing rfl rfl (by decide +kernel : FileSystem.HasSteps _
        [.stay, .name "razencheck", .name "razencheck.yaml"]) (by decide +kernel) huser,
      List.forall_mem_nil _⟩
  rw [Config.discover?, hpaths, List.find?_eq_none]
  intro path hpath
  simp [FileSystem.isFile, hmissing path hpath]

theorem load_root {entries : List (String × FileTree)}
    (h : ∀ name ∈ ["razencheck.yaml", ".razencheck.yaml", "razencheck"],
      entries.lookup name = none) :
    Config.load ⟨.dir entries, [], "/"⟩ (none <|> Config.discover? ⟨.dir entries, [], "/"⟩) read =
      .ok .standard := by
  rw [discover?_root h]
  change Config.load _ none read = _
  rw [Config.load, discover?_root h]
  rfl

theorem collectFiles_of_file {root : String} {place : Place} {bytes : List UInt8}
    (h : files.find root = .ok (place, .file bytes)) (config : Config) :
    collectFiles files config root = .ok [root] := by
  rw [collectFiles, h]
  rfl

/-- What a check finds in one file with a text are the diagnostics of the text. -/
theorem finds_singleton_iff {path : String} {text : List Char} (h : files.Holds path text)
    {p : Diagnostic → Prop} : files.Finds [path] p ↔ ∃ d ∈ diagnose text, p d := by
  constructor
  · rintro ⟨other, hother, found, hfound, d, hd, hp⟩
    obtain rfl := List.mem_singleton.1 hother
    obtain rfl := Except.ok.inj
      ((FileSystem.readText_eq_ok_iff.2 hfound).symm.trans (FileSystem.readText_eq_ok_iff.2 h))
    rw [analyze, String.toList_ofList] at hd
    exact ⟨d, hd, hp⟩
  · rintro ⟨d, hd, hp⟩
    exact ⟨path, List.mem_singleton_self path, text, h, d,
      by rwa [analyze, String.toList_ofList], hp⟩

/-- A file that is no text, and one with a text. -/
def callSample (text : List Char) : FileSystem :=
  ⟨.dir [("a", .file [0xFF]), ("f.rzn", .file (encodeUtf8 text))], [], "/"⟩

theorem find_callSample (text : List Char) :
    (callSample text).find "f.rzn" = .ok (["f.rzn"], .file (encodeUtf8 text)) ∧
      (callSample text).find "/f.rzn" = .ok (["f.rzn"], .file (encodeUtf8 text)) ∧
      (callSample text).find "a" = .ok (["a"], .file [0xFF]) := by
  refine ⟨FileSystem.find_rootEntry rfl rfl ?_ ?_ rfl (by simp),
    FileSystem.find_rootEntry rfl rfl ?_ ?_ rfl (by simp),
    FileSystem.find_rootEntry rfl rfl ?_ ?_ rfl (by simp)⟩ <;> decide +kernel

theorem goesThrough_callSample (read : Yaml.DocumentReader) (text : List Char) :
    GoesThrough read (callSample text) "f.rzn" none .standard "/f.rzn" ["/f.rzn"] where
  loaded := load_root (by simp [List.lookup_cons])
  found := by
    rw [FileSystem.canonical, (find_callSample text).1]
    rfl
  collected := collectFiles_of_file (find_callSample text).2.1 _
  nonempty := by decide

/-- A configuration under which warnings count. It has an anchor with a reference, a tag, and a
scalar below its indicator. -/
def strictText : List Char :=
  "x: &on !!bool true\nversion: |-\n  2\nfail_on_warnings: *on\n".toList

/-- A file with a call in the old form, beside that configuration. -/
def strictSample : FileSystem :=
  ⟨.dir [("c", .file (encodeUtf8 strictText)),
    ("f.rzn", .file (encodeUtf8 "ArrLib[push](x, 1)".toList))], [], "/"⟩

theorem find_strictSample :
    strictSample.find "c" = .ok (["c"], .file (encodeUtf8 strictText)) ∧
      strictSample.find "f.rzn" =
        .ok (["f.rzn"], .file (encodeUtf8 "ArrLib[push](x, 1)".toList)) ∧
      strictSample.find "/f.rzn" =
        .ok (["f.rzn"], .file (encodeUtf8 "ArrLib[push](x, 1)".toList)) ∧
      strictSample.find "/g" = .error .notFound := by
  refine ⟨FileSystem.find_rootEntry rfl rfl ?_ ?_ rfl (by simp),
    FileSystem.find_rootEntry rfl rfl ?_ ?_ rfl (by simp),
    FileSystem.find_rootEntry rfl rfl ?_ ?_ rfl (by simp),
    FileSystem.find_rootMissing rfl rfl (by decide +kernel : FileSystem.HasSteps _
      [.stay, .name "g"]) ?_ rfl⟩ <;> decide +kernel

theorem load_strictSample :
    Config.load strictSample (none <|> Config.discover? strictSample) = .ok .standard ∧
      Config.load strictSample (some "c" <|> Config.discover? strictSample) =
        .ok ⟨"2", ["rzn"], [], true⟩ ∧
      Config.load strictSample (some "f.rzn" <|> Config.discover? strictSample) =
        .error (.malformed "f.rzn" (.unexpectedType "struct Config")) := by
  refine ⟨load_root (by simp [List.lookup_cons]), ?_, ?_⟩
  · have hread : Yaml.ofText strictText >>= Config.ofYaml = .ok ⟨"2", ["rzn"], [], true⟩ := by
      decide +kernel
    change Config.ofFile Yaml.ofText strictSample "c" = _
    rw [Config.ofFile, FileSystem.readText_eq_ok_iff.2 ⟨_, find_strictSample.1⟩]
    simp only [hread]
    decide +kernel
  · have hread : Yaml.ofText "ArrLib[push](x, 1)".toList >>= Config.ofYaml =
        .error (.unexpectedType "struct Config") := by decide +kernel
    change Config.ofFile Yaml.ofText strictSample "f.rzn" = _
    rw [Config.ofFile, FileSystem.readText_eq_ok_iff.2 ⟨_, find_strictSample.2.1⟩]
    simp only [hread]

theorem fails_strictSample :
    ¬strictSample.Fails .standard ["/f.rzn"] ∧
      strictSample.Fails ⟨"2", ["rzn"], [], true⟩ ["/f.rzn"] := by
  have hwarnings : (diagnose "ArrLib[push](x, 1)".toList).all (!·.isError) = true ∧
      (diagnose "ArrLib[push](x, 1)".toList) ≠ [] := by
    rw [diagnose_eq]
    decide +kernel
  simp only [FileSystem.Fails, finds_singleton_iff ⟨_, find_strictSample.2.2.1⟩]
  constructor
  · rintro (⟨d, hd, herror⟩ | ⟨hwarnings, -⟩)
    · simpa [herror] using List.all_eq_true.1 hwarnings.1 d hd
    · cases hwarnings
  · obtain ⟨d, hd⟩ := List.exists_mem_of_ne_nil _ hwarnings.2
    exact Or.inr ⟨trivial, d, hd, trivial⟩

/-- A call in the old form passes the check in every format, and fails it under a configuration
where warnings count. A file that holds no configuration is refused, and so is a path that leads
nowhere. -/
theorem exitCode_runCheck_strictSample :
    (∀ colors format,
      (runCheck Yaml.ofText strictSample colors "f.rzn" none format).exitCode = 0) ∧
    (∀ colors format,
      (runCheck Yaml.ofText strictSample colors "f.rzn" (some "c") format).exitCode = 1) ∧
    (runCheck Yaml.ofText strictSample false "f.rzn" (some "f.rzn") .json).exitCode = 2 ∧
    (runCheck Yaml.ofText strictSample false "f.rzn" (some "f.rzn") .json).output = "" ∧
    (runCheck Yaml.ofText strictSample false "/g" none .json).exitCode = 2 ∧
    (runCheck Yaml.ofText strictSample false "/g" none .json).output = "" := by
  obtain ⟨hstandard, hloaded, hmalformed⟩ := load_strictSample
  obtain ⟨-, hfile, hroot, hmissing⟩ := find_strictSample
  have hcanonical : strictSample.canonical "f.rzn" = .ok "/f.rzn" := by
    rw [FileSystem.canonical, hfile]
    rfl
  have hnowhere : strictSample.canonical "/g" = .error .notFound := by
    rw [FileSystem.canonical, hmissing]
    rfl
  obtain ⟨hchecked, -, -⟩ := exitCode_runCheck Yaml.ofText strictSample "f.rzn" none
  obtain ⟨hstrict, -, -⟩ := exitCode_runCheck Yaml.ofText strictSample "f.rzn" (some "c")
  obtain ⟨-, hrefused, -⟩ := exitCode_runCheck Yaml.ofText strictSample "f.rzn" (some "f.rzn")
  obtain ⟨-, -, hlost⟩ := exitCode_runCheck Yaml.ofText strictSample "/g" none
  obtain ⟨_, hpassed⟩ := hchecked _ _ _ hstandard hcanonical (collectFiles_of_file hroot _)
  obtain ⟨_, hfailed⟩ := hstrict _ _ _ hloaded hcanonical (collectFiles_of_file hroot _)
  obtain ⟨hcode, houtput⟩ := hrefused _ hmalformed false .json
  obtain ⟨hlostCode, hlostOutput⟩ := hlost _ _ hstandard hnowhere false .json
  obtain ⟨hpasses, hfails⟩ := fails_strictSample
  exact ⟨fun colors format => (hpassed.formats colors format).trans (hpassed.passes.2 hpasses),
    fun colors format => (hfailed.formats colors format).trans (hfailed.fails.2 hfails), hcode,
    houtput, hlostCode, hlostOutput⟩

end RazenLint
