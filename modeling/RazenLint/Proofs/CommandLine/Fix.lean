import RazenLint.Proofs.Check.Search
import RazenLint.Proofs.CommandLine.Check
import RazenLint.Proofs.Fix.Open

/-!
# The fix command

A run of the fix command that can read its file makes all fixes in it, and no run changes anything
else (`files_runFix`). Once a file is fixed, and nothing but bytes of files is different
(`FixedIn`), it stays so in every run of a fix or a check (`Runs.fixedIn`) : what is fixed has no
fixes left. So a later fix of the file does nothing, and what later checks say about it is what
checks said before without the calls that are fixed (`Rechecked`).
-/

namespace RazenLint

open Text

variable {files later : FileSystem} {path : String} {place : Place} {text : List Char}

/-! ## One run -/

/-- What a run says that writes the fixes of a file. -/
def fixSummary (path : String) (count : Nat) : String :=
  "Applied " ++ toString count ++ " fix(es) to " ++ path ++ "\n"

/-- The file system after the text at a place is fixed. -/
def FileSystem.fixAt (files : FileSystem) (place : Place) (text : List Char) : FileSystem :=
  if (fixAll text).2 = 0 then files else files.put place (.file (encodeUtf8 (fixAll text).1))

theorem runFix_of_error {reason : FileError} (h : files.readText path = .error reason)
    (write : Bool) : runFix files path write =
      .failed files ("failed to read " ++ path ++ ": " ++ reason.message) := by
  rw [runFix, withSource, h]

theorem runFix_of_find (h : files.find path = .ok (place, .file (encodeUtf8 text)))
    (write : Bool) : runFix files path write =
      if write then
        ⟨exitSuccess, "", fixSummary path (fixAll text).2, none, files.fixAt place text⟩
      else .wrote files exitSuccess (String.ofList (fixAll text).1) := by
  rw [runFix, withSource, FileSystem.readText_eq_ok_iff.2 ⟨place, h⟩]
  dsimp only
  cases write with
  | false => rfl
  | true =>
    by_cases hcount : (fixAll text).2 = 0
    · simp [hcount, FileSystem.fixAt, fixSummary]
    · simp [hcount, FileSystem.fixAt, fixSummary, FileSystem.write_of_find h]

/-- A run changes nothing, or it writes and fixes the file that it reads. -/
theorem files_runFix (files : FileSystem) (path : String) (write : Bool) :
    (runFix files path write).files = files ∨ write = true ∧
      ∃ place text, files.find path = .ok (place, .file (encodeUtf8 text)) ∧
        (runFix files path write).files = files.fixAt place text := by
  cases hread : files.readText path with
  | error reason => exact Or.inl (by rw [runFix_of_error hread, CommandOutcome.failed])
  | ok text =>
    obtain ⟨place, hfind⟩ := FileSystem.readText_eq_ok_iff.1 hread
    rw [runFix_of_find hfind]
    cases write with
    | false => exact Or.inl rfl
    | true => exact Or.inr ⟨rfl, place, text, hfind, rfl⟩

/-! ## A file that is fixed -/

/-- A file is fixed in a later file system, which differs in nothing but bytes of files. -/
structure FixedIn (files : FileSystem) (place : Place) (text : List Char) (later : FileSystem) :
    Prop where
  alike : files.Alike later
  shape : files.tree.SameShape later.tree
  node : later.tree.node? place = some (.file (encodeUtf8 (fixAll text).1))

theorem FixedIn.fixAt (h : files.find path = .ok (place, .file (encodeUtf8 text))) :
    FixedIn files place text (files.fixAt place text) := by
  have hat := FileSystem.at?_of_find h
  by_cases hcount : (fixAll text).2 = 0
  · rw [FileSystem.fixAt, if_pos hcount]
    refine ⟨.refl files, .refl _, ?_⟩
    rw [FileTree.node?, hat, fixAll_of_count hcount]
    rfl
  · rw [FileSystem.fixAt, if_neg hcount]
    exact ⟨.put _ hat, .put _ hat,
      (FileTree.node?_put _ hat place).trans (if_pos rfl)⟩

namespace FixedIn

variable (h : FixedIn files place text later)
include h

theorem find_eq {found : FileTree} (hfind : files.find path = .ok (place, found)) :
    later.find path = .ok (place, .file (encodeUtf8 (fixAll text).1)) :=
  h.alike.find_of_node? hfind h.node

/-- A run of the fix command on any file leaves a fixed file as it is. -/
theorem fix (path : String) (write : Bool) :
    FixedIn files place text (runFix later path write).files := by
  obtain hfiles | ⟨-, other, content, hfind, hfiles⟩ := files_runFix later path write
  · rwa [hfiles]
  · rw [hfiles, FileSystem.fixAt]
    split
    · exact h
    · rename_i hcount
      have hat := FileSystem.at?_of_find hfind
      have hother : place ≠ other := by
        rintro rfl
        have hnode := h.node
        rw [FileTree.node?, hat, Option.map_some, FileTree.node, Option.some_inj,
          Node.file.injEq] at hnode
        rw [encodeUtf8_injective hnode, fixAll_fixAll] at hcount
        exact hcount rfl
      exact ⟨h.alike.trans (.put _ hat), h.shape.trans (.put _ hat),
        (FileTree.node?_put _ hat place).trans ((if_neg hother).trans h.node)⟩

end FixedIn

/-- Runs of the fix command and of checks, on whatever they are asked for. -/
inductive Runs (files : FileSystem) : FileSystem → Prop
  | start : Runs files files
  | fix {later : FileSystem} (before : Runs files later) (path : String) (write : Bool) :
      Runs files (runFix later path write).files
  | check {later : FileSystem} (before : Runs files later) (read : Yaml.DocumentReader)
      (colors : Bool) (target : String) (explicit : Option String) (format : ReportFormat) :
      Runs files (runCheck read later colors target explicit format).files

theorem Runs.fixedIn {first : FileSystem} (h : Runs first later)
    (hfirst : FixedIn files place text first) : FixedIn files place text later := by
  induction h with
  | start => exact hfirst
  | fix _ path write ih => exact ih.fix path write
  | check _ read colors target explicit format ih => rwa [files_runCheck]

/-! ## Checks before and after -/

/-- A check goes through the same files after a fix, if it has the same configuration. -/
theorem FixedIn.goesThrough (h : FixedIn files place text later) {read : Yaml.DocumentReader}
    {target root : String} {explicit : Option String} {config : Config} {paths : List String}
    (hbefore : GoesThrough read files target explicit config root paths)
    (hloaded : Config.load later (explicit <|> Config.discover? later) read = .ok config) :
    GoesThrough read later target explicit config root paths where
  loaded := hloaded
  found := (h.alike.canonical_eq target).trans hbefore.found
  collected := (collectFiles_congr h.alike h.shape config root).trans hbefore.collected
  nonempty := hbefore.nonempty

/-- What checks say before and after the text of a file is fixed. Each path that leads to the file
has the diagnostics of the text before, and those of the fixed text after. They are the same up to
their columns, without those about calls that their line closes. -/
structure Rechecked (files : FileSystem) (place : Place) (text : List Char) (later : FileSystem) :
    Prop where
  reported : ∀ (read : Yaml.DocumentReader) (colors : Bool) (target : String)
    (explicit : Option String) (format : ReportFormat) (config : Config) (root : String)
    (paths : List String),
    GoesThrough read files target explicit config root paths →
    Config.load later (explicit <|> Config.discover? later) read = .ok config →
    runCheck read files colors target explicit format =
        checkOutcome files colors target explicit format config root paths ∧
      runCheck read later colors target explicit format =
        checkOutcome later colors target explicit format config root paths
  before : ∀ (paths : List String) (path : String) (found : FileTree),
    files.find path = .ok (place, found) →
    (checkFiles files paths).files.filter (·.path = path) =
      List.replicate (paths.count path) ⟨path, diagnose text⟩
  after : ∀ (paths : List String) (path : String) (found : FileTree),
    files.find path = .ok (place, found) →
    (checkFiles later paths).files.filter (·.path = path) =
      List.replicate (paths.count path) ⟨path, diagnose (fixAll text).1⟩
  settled : ∀ d ∈ diagnose (fixAll text).1, d.isClosedCall (fixAll text).1 = false
  kept : List.Forall₂ Diagnostic.AgreeUpToColumns
    ((diagnose text).filter fun d => !d.isClosedCall text) (diagnose (fixAll text).1)

theorem FixedIn.rechecked (h : FixedIn files place text later)
    (hat : files.tree.at? place = some (.file (encodeUtf8 text))) :
    Rechecked files place text later where
  reported read colors target explicit format config root paths hbefore hloaded :=
    ⟨hbefore.runCheck_eq colors format, (h.goesThrough hbefore hloaded).runCheck_eq colors format⟩
  before paths path found hfind := by
    have hfile : files.find path = .ok (place, .file (encodeUtf8 text)) :=
      (FileSystem.Alike.refl files).find_of_node? hfind (by rw [FileTree.node?, hat]; rfl)
    rw [filter_files_checkFiles ⟨place, hfile⟩, analyze, String.toList_ofList]
  after paths path found hfind := by
    rw [filter_files_checkFiles ⟨place, h.find_eq hfind⟩, analyze, String.toList_ofList]
  settled _ hd := isClosedCall_of_mem_fixAll hd
  kept := diagnose_fixAll text

/-! ## All runs -/

/-- Without writing, the fix command changes nothing, and it fails when it cannot read its file as a
text. With writing, the file has the fixed text afterwards, by every path that leads to it, and
nothing else changes : a file that can be read is taken to be one that can be written, as file
systems here have it. Whatever fixes and checks are run then, fixing the file again makes no fixes
and changes nothing, and checks find in it what they found before, up to columns, without the calls
in the old form that their line closes. -/
theorem runFix_effects (files : FileSystem) (path : String) :
    (runFix files path false).files = files ∧
      ((∀ text, ¬files.Holds path text) → ∀ write, ∃ reason,
        files.readText path = .error reason ∧ runFix files path write =
          .failed files ("failed to read " ++ path ++ ": " ++ reason.message)) ∧
      ∀ place text, files.find path = .ok (place, .file (encodeUtf8 text)) →
        runFix files path false = .wrote files exitSuccess (String.ofList (fixAll text).1) ∧
        ∃ fixed, runFix files path true =
            ⟨exitSuccess, "", fixSummary path (fixAll text).2, none, fixed⟩ ∧
          ((fixAll text).2 = 0 → fixed = files) ∧
          FileSystem.SameExcept place files fixed ∧
          (∀ other found, files.find other = .ok (place, found) →
            fixed.find other = .ok (place, .file (encodeUtf8 (fixAll text).1))) ∧
          (∀ other, (∀ found, files.find other ≠ .ok (place, found)) →
            fixed.readBytes other = files.readBytes other) ∧
          ∀ later, Runs fixed later →
            (∀ other found, files.find other = .ok (place, found) →
              runFix later other true = ⟨exitSuccess, "", fixSummary other 0, none, later⟩) ∧
            Rechecked files place text later := by
  refine ⟨?_, fun hnone write => ?_, fun place text hfind => ?_⟩
  · obtain hfiles | ⟨hwrite, -⟩ := files_runFix files path false
    · exact hfiles
    · cases hwrite
  · obtain ⟨reason, hread⟩ := FileSystem.exists_readText_eq_error hnone
    exact ⟨reason, hread, runFix_of_error hread write⟩
  · have hat := FileSystem.at?_of_find hfind
    have hfixed := FixedIn.fixAt hfind
    have hsame : FileSystem.SameExcept place files (files.fixAt place text) := by
      rw [FileSystem.fixAt]
      split
      · exact .refl place files
      · exact .put _ hat
    refine ⟨runFix_of_find hfind false, files.fixAt place text, runFix_of_find hfind true,
      fun hcount => if_pos hcount, hsame, fun other found hother => hfixed.find_eq hother,
      fun other hother => hfixed.alike.readBytes_eq hsame hother, fun later hruns => ?_⟩
    have hlater := hruns.fixedIn hfixed
    refine ⟨fun other found hother => ?_, hlater.rechecked hat⟩
    rw [runFix_of_find (hlater.find_eq hother), fixAll_fixAll, FileSystem.fixAt, fixAll_fixAll]
    rfl

theorem fixAll_callSample :
    fixAll "ArrLib[push](x, 1)".toList = ("arrlib::push(x, 1)".toList, 1) := by
  obtain ⟨hfinal, hcount, -⟩ := (fixRun_fixAll "ArrLib[push](x, 1)".toList).eq_rewrite
  refine Prod.ext (hfinal.trans ?_) (hcount.trans ?_) <;> decide +kernel

theorem fixAt_callSample : (callSample "ArrLib[push](x, 1)".toList).fixAt ["f.rzn"]
    "ArrLib[push](x, 1)".toList = callSample "arrlib::push(x, 1)".toList := by
  rw [FileSystem.fixAt, fixAll_callSample]
  simp [FileSystem.put, callSample, FileTree.put, Table.replace, List.lookup_cons]

/-- A call is fixed once and not again, and checks of the file report on the one text and the
other. -/
theorem runFix_effects_callSample :
    (runFix (callSample "ArrLib[push](x, 1)".toList) "a" true).failure =
        some "Error: failed to read a: stream did not contain valid UTF-8" ∧
      runFix (callSample "ArrLib[push](x, 1)".toList) "f.rzn" true =
        ⟨0, "", "Applied 1 fix(es) to f.rzn\n", none, callSample "arrlib::push(x, 1)".toList⟩ ∧
      runFix (callSample "arrlib::push(x, 1)".toList) "f.rzn" true =
        ⟨0, "", "Applied 0 fix(es) to f.rzn\n", none, callSample "arrlib::push(x, 1)".toList⟩ ∧
      runCheck Yaml.ofText (callSample "arrlib::push(x, 1)".toList) false "f.rzn" none .json =
        checkOutcome (callSample "arrlib::push(x, 1)".toList) false "f.rzn" none .json .standard
          "/f.rzn" ["/f.rzn"] ∧
      (checkFiles (callSample "arrlib::push(x, 1)".toList) ["/f.rzn"]).files.filter
          (·.path = "/f.rzn") =
        [⟨"/f.rzn", diagnose "arrlib::push(x, 1)".toList⟩] := by
  obtain ⟨hf, hroot, ha⟩ := find_callSample "ArrLib[push](x, 1)".toList
  have hread : (callSample "ArrLib[push](x, 1)".toList).readText "a" = .error .notUtf8 := by
    rw [FileSystem.readText, FileSystem.readBytes, ha]
    cbv
  have hnone : ∀ text, ¬(callSample "ArrLib[push](x, 1)".toList).Holds "a" text := by
    intro text h
    cases hread.symm.trans (FileSystem.readText_eq_ok_iff.2 h)
  obtain ⟨-, hfail, -⟩ := runFix_effects (callSample "ArrLib[push](x, 1)".toList) "a"
  obtain ⟨-, -, hfix⟩ := runFix_effects (callSample "ArrLib[push](x, 1)".toList) "f.rzn"
  obtain ⟨reason, hreason, hfailed⟩ := hfail hnone true
  obtain rfl := Except.error.inj (hread.symm.trans hreason)
  obtain ⟨-, fixed, hrun, -, -, -, -, hlater⟩ := hfix _ _ hf
  obtain rfl : callSample "arrlib::push(x, 1)".toList = fixed := by
    rw [runFix_of_find hf, if_pos rfl, fixAt_callSample] at hrun
    exact congrArg CommandOutcome.files hrun
  rw [fixAll_callSample] at hrun
  obtain ⟨hagain, hchecks⟩ := hlater _ (.check .start Yaml.ofText false "f.rzn" none .json)
  rw [files_runCheck] at hchecks
  have hsecond := hagain "f.rzn" _ hf
  rw [files_runCheck] at hsecond
  have hloaded := (goesThrough_callSample Yaml.ofText "arrlib::push(x, 1)".toList).loaded
  have hafter := hchecks.after ["/f.rzn"] "/f.rzn" _ hroot
  rw [fixAll_callSample] at hafter
  exact ⟨by rw [hfailed]; rfl, hrun, hsecond,
    (hchecks.reported Yaml.ofText false "f.rzn" none .json _ _ _
      (goesThrough_callSample _ _) hloaded).2, hafter⟩

end RazenLint
