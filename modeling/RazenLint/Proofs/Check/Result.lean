import Mathlib.Data.List.Perm.Basic
import Mathlib.Data.String.Basic
import RazenLint.Check.Result
import RazenLint.Proofs.FileSystem.Content
import RazenLint.Proofs.FileSystem.Lookup

/-!
# What a check accounts for

A check looks at each path on its own, so what it says about a path is the same wherever the
path stands in the list (`report?`, `skip?`). Entries that are decided by their paths and
sorted by them do not depend on the order of the paths (`sortByPath_filterMap_congr`), and all
entries of one path are the same, as many as the list has of it
(`filter_sortByPath_filterMap`). `checkFiles_accounts` puts the two lists together : no path
is lost and none is made up.
-/

namespace RazenLint

/-! ## Entries in the order of their paths -/

section

variable {α : Type} (pathOf : α → String)

/-- Entries in the order of their paths, where equal paths stay in the order they had. -/
def sortByPath (entries : List α) : List α :=
  entries.mergeSort fun a b => pathLE (pathOf a) (pathOf b)

theorem pathLE_iff {first second : String} : pathLE first second = true ↔ first ≤ second := by
  rw [pathLE, decide_eq_true_iff]
  exact not_lt

theorem perm_sortByPath (entries : List α) : (sortByPath pathOf entries).Perm entries :=
  List.mergeSort_perm _ _

theorem pairwise_sortByPath (entries : List α) :
    (sortByPath pathOf entries).Pairwise fun a b => pathOf a ≤ pathOf b := by
  have hsorted : (sortByPath pathOf entries).Pairwise fun a b =>
      pathLE (pathOf a) (pathOf b) = true := by
    refine List.pairwise_mergeSort (fun a b c => ?_) (fun a b => ?_) entries
    · simp only [pathLE_iff]
      exact le_trans
    · rw [Bool.or_eq_true, pathLE_iff, pathLE_iff]
      exact le_total _ _
  exact hsorted.imp pathLE_iff.1

variable {pathOf} {kept? : String → Option α}

/-- Entries that their paths decide do not depend on the order of the paths. -/
theorem sortByPath_filterMap_congr (hpath : ∀ path a, kept? path = some a → pathOf a = path)
    {paths others : List String} (h : others.Perm paths) :
    sortByPath pathOf (others.filterMap kept?) = sortByPath pathOf (paths.filterMap kept?) := by
  have hperm := ((perm_sortByPath pathOf _).trans (h.filterMap kept?)).trans
    (perm_sortByPath pathOf (paths.filterMap kept?)).symm
  have hentry : ∀ {entries : List String} {a : α},
      a ∈ sortByPath pathOf (entries.filterMap kept?) → kept? (pathOf a) = some a := by
    intro entries a ha
    obtain ⟨path, -, ha⟩ := List.mem_filterMap.1 ((perm_sortByPath pathOf _).mem_iff.1 ha)
    rwa [hpath path a ha]
  refine hperm.eq_of_pairwise (fun a b ha hb hab hba => ?_) (pairwise_sortByPath pathOf _)
    (pairwise_sortByPath pathOf _)
  rw [← Option.some_inj, ← hentry ha, ← hentry hb, le_antisymm hab hba]

theorem countP_filterMap_path (hpath : ∀ path a, kept? path = some a → pathOf a = path)
    (path : String) (paths : List String) :
    (paths.filterMap kept?).countP (pathOf · = path) =
      if (kept? path).isSome then paths.count path else 0 := by
  rw [List.countP_filterMap, List.count]
  split
  · rename_i hsome
    obtain ⟨a, ha⟩ := Option.isSome_iff_exists.1 hsome
    refine List.countP_congr fun other _ => ?_
    cases hother : kept? other with
    | none =>
      have hne : other ≠ path := by
        rintro rfl
        rw [ha] at hother
        cases hother
      simp [hne]
    | some b => simp [hpath other b hother]
  · rename_i hnone
    refine List.countP_eq_zero.2 fun other _ => ?_
    cases hother : kept? other with
    | none => simp
    | some b =>
      have hne : other ≠ path := by
        rintro rfl
        exact hnone (by rw [hother]; rfl)
      simp [hpath other b hother, hne]

/-- All entries of a path are the one that the path decides, as often as the path is listed. -/
theorem filter_sortByPath_filterMap (hpath : ∀ path a, kept? path = some a → pathOf a = path)
    (path : String) (paths : List String) :
    (sortByPath pathOf (paths.filterMap kept?)).filter (pathOf · = path) =
      (kept? path).elim [] (List.replicate (paths.count path)) := by
  have hperm := perm_sortByPath pathOf (paths.filterMap kept?)
  have hlength : ((sortByPath pathOf (paths.filterMap kept?)).filter (pathOf · = path)).length =
      if (kept? path).isSome then paths.count path else 0 := by
    rw [← List.countP_eq_length_filter, hperm.countP_eq, countP_filterMap_path hpath]
  cases hentry : kept? path with
  | none =>
    rw [hentry] at hlength
    exact List.length_eq_zero_iff.1 hlength
  | some a =>
    rw [hentry] at hlength
    refine List.eq_replicate_iff.2 ⟨hlength, fun b hb => ?_⟩
    obtain ⟨hb, hpathOf⟩ := List.mem_filter.1 hb
    obtain ⟨other, -, hother⟩ := List.mem_filterMap.1 (hperm.mem_iff.1 hb)
    rw [decide_eq_true_iff, hpath other b hother] at hpathOf
    rw [hpathOf, hentry] at hother
    exact (Option.some.inj hother).symm

end

/-! ## Paths one by one -/

/-- The report of a path, if its file can be read. -/
def report? (files : FileSystem) (path : String) : Option FileReport :=
  match checkFile files path with
  | .ok report => some report
  | .error _ => none

/-- The entry of a path that is skipped. -/
def skip? (files : FileSystem) (path : String) : Option SkippedFile :=
  match checkFile files path with
  | .ok _ => none
  | .error file => some file

variable {files : FileSystem} {path : String} {text : List Char} {reason : FileError}

theorem checkFiles_eq (files : FileSystem) (paths : List String) : checkFiles files paths =
    { files := sortByPath FileReport.path (paths.filterMap (report? files))
      skipped := sortByPath SkippedFile.path (paths.filterMap (skip? files))
      scanned := (paths.filterMap (report? files)).length } := by
  simp only [checkFiles, List.filterMap_map]
  rfl

theorem checkFile_of_readText (h : files.readText path = .ok text) :
    checkFile files path = .ok ⟨path, (analyze path (String.ofList text)).diagnostics⟩ := by
  rw [checkFile, h]

theorem checkFile_of_error (h : files.readText path = .error reason) :
    checkFile files path = .error ⟨path, reason.message⟩ := by
  rw [checkFile, h]

theorem report?_of_readText (h : files.readText path = .ok text) :
    report? files path = some ⟨path, (analyze path (String.ofList text)).diagnostics⟩ := by
  rw [report?, checkFile_of_readText h]

theorem report?_of_error (h : files.readText path = .error reason) : report? files path = none := by
  rw [report?, checkFile_of_error h]

theorem skip?_of_readText (h : files.readText path = .ok text) : skip? files path = none := by
  rw [skip?, checkFile_of_readText h]

theorem skip?_of_error (h : files.readText path = .error reason) :
    skip? files path = some ⟨path, reason.message⟩ := by
  rw [skip?, checkFile_of_error h]

theorem path_of_report? {report : FileReport} (h : report? files path = some report) :
    report.path = path := by
  cases hread : files.readText path with
  | ok text =>
    rw [report?_of_readText hread] at h
    cases h
    rfl
  | error reason =>
    rw [report?_of_error hread] at h
    cases h

theorem path_of_skip? {file : SkippedFile} (h : skip? files path = some file) :
    file.path = path := by
  cases hread : files.readText path with
  | ok text =>
    rw [skip?_of_readText hread] at h
    cases h
  | error reason =>
    rw [skip?_of_error hread] at h
    cases h
    rfl

/-- Every path has a report or is skipped, and never both. -/
theorem length_reports_add_length_skipped (files : FileSystem) (paths : List String) :
    (paths.filterMap (report? files)).length + (paths.filterMap (skip? files)).length =
      paths.length := by
  induction paths with
  | nil => rfl
  | cons path paths ih =>
    cases hread : files.readText path with
    | ok text =>
      rw [List.filterMap_cons_some (report?_of_readText hread),
        List.filterMap_cons_none (skip?_of_readText hread), List.length_cons, List.length_cons]
      omega
    | error reason =>
      rw [List.filterMap_cons_none (report?_of_error hread),
        List.filterMap_cons_some (skip?_of_error hread), List.length_cons, List.length_cons]
      omega

/-- A path that holds a text has the diagnostics of the text, as often as it is listed. -/
theorem filter_files_checkFiles (h : files.Holds path text) (paths : List String) :
    (checkFiles files paths).files.filter (·.path = path) =
      List.replicate (paths.count path) ⟨path, (analyze path (String.ofList text)).diagnostics⟩ := by
  rw [checkFiles_eq, filter_sortByPath_filterMap fun _ _ => path_of_report?,
    report?_of_readText (FileSystem.readText_eq_ok_iff.2 h)]
  rfl

/-! ## The whole check -/

/-- A check accounts for every path of its list, as often as the list has it : a path that
holds a text has its reports, with the diagnostics of the text, and any other is skipped with
the reason. Both lists are in the order of their paths, and the result does not depend on the
order in which the paths are given. -/
theorem checkFiles_accounts (files : FileSystem) (paths : List String) :
    (checkFiles files paths).files.length + (checkFiles files paths).skipped.length =
        paths.length ∧
      (checkFiles files paths).scanned = (checkFiles files paths).files.length ∧
      (∀ path text, files.Holds path text →
        (checkFiles files paths).files.filter (·.path = path) =
            List.replicate (paths.count path)
              ⟨path, (analyze path (String.ofList text)).diagnostics⟩ ∧
          (checkFiles files paths).skipped.filter (·.path = path) = []) ∧
      (∀ path, (∀ text, ¬files.Holds path text) →
        ∃ reason, files.readText path = .error reason ∧
          (checkFiles files paths).skipped.filter (·.path = path) =
            List.replicate (paths.count path) ⟨path, reason.message⟩ ∧
          (checkFiles files paths).files.filter (·.path = path) = []) ∧
      (checkFiles files paths).files.Pairwise (fun a b => a.path ≤ b.path) ∧
      (checkFiles files paths).skipped.Pairwise (fun a b => a.path ≤ b.path) ∧
      ∀ others : List String, others.Perm paths → checkFiles files others = checkFiles files paths := by
  have hreport : ∀ path report, report? files path = some report → report.path = path :=
    fun _ _ => path_of_report?
  have hskip : ∀ path file, skip? files path = some file → file.path = path :=
    fun _ _ => path_of_skip?
  rw [checkFiles_eq]
  refine ⟨?_, (perm_sortByPath _ _).length_eq.symm, fun path text h => ?_, fun path h => ?_,
    pairwise_sortByPath _ _, pairwise_sortByPath _ _, fun others h => ?_⟩
  · rw [(perm_sortByPath _ _).length_eq, (perm_sortByPath _ _).length_eq]
    exact length_reports_add_length_skipped files paths
  · have hread := FileSystem.readText_eq_ok_iff.2 h
    rw [filter_sortByPath_filterMap hreport, filter_sortByPath_filterMap hskip,
      report?_of_readText hread, skip?_of_readText hread]
    exact ⟨rfl, rfl⟩
  · obtain ⟨reason, hread⟩ := FileSystem.exists_readText_eq_error h
    rw [filter_sortByPath_filterMap hreport, filter_sortByPath_filterMap hskip,
      report?_of_error hread, skip?_of_error hread]
    exact ⟨reason, hread, rfl, rfl⟩
  · rw [checkFiles_eq, sortByPath_filterMap_congr hreport h, sortByPath_filterMap_congr hskip h,
      (h.filterMap _).length_eq]

/-- A file with a text, and one with a byte that begins no text. -/
def mixedSample : FileSystem :=
  ⟨.dir [("a", .file [0x78]), ("b", .file [0xFF])], [], "/"⟩

/-- Of a path that is given twice both reports are there, and one in between is skipped. -/
theorem checkFiles_accounts_mixed :
    mixedSample.Holds "a" ['x'] ∧ (∀ text, ¬mixedSample.Holds "b" text) ∧
      (checkFiles mixedSample ["a", "b", "a"]).files.filter (·.path = "a") =
        List.replicate 2 ⟨"a", (analyze "a" "x").diagnostics⟩ ∧
      (checkFiles mixedSample ["a", "b", "a"]).skipped.filter (·.path = "b") =
        [⟨"b", "stream did not contain valid UTF-8"⟩] := by
  have ha : mixedSample.Holds "a" ['x'] := ⟨["a"], FileSystem.find_rootEntry rfl rfl
    (by decide +kernel) (by decide +kernel) rfl (by simp)⟩
  have hfind : mixedSample.find "b" = .ok (["b"], .file [0xFF]) :=
    FileSystem.find_rootEntry rfl rfl (by decide +kernel) (by decide +kernel) rfl (by simp)
  have hread : mixedSample.readText "b" = .error .notUtf8 := by
    rw [FileSystem.readText, FileSystem.readBytes, hfind]
    cbv
  have hb : ∀ text, ¬mixedSample.Holds "b" text := by
    intro text h
    have hok := hread.symm.trans (FileSystem.readText_eq_ok_iff.2 h)
    cases hok
  obtain ⟨-, -, hreport, hskip, -⟩ := checkFiles_accounts mixedSample ["a", "b", "a"]
  obtain ⟨reason, hreason, hskipped, -⟩ := hskip "b" hb
  obtain rfl := Except.error.inj (hread.symm.trans hreason)
  refine ⟨ha, hb, ?_, ?_⟩
  · rw [(hreport "a" ['x'] ha).1, show ["a", "b", "a"].count "a" = 2 by decide]
  · rw [hskipped, show ["a", "b", "a"].count "b" = 1 by decide]
    rfl

end RazenLint
