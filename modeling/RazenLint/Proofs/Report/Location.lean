import Mathlib.Data.List.Forall2
import RazenLint.Proofs.Check.Collect
import RazenLint.Proofs.Check.Names
import RazenLint.Report.Sarif

/-!
# How a report names files

A file below the path of a report is named by the names that lead to it, with slashes between them
and in place of their backslashes (`relativeUri_joinAll`). So two files that were collected have
the same name in the report exactly when their paths differ in nothing but slashes and backslashes
(`relativeUri_collected`). Different files can do that : a backslash is a character of a name and
separates nothing (`exists_relativeUri_eq`).
-/

namespace RazenLint

open RazenLint.Path

/-! ## Slashes and backslashes -/

/-- Two characters that are the same or both separate names somewhere. -/
def SlashAlike (c d : Char) : Prop :=
  c = d ∨ (c ∈ ['/', '\\'] ∧ d ∈ ['/', '\\'])

/-- Two texts that differ in nothing but slashes and backslashes. -/
def SlashesAlike (first second : String) : Prop :=
  List.Forall₂ SlashAlike first.toList second.toList

theorem slashAlike_iff {c d : Char} :
    (if c = '\\' then '/' else c) = (if d = '\\' then '/' else d) ↔ SlashAlike c d := by
  simp only [SlashAlike, List.mem_pair]
  grind

theorem slashed_eq_iff {first second : String} :
    slashed first = slashed second ↔ SlashesAlike first second := by
  rw [slashed, slashed, String.ofList_inj, SlashesAlike, ← List.forall₂_eq_eq_eq,
    List.forall₂_map_left_iff, List.forall₂_map_right_iff]
  simp only [slashAlike_iff]

theorem slashed_append (front back : String) :
    slashed (front ++ back) = slashed front ++ slashed back := by
  rw [slashed, String.toList_append, List.map_append, String.ofList_append]
  rfl

theorem slashed_of_notMem {text : String} (h : '\\' ∉ text.toList) : slashed text = text := by
  have hkept : ∀ c ∈ text.toList, (if c = '\\' then '/' else c) = c := fun c hc =>
    if_neg fun hslash : c = '\\' => h (hslash ▸ hc)
  rw [slashed, List.map_congr_left hkept, List.map_id', String.ofList_toList]

/-! ## Files outside and below -/

theorem prefix_of_dropComponents {wanted : List Component} {body left : List String}
    (h : dropComponents wanted body = some left) : wanted <+: body.filterMap component? := by
  fun_induction dropComponents wanted body with
  | case1 => exact List.nil_prefix
  | case2 => cases h
  | case3 wanted rest segment body hsegment ih =>
    rw [List.filterMap_cons_none hsegment]
    exact ih h
  | case4 rest segment body found hsegment ih =>
    rw [List.filterMap_cons_some hsegment]
    exact List.cons_prefix_cons.2 ⟨rfl, ih h⟩
  | case5 => cases h

/-- Only a directory with which a path begins can be taken off it. -/
theorem prefix_of_relativeTo? {directory path rest : String}
    (h : relativeTo? directory path = some rest) : components directory <+: components path := by
  rcases hstart : start path with ⟨first, body⟩
  simp only [relativeTo?, hstart, Option.map_eq_some_iff] at h
  obtain ⟨left, hleft, -⟩ := h
  rw [show components path = first.toList ++ body.filterMap component? by
    rw [components, hstart]]
  split at hleft
  · rename_i wanted rest found hdirectory
    split at hleft
    · rename_i hfound
      rw [hdirectory, hfound]
      exact List.cons_prefix_cons.2 ⟨rfl, prefix_of_dropComponents hleft⟩
    · cases hleft
  · exact prefix_of_dropComponents hleft
  · cases hleft

theorem relativeUri_of_not_prefix {base file : String}
    (h : ¬components base <+: components file) : relativeUri base file = file := by
  have hsame : Path.same file base = false := by
    rw [Path.same, decide_eq_false_iff_not]
    exact fun heq => h (heq ▸ List.prefix_rfl)
  have hrelative : relativeTo? base file = none := by
    cases hrest : relativeTo? base file with
    | none => rfl
    | some rest => exact absurd (prefix_of_relativeTo? hrest) h
  rw [relativeUri, hsame, hrelative, if_neg Bool.false_ne_true, ite_self]

theorem relativeUri_joinAll {names : List String} (h : names ≠ [])
    (hnames : ∀ name ∈ names, IsFileName name) {root : String} (hroot : root ≠ "") :
    relativeUri root (joinAll root names) = slashed (ofSegments names) := by
  have hsame : Path.same (joinAll root names) root = false := by
    rw [Path.same, decide_eq_false_iff_not, components_joinAll hnames, List.append_right_eq_self,
      List.map_eq_nil_iff]
    exact h
  rw [relativeUri, if_neg hroot, hsame, if_neg Bool.false_ne_true, relativeTo?_joinAll h hnames]

theorem slashesAlike_joinAll {names others : List String} (h : names ≠ []) (hother : others ≠ [])
    (hnames : ∀ name ∈ names, IsFileName name) (hothers : ∀ name ∈ others, IsFileName name)
    (root : String) : SlashesAlike (joinAll root names) (joinAll root others) ↔
      slashed (ofSegments names) = slashed (ofSegments others) := by
  obtain ⟨name, rest, rfl⟩ := List.exists_cons_of_ne_nil h
  obtain ⟨other, behind, rfl⟩ := List.exists_cons_of_ne_nil hother
  rw [joinAll_cons hnames, joinAll_cons hothers, ← slashed_eq_iff, slashed_append, slashed_append,
    String.append_right_inj]

/-! ## Collected files -/

section

variable {files : NamedFileSystem} {config : Config} {root : String} {paths : List String}
  {first second : String}

theorem relativeUri_eq_iff (h : collectFiles files.toFileSystem config root = .ok paths)
    (hfirst : first ∈ paths) (hsecond : second ∈ paths) :
    relativeUri root first = relativeUri root second ↔ SlashesAlike first second := by
  obtain ⟨hroot, rfl | hpaths⟩ := names_of_collectFiles files.named h
  · obtain rfl := List.mem_singleton.1 hfirst
    obtain rfl := List.mem_singleton.1 hsecond
    exact iff_of_true rfl (slashed_eq_iff.1 rfl)
  · obtain ⟨names, hne, hnames, rfl⟩ := hpaths first hfirst
    obtain ⟨others, hneOther, hothers, rfl⟩ := hpaths second hsecond
    rw [relativeUri_joinAll hne hnames hroot, relativeUri_joinAll hneOther hothers hroot,
      slashesAlike_joinAll hne hneOther hnames hothers]

/-- Without backslashes behind the root there is nothing to mistake. -/
theorem eq_of_slashesAlike (h : collectFiles files.toFileSystem config root = .ok paths)
    (hfirst : first ∈ paths) (hsecond : second ∈ paths)
    (hplain : '\\' ∉ (behind root first).toList)
    (hplainSecond : '\\' ∉ (behind root second).toList) (halike : SlashesAlike first second) :
    first = second := by
  obtain ⟨-, rfl | hpaths⟩ := names_of_collectFiles files.named h
  · rw [List.mem_singleton.1 hfirst, List.mem_singleton.1 hsecond]
  · obtain ⟨names, hne, hnames, rfl⟩ := hpaths first hfirst
    obtain ⟨others, hneOther, hothers, rfl⟩ := hpaths second hsecond
    rw [behind_joinAll hne hnames] at hplain
    rw [behind_joinAll hneOther hothers] at hplainSecond
    rw [slashesAlike_joinAll hne hneOther hnames hothers, slashed_of_notMem hplain,
      slashed_of_notMem hplainSecond] at halike
    have hsegments := congrArg segments halike
    rw [segments_ofSegments hne fun name hname => (hnames name hname).notMem,
      segments_ofSegments hneOther fun name hname => (hothers name hname).notMem] at hsegments
    rw [hsegments]

/-- Two collected files have the same name in a report exactly when their paths differ in nothing
but slashes and backslashes. Without backslashes behind the root different files have different
names, and a file outside keeps its path. -/
theorem relativeUri_collected (h : collectFiles files.toFileSystem config root = .ok paths) :
    (∀ first ∈ paths, ∀ second ∈ paths,
      (relativeUri root first = relativeUri root second ↔ SlashesAlike first second)) ∧
    (∀ first ∈ paths, ∀ second ∈ paths, first ≠ second →
      '\\' ∉ (behind root first).toList → '\\' ∉ (behind root second).toList →
      relativeUri root first ≠ relativeUri root second) ∧
    ∀ file, ¬components root <+: components file → relativeUri root file = file := by
  refine ⟨fun first hfirst second hsecond => relativeUri_eq_iff h hfirst hsecond,
    fun first hfirst second hsecond hne hplain hplainSecond heq => hne ?_,
    fun file => relativeUri_of_not_prefix⟩
  exact eq_of_slashesAlike h hfirst hsecond hplain hplainSecond
    ((relativeUri_eq_iff h hfirst hsecond).1 heq)

end

/-- A directory with a file, and a file whose name has a backslash in place of the slash. -/
def backslashDirectory : PlainDirectory where
  entries := [("a", .dir [("b.rzn", .file [])]), ("a\\b.rzn", .file [])]
  linkFree := by
    have hinside : (FileTree.dir [("b.rzn", .file [])]).LinkFree :=
      .dir (by decide +kernel) (by decide +kernel) (List.forall_mem_singleton.2 (.file []))
    exact .dir (by decide +kernel) (by decide +kernel)
      (List.forall_mem_cons.2 ⟨hinside, List.forall_mem_singleton.2 (.file [])⟩)

def backslashSample : NamedFileSystem where
  tree := .dir [("p", backslashDirectory.tree)]
  workingPlace := []
  configHome := "/"
  named := .dir (by decide +kernel)
    (List.forall_mem_singleton.2 backslashDirectory.linkFree.allNames)

theorem collectFiles_backslashSample :
    collectFiles backslashSample.toFileSystem .standard "/p" =
      .ok ["/p/a/b.rzn", "/p/a\\b.rzn"] := by
  have hroot : backslashSample.find "/p" = .ok (["p"], backslashDirectory.tree) :=
    FileSystem.find_rootEntry rfl rfl (by decide +kernel) (by decide +kernel) rfl (by simp)
  have hglobs : Config.standard.excludedGlobs = .ok [] := rfl
  have hkept : Search.kept ⟨backslashSample.toFileSystem, .standard, [], "/p"⟩ []
      (backslashDirectory.tree.files.map (·.1)) = [["a", "b.rzn"], ["a\\b.rzn"]] := by
    decide +kernel
  rw [collectFiles, hroot]
  simp only [hglobs, Search.inEntries_eq_ok backslashDirectory.linkFree, hkept]
  rw [List.mergeSort_of_pairwise (by decide +kernel)]
  decide +kernel

/-- The two files are named alike, and a file elsewhere keeps its path. -/
theorem relativeUri_collected_backslashSample :
    collectFiles backslashSample.toFileSystem .standard "/p" =
        .ok ["/p/a/b.rzn", "/p/a\\b.rzn"] ∧
      (relativeUri "/p" "/p/a/b.rzn" = relativeUri "/p" "/p/a\\b.rzn" ↔
        SlashesAlike "/p/a/b.rzn" "/p/a\\b.rzn") ∧
      ¬components "/p" <+: components "/q/c.rzn" ∧ relativeUri "/p" "/q/c.rzn" = "/q/c.rzn" := by
  obtain ⟨halike, -, houtside⟩ := relativeUri_collected collectFiles_backslashSample
  have hnot : ¬components "/p" <+: components "/q/c.rzn" := by decide +kernel
  exact ⟨collectFiles_backslashSample, halike _ (by simp) _ (by simp), hnot, houtside _ hnot⟩

/-- Different files can have one name in a report. -/
theorem exists_relativeUri_eq :
    ¬∀ (files : NamedFileSystem) (config : Config) (root : String) (paths : List String),
      collectFiles files.toFileSystem config root = .ok paths →
      ∀ first ∈ paths, ∀ second ∈ paths, first ≠ second →
        relativeUri root first ≠ relativeUri root second :=
  fun h => h backslashSample .standard "/p" _ collectFiles_backslashSample
    "/p/a/b.rzn" (by simp) "/p/a\\b.rzn" (by simp)
    (by decide +kernel) (by decide +kernel)

end RazenLint
