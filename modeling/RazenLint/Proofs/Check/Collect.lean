import Mathlib.Data.List.Perm.Subperm
import Mathlib.Tactic.Tauto
import RazenLint.Check.Collect
import RazenLint.Proofs.Config
import RazenLint.Proofs.FileSystem.Tree

/-!
# The files that are collected

The search below a root goes through a tree and cuts off what it does not enter. In a tree
without links it finds what a look at each file alone would keep (`inEntries_eq_ok`) : the
test `keeps` runs along the names that lead to the file. What it comes to is `Checks`, a
statement about the file and the directories around it, in which the root counts only as
where the relative paths start (`exists_chosen`, `collectFiles_checks`).
-/

namespace RazenLint

namespace Search

variable {search : Search} {names : List String}

/-! ## One step of the search -/

/-- Whether a search that is inside the directory of some names comes to a file below it, and
takes it. -/
def keeps (search : Search) (names : List String) : List String → Bool
  | [] => false
  | [name] => search.takes (names ++ [name])
  | name :: next :: rest =>
    search.enters (names ++ [name]) && search.keeps (names ++ [name]) (next :: rest)

/-- The files that a search takes, of those at some places below the directory of some names. -/
def kept (search : Search) (names : List String) (places : List Place) : List (List String) :=
  (places.filter (search.keeps names)).map (names ++ ·)

theorem kept_append (places others : List Place) :
    search.kept names (places ++ others) =
      search.kept names places ++ search.kept names others := by
  rw [kept, List.filter_append, List.map_append, kept, kept]

/-- What is kept below a directory is kept from inside it, if it is entered at all. -/
theorem kept_map_cons (name : String) {places : List Place} (h : ∀ place ∈ places, place ≠ []) :
    search.kept names (places.map (name :: ·)) =
      if search.enters (names ++ [name]) then search.kept (names ++ [name]) places else [] := by
  have hkeeps : ∀ place ∈ places, search.keeps names (name :: place) =
      (search.enters (names ++ [name]) && search.keeps (names ++ [name]) place) := by
    intro place hplace
    obtain ⟨next, rest, rfl⟩ := List.exists_cons_of_ne_nil (h place hplace)
    rfl
  rw [kept, List.filter_map, Function.comp_def, List.filter_congr hkeeps]
  split
  · rename_i henters
    simp [kept, henters]
  · rename_i henters
    simp [henters]

/-- The search of a directory finds what it keeps, if this holds of each of its entries. -/
theorem inEntries_eq_ok_of {links : Nat} {around : List Visit} {place : Place}
    {entries : List (String × FileTree)}
    (h : ∀ entry ∈ entries,
      below search links around (names ++ [entry.1]) (place ++ [entry.1]) entry.2 =
        .ok (search.kept names ((entry.2.files.map (·.1)).map (entry.1 :: ·)))) :
    inEntries search links around names place entries =
      .ok (search.kept names ((FileTree.dir entries).files.map (·.1))) := by
  rw [FileTree.files_dir]
  induction entries with
  | nil => rw [inEntries]; rfl
  | cons entry rest ih =>
    obtain ⟨hentry, hrest⟩ := List.forall_mem_cons.1 h
    rw [inEntries, hentry, ih hrest, List.flatMap_cons, List.map_append, kept_append,
      List.map_map, List.map_map]
    rfl

/-- A step of the search finds what it keeps of the files of a tree. -/
theorem below_eq_ok {tree : FileTree} (h : tree.LinkFree) (links : Nat) (around : List Visit)
    (names : List String) (name : String) (place : Place) :
    below search links around (names ++ [name]) place tree =
      .ok (search.kept names ((tree.files.map (·.1)).map (name :: ·))) := by
  induction h generalizing around names name place with
  | file bytes =>
    rw [below, FileTree.files, kept]
    split <;> rename_i htakes <;> simp [keeps, htakes]
  | closed reason =>
    rw [below]
    rfl
  | @dir entries distinct named inside ih =>
    have hplaces : ∀ place ∈ (FileTree.dir entries).files.map (·.1), place ≠ [] := by
      intro place hplace
      obtain ⟨file, hfile, rfl⟩ := List.mem_map.1 hplace
      exact FileTree.ne_nil_of_mem_files_dir hfile
    rw [below, kept_map_cons name hplaces]
    split
    · exact inEntries_eq_ok_of fun entry hentry => ih entry hentry _ _ _ _
    · rfl

/-! ## The whole search -/

theorem inEntries_eq_ok {entries : List (String × FileTree)} (h : (FileTree.dir entries).LinkFree)
    (links : Nat) (around : List Visit) (names : List String) (place : Place) :
    inEntries search links around names place entries =
      .ok (search.kept names ((FileTree.dir entries).files.map (·.1))) := by
  cases h with
  | dir distinct named inside =>
    exact inEntries_eq_ok_of fun entry hentry => below_eq_ok (inside entry hentry) _ _ _ _ _

theorem forall_prefix_cons {holds : List String → Prop} {name : String} {rest : List String} :
    (∀ around, around <+: name :: rest → around ≠ [] → holds around) ↔
      holds [name] ∧ ∀ around, around <+: rest → around ≠ [] → holds (name :: around) := by
  constructor
  · intro h
    refine ⟨h [name] (by simp) (by simp), fun around haround _ => h _ ?_ (by simp)⟩
    exact List.cons_prefix_cons.2 ⟨rfl, haround⟩
  · rintro ⟨hname, hrest⟩ around haround hne
    obtain ⟨inside, rfl, hinside⟩ := (List.prefix_cons_iff.1 haround).resolve_left hne
    by_cases h : inside = []
    · subst h
      exact hname
    · exact hrest inside hinside h

theorem isHidden_append (names : List String) (name : String) :
    isHidden (names ++ [name]) = false ↔ name.toList.head? ≠ some '.' := by
  simp [isHidden]

/-- A search keeps a file by its own path and extension, and by the paths and names of the
directories around it. -/
theorem keeps_iff {rest : List String} :
    search.keeps names rest = true ↔
      rest ≠ [] ∧ search.config.isSourceFile (search.pathOf (names ++ rest)) = true ∧
        (∀ name ∈ rest.dropLast, name.toList.head? ≠ some '.') ∧
        ∀ around, around <+: rest → around ≠ [] → search.leavesOut (names ++ around) = false := by
  induction rest generalizing names with
  | nil => simp [keeps]
  | cons name rest ih =>
    rw [forall_prefix_cons]
    cases rest with
    | nil => simp [keeps, takes, and_comm]
    | cons next rest =>
      rw [keeps, Bool.and_eq_true, ih, enters, Bool.and_eq_true, Bool.not_eq_true',
        Bool.not_eq_true', isHidden_append, List.dropLast_cons_cons, List.forall_mem_cons]
      simp only [List.append_assoc, List.singleton_append, ne_eq, reduceCtorEq,
        not_false_eq_true, true_and]
      tauto

end Search

/-! ## Files to check -/

/-- Whether names lead from a root to a file to check : a file with one of the extensions,
in directories below the root that are not hidden, where no pattern matches the path behind
the root of the file or of a directory around it. -/
structure Checks (config : Config) (root : String) (tree : FileTree) (names : List String) :
    Prop where
  isFile : ∃ bytes, tree.at? names = some (.file bytes)
  hasExtension : ∃ name, names.getLast? = some name ∧ config.HasExtension name
  visible : ∀ name ∈ names.dropLast, name.toList.head? ≠ some '.'
  included : ∀ around, around <+: names → around ≠ [] →
    ¬ config.Excludes (Path.behind root (Path.joinAll root around))

variable {config : Config} {root : String} {tree : FileTree} {names : List String}

namespace Checks

theorem isFileName (h : Checks config root tree names) (htree : tree.LinkFree) :
    ∀ name ∈ names, Path.IsFileName name := by
  obtain ⟨bytes, hfile⟩ := h.isFile
  exact htree.isFileName hfile

theorem ne_nil (h : Checks config root tree names) : names ≠ [] := by
  rintro rfl
  obtain ⟨name, hlast, -⟩ := h.hasExtension
  cases hlast

/-- The path of the root decides nothing. -/
theorem of_root (h : Checks config root tree names) (htree : tree.LinkFree) (other : String) :
    Checks config other tree names := by
  refine ⟨h.isFile, h.hasExtension, h.visible, fun around haround hne => ?_⟩
  have hnames : ∀ name ∈ around, Path.IsFileName name := fun name hname =>
    h.isFileName htree name (haround.subset hname)
  rw [Path.behind_joinAll hne hnames, ← Path.behind_joinAll hne hnames root]
  exact h.included around haround hne

/-- With more patterns nothing else is checked. -/
theorem of_subset {patterns : List String} (hpatterns : config.excludedPaths ⊆ patterns)
    (h : Checks { config with excludedPaths := patterns } root tree names) :
    Checks config root tree names :=
  ⟨h.isFile, h.hasExtension, h.visible, fun around haround hne hexcludes =>
    h.included around haround hne (hexcludes.mono hpatterns)⟩

/-- Names lead to a file to check as soon as the path that they make does. -/
theorem exists_joinAll_iff (htree : tree.LinkFree)
    (hnames : ∀ name ∈ names, Path.IsFileName name) :
    (∃ others, Checks config root tree others ∧
        Path.joinAll root names = Path.joinAll root others) ↔
      Checks config root tree names := by
  constructor
  · rintro ⟨others, hothers, hpath⟩
    rwa [(Path.joinAll_inj hnames (hothers.isFileName htree)).1 hpath]
  · exact fun h => ⟨names, h, rfl⟩

end Checks

/-- A search keeps the files to check below its root. -/
theorem Search.keeps_iff_checks {search : Search}
    (hglobs : search.config.excludedGlobs = .ok search.globs) (htree : tree.LinkFree)
    {bytes : List UInt8} (hfile : tree.at? names = some (.file bytes)) (hne : names ≠ []) :
    search.keeps [] names = true ↔ Checks search.config search.root tree names := by
  have hnames := htree.isFileName hfile
  have hincluded : ∀ around, around <+: names → around ≠ [] →
      (search.leavesOut around = false ↔
        ¬ search.config.Excludes (Path.behind search.root (Path.joinAll search.root around))) := by
    intro around haround hne
    rw [Path.behind_joinAll hne fun name hname => hnames name (haround.subset hname),
      ← Config.isExcluded_iff hglobs, ← leavesOut, Bool.not_eq_true]
  rw [keeps_iff, List.nil_append, pathOf, Config.isSourceFile_joinAll_iff hne hnames]
  constructor
  · rintro ⟨-, hextension, hvisible, houtside⟩
    exact ⟨⟨bytes, hfile⟩, hextension, hvisible, fun around haround hne =>
      (hincluded around haround hne).1 (houtside around haround hne)⟩
  · intro h
    exact ⟨hne, h.hasExtension, h.visible, fun around haround hne =>
      (hincluded around haround hne).2 (h.included around haround hne)⟩

/-! ## The collected files -/

theorem namesLE_iff {first second : List String} :
    namesLE first second = true ↔ first ≤ second := by
  rw [namesLE, decide_eq_true_iff]
  exact not_lt

/-- Sorted by their names, files that are all different are in strict order. -/
theorem pairwise_mergeSort_namesLE {found : List (List String)} (h : found.Nodup) :
    (found.mergeSort namesLE).Pairwise (· < ·) := by
  have htrans : ∀ a b c, namesLE a b = true → namesLE b c = true → namesLE a c = true := by
    intro a b c
    simp only [namesLE_iff]
    exact le_trans
  have htotal : ∀ a b, (namesLE a b || namesLE b a) = true := by
    intro a b
    rw [Bool.or_eq_true, namesLE_iff, namesLE_iff]
    exact le_total a b
  have hsorted := List.pairwise_mergeSort htrans htotal found
  have hnodup : (found.mergeSort namesLE).Nodup := (List.mergeSort_perm found namesLE).nodup_iff.2 h
  exact (hsorted.and hnodup).imp fun hle => lt_of_le_of_ne (namesLE_iff.1 hle.1) hle.2

/-- What has been chosen from less is in the same order. -/
theorem sublist_of_subset {fewer chosen : List (List String)} (hfewer : fewer.Pairwise (· < ·))
    (hchosen : chosen.Pairwise (· < ·)) (h : fewer ⊆ chosen) : fewer.Sublist chosen := by
  have hnodup : fewer.Nodup := hfewer.imp ne_of_lt
  exact List.sublist_of_subperm_of_pairwise (hnodup.subperm h) (hfewer.imp le_of_lt)
    (hchosen.imp le_of_lt)

theorem exists_globs_of_collectFiles {files : FileSystem} {place : Place}
    {entries : List (String × FileTree)} (hroot : files.find root = .ok (place, .dir entries))
    {paths : List String} (h : collectFiles files config root = .ok paths) :
    ∃ globs, config.excludedGlobs = .ok globs := by
  rw [collectFiles, hroot] at h
  cases hglobs : config.excludedGlobs with
  | error reason =>
    rw [hglobs] at h
    cases h
  | ok globs => exact ⟨globs, rfl⟩

/-- Of a tree without links the same names are collected below every root. -/
theorem exists_chosen (directory : PlainDirectory) {globs : List Glob}
    (hglobs : config.excludedGlobs = .ok globs) :
    ∃ chosen : List (List String), chosen.Pairwise (· < ·) ∧
      (∀ root names, names ∈ chosen ↔ Checks config root directory.tree names) ∧
      ∀ files root place, files.find root = .ok (place, directory.tree) →
        collectFiles files config root = .ok (chosen.map (Path.joinAll root)) := by
  classical
  obtain ⟨entries, htree⟩ := directory
  have hplaces : ∀ {names}, names ∈ (FileTree.dir entries).files.map (·.1) ↔
      ∃ bytes, (FileTree.dir entries).at? names = some (.file bytes) := by
    intro names
    simp [htree.mem_files_iff]
  refine ⟨(((FileTree.dir entries).files.map (·.1)).filter fun names =>
    decide (Checks config "" (.dir entries) names)).mergeSort namesLE, ?_, ?_, ?_⟩
  · exact pairwise_mergeSort_namesLE (htree.nodup_files.filter _)
  · intro root names
    rw [List.mem_mergeSort, List.mem_filter, decide_eq_true_iff, hplaces]
    exact ⟨fun h => h.2.of_root htree root, fun h => ⟨h.isFile, h.of_root htree ""⟩⟩
  · intro files root place hroot
    -- the search keeps the same files, since the checks do not depend on its root
    have hkept : ∀ names ∈ (FileTree.dir entries).files.map (·.1),
        Search.keeps ⟨files, config, globs, root⟩ [] names =
          decide (Checks config "" (.dir entries) names) := by
      intro names hnames
      obtain ⟨file, hmem, rfl⟩ := List.mem_map.1 hnames
      rw [Bool.eq_iff_iff, decide_eq_true_iff, Search.keeps_iff_checks hglobs htree
        (htree.mem_files_iff.1 hmem) (FileTree.ne_nil_of_mem_files_dir hmem)]
      exact ⟨fun h => h.of_root htree "", fun h => h.of_root htree root⟩
    rw [collectFiles, hroot]
    simp only [hglobs, Search.inEntries_eq_ok htree, Search.kept, List.nil_append, List.map_id']
    rw [List.filter_congr hkept]
    rfl

/-- In a directory without links exactly the files to check are collected, each once and in
the order of their paths. The path of the directory itself decides nothing, and more patterns
can only take files away. -/
theorem collectFiles_checks {files : FileSystem} {place : Place} {directory : PlainDirectory}
    (hroot : files.find root = .ok (place, directory.tree))
    (hconfig : config.validated = .ok config) :
    ∃ paths, collectFiles files config root = .ok paths ∧
      paths.Pairwise Path.Before ∧ paths.Nodup ∧
      (∀ path, path ∈ paths ↔
        ∃ names, Checks config root directory.tree names ∧ path = Path.joinAll root names) ∧
      (∀ (others : FileSystem) other otherPlace,
        others.find other = .ok (otherPlace, directory.tree) →
        ∃ found, collectFiles others config other = .ok found ∧
          found.map (Path.behind other) = paths.map (Path.behind root)) ∧
      ∀ patterns, config.excludedPaths ⊆ patterns → ∀ fewer,
        collectFiles files { config with excludedPaths := patterns } root = .ok fewer →
        fewer.Sublist paths := by
  obtain ⟨globs, hglobs⟩ := Config.exists_excludedGlobs hconfig
  obtain ⟨chosen, hsorted, hchosen, hcollect⟩ := exists_chosen directory hglobs
  have hnames : ∀ names ∈ chosen, ∀ name ∈ names, Path.IsFileName name := fun names hmem =>
    ((hchosen root names).1 hmem).isFileName directory.linkFree
  have hpaths : (chosen.map (Path.joinAll root)).Pairwise Path.Before := by
    rw [List.pairwise_map]
    exact hsorted.imp_of_mem fun hfirst hsecond hlt =>
      Path.Before.joinAll (hnames _ hfirst) (hnames _ hsecond) hlt root
  have hbehind : ∀ other, (chosen.map (Path.joinAll other)).map (Path.behind other) =
      chosen.map Path.ofSegments := by
    intro other
    rw [List.map_map]
    refine List.map_congr_left fun names hmem => ?_
    exact Path.behind_joinAll ((hchosen other names).1 hmem).ne_nil (hnames names hmem) other
  refine ⟨chosen.map (Path.joinAll root), hcollect files root place hroot, hpaths,
    hpaths.imp Path.Before.ne, fun path => ?_, fun others other otherPlace hother => ?_,
    fun patterns hpatterns fewer hfewer => ?_⟩
  · simp only [List.mem_map, hchosen root, eq_comm]
  · exact ⟨_, hcollect others other otherPlace hother, by rw [hbehind other, hbehind root]⟩
  · obtain ⟨moreGlobs, hmoreGlobs⟩ := exists_globs_of_collectFiles hroot hfewer
    obtain ⟨kept, hkeptSorted, hkept, hkeptCollect⟩ := exists_chosen directory hmoreGlobs
    rw [hkeptCollect files root place hroot] at hfewer
    cases hfewer
    refine (sublist_of_subset hkeptSorted hsorted fun names hmem => ?_).map _
    exact (hchosen root names).2 (((hkept root names).1 hmem).of_subset hpatterns)

/-- A directory with a hidden file and two directories, one of them hidden. -/
def hiddenSample : PlainDirectory where
  entries :=
    [(".a.RZN", .file []), (".h", .dir [("b.rzn", .file [])]), ("x", .dir [("c.rzn", .file [])])]
  linkFree := by
    have hfile : ∀ name, Path.IsFileName name → (FileTree.dir [(name, .file [])]).LinkFree :=
      fun name h => .dir (List.nodup_singleton name) (List.forall_mem_singleton.2 h)
        (List.forall_mem_singleton.2 (.file []))
    exact .dir (by decide +kernel) (by decide +kernel) <| List.forall_mem_cons.2
      ⟨.file [], List.forall_mem_cons.2 ⟨hfile "b.rzn" (by decide +kernel),
        List.forall_mem_singleton.2 (hfile "c.rzn" (by decide +kernel))⟩⟩

/-- A hidden root is searched, and a hidden file in it is taken. Neither a hidden directory nor
one that is left out is entered. -/
theorem collectFiles_checks_hidden_root :
    ∃ paths, collectFiles ⟨.dir [(".p", hiddenSample.tree)], [], "/"⟩
        ⟨"1", ["..rzn"], ["x"], false⟩ ".p" = .ok paths ∧
      ".p/.a.RZN" ∈ paths ∧ ".p/.h/b.rzn" ∉ paths ∧ ".p/x/c.rzn" ∉ paths := by
  have hroot : FileSystem.find ⟨.dir [(".p", hiddenSample.tree)], [], "/"⟩ ".p" =
      .ok ([".p"], hiddenSample.tree) := by
    have hsteps : FileSystem.stepsOf ".p" = [.name ".p"] := by decide +kernel
    have hname : ¬ FileSystem.maxNameBytes < ".p".utf8ByteSize := by decide +kernel
    have hpath : ¬ FileSystem.maxPathBytes < ".p".utf8ByteSize := by decide +kernel
    simp [FileSystem.find, FileSystem.lookup, FileSystem.follow, hsteps, hname, hpath,
      Path.isAbsolute, FileTree.at?, FileTree.entry?]
  obtain ⟨paths, hpaths, -, -, hmem, -⟩ := collectFiles_checks hroot
    (by decide +kernel : Config.validated ⟨"1", ["..rzn"], ["x"], false⟩ = _)
  have hchecks : ∀ names, (∀ name ∈ names, Path.IsFileName name) →
      (Path.joinAll ".p" names ∈ paths ↔
        Checks ⟨"1", ["..rzn"], ["x"], false⟩ ".p" hiddenSample.tree names) := by
    intro names hnames
    rw [hmem, Checks.exists_joinAll_iff hiddenSample.linkFree hnames]
  refine ⟨paths, hpaths, (hchecks [".a.RZN"] (by decide +kernel)).2 ?_, fun h => ?_, fun h => ?_⟩
  · exact ⟨⟨[], rfl⟩, ⟨".a.RZN", rfl, ".a", "RZN", by decide +kernel⟩, by simp,
      Search.forall_prefix_cons.2 ⟨by decide +kernel, by simp⟩⟩
  · have hhidden := (hchecks [".h", "b.rzn"] (by decide +kernel)).1 h
    exact hhidden.visible ".h" (by simp) (by decide +kernel)
  · have hexcluded := (hchecks ["x", "c.rzn"] (by decide +kernel)).1 h
    exact hexcluded.included ["x"] (by simp) (by simp) (by decide +kernel)

end RazenLint
