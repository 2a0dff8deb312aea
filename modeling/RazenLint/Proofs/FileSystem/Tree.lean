import RazenLint.FileSystem.Tree
import RazenLint.Proofs.Path
import RazenLint.Proofs.Table

/-!
# Trees without links

In a tree without links (`LinkFree`) a place is looked up without following anything, so
the files of the tree are what is found at its places (`mem_files_iff`). Each place is
listed once (`nodup_files`), and the names on the way are names of files. A directory
without links carries the proof of this (`PlainDirectory`).
-/

namespace RazenLint.FileTree

/-- A tree as a disk holds it, without links and with no file that refuses to be read : the
names in a directory are distinct, and each is one that something in a directory can have. -/
inductive LinkFree : FileTree → Prop
  | file (bytes : List UInt8) : LinkFree (.file bytes)
  | closed (reason : FileError) : LinkFree (.closed false reason)
  | dir {entries : List (String × FileTree)} (distinct : (Table.keys entries).Nodup)
      (named : ∀ entry ∈ entries, Path.IsFileName entry.1)
      (inside : ∀ entry ∈ entries, LinkFree entry.2) : LinkFree (.dir entries)

variable {tree : FileTree} {entries : List (String × FileTree)}

theorem files_dir (entries : List (String × FileTree)) :
    (dir entries).files =
      entries.flatMap fun entry => entry.2.files.map fun file => (entry.1 :: file.1, file.2) := by
  rw [files]
  induction entries with
  | nil => rfl
  | cons entry rest ih => rw [entryFiles, ih, List.flatMap_cons]

theorem ne_nil_of_mem_files_dir {file : Place × List UInt8} (h : file ∈ (dir entries).files) :
    file.1 ≠ [] := by
  rw [files_dir, List.mem_flatMap] at h
  obtain ⟨entry, -, hfile⟩ := h
  obtain ⟨inner, -, rfl⟩ := List.mem_map.1 hfile
  exact List.cons_ne_nil _ _

namespace LinkFree

/-- What is found below a directory is found in one of its entries. -/
theorem at?_dir_eq_some_iff (h : (FileTree.dir entries).LinkFree) {place : Place}
    {bytes : List UInt8} :
    (FileTree.dir entries).at? place = some (.file bytes) ↔
      ∃ entry ∈ entries, ∃ rest, place = entry.1 :: rest ∧
        entry.2.at? rest = some (.file bytes) := by
  cases h with
  | dir distinct named inside =>
    cases place with
    | nil => simp [at?]
    | cons name rest =>
      rw [at?, entry?, ← Table.get?]
      constructor
      · intro hat
        split at hat
        · rename_i child hchild
          exact ⟨(name, child), (Table.get?_eq_some_iff_of_nodup distinct).1 hchild, rest, rfl, hat⟩
        · cases hat
      · rintro ⟨⟨other, child⟩, hmem, behind, hplace, hat⟩
        obtain ⟨rfl, rfl⟩ := List.cons.inj hplace
        rw [(Table.get?_eq_some_iff_of_nodup distinct).2 hmem]
        exact hat

theorem at?_file_eq_some_iff {content bytes : List UInt8} {place : Place} :
    (FileTree.file content).at? place = some (.file bytes) ↔ place = [] ∧ content = bytes := by
  cases place <;> simp [at?, entry?]

theorem at?_closed_ne {isRegular : Bool} {reason : FileError} {place : Place}
    {bytes : List UInt8} : (FileTree.closed isRegular reason).at? place ≠ some (.file bytes) := by
  cases place <;> simp [at?, entry?]

/-- The files of a tree are those that are found in it. -/
theorem mem_files_iff (h : tree.LinkFree) {place : Place} {bytes : List UInt8} :
    (place, bytes) ∈ tree.files ↔ tree.at? place = some (.file bytes) := by
  induction h generalizing place with
  | file content =>
    rw [at?_file_eq_some_iff, files, List.mem_singleton, Prod.mk.injEq, @eq_comm _ bytes]
  | closed reason => exact iff_of_false List.not_mem_nil at?_closed_ne
  | dir distinct named inside ih =>
    rw [(dir distinct named inside).at?_dir_eq_some_iff, files_dir, List.mem_flatMap]
    refine exists_congr fun entry => and_congr_right fun hentry => ?_
    rw [List.mem_map]
    constructor
    · rintro ⟨⟨rest, content⟩, hmem, hfile⟩
      obtain ⟨rfl, rfl⟩ := Prod.mk.inj hfile
      exact ⟨rest, rfl, (ih entry hentry).1 hmem⟩
    · rintro ⟨rest, rfl, hat⟩
      exact ⟨(rest, bytes), (ih entry hentry).2 hat, rfl⟩

/-- No place is listed twice. -/
theorem nodup_files (h : tree.LinkFree) : (tree.files.map (·.1)).Nodup := by
  induction h with
  | file content | closed reason => simp [files]
  | @dir entries distinct named inside ih =>
    have hplaces : ((FileTree.dir entries).files.map (·.1)) =
        entries.flatMap fun entry => (entry.2.files.map (·.1)).map (entry.1 :: ·) := by
      simp only [files_dir, List.map_flatMap, List.map_map]
      rfl
    rw [hplaces, List.nodup_flatMap]
    constructor
    · intro entry hentry
      exact (ih entry hentry).map (List.cons_injective)
    · refine (List.pairwise_map.1 distinct).imp fun hne place hfirst hsecond => hne ?_
      obtain ⟨rest, -, rfl⟩ := List.mem_map.1 hfirst
      obtain ⟨other, -, hplace⟩ := List.mem_map.1 hsecond
      exact (List.cons.inj hplace).1.symm

/-- The names that lead to a file are names of files. -/
theorem isFileName (h : tree.LinkFree) {place : Place} {bytes : List UInt8}
    (hat : tree.at? place = some (.file bytes)) : ∀ name ∈ place, Path.IsFileName name := by
  induction h generalizing place with
  | file content =>
    rw [(at?_file_eq_some_iff.1 hat).1]
    exact List.forall_mem_nil _
  | closed reason => exact absurd hat at?_closed_ne
  | dir distinct named inside ih =>
    obtain ⟨entry, hentry, rest, rfl, hrest⟩ :=
      (dir distinct named inside).at?_dir_eq_some_iff.1 hat
    exact List.forall_mem_cons.2 ⟨named entry hentry, ih entry hentry hrest⟩

end LinkFree

end RazenLint.FileTree

namespace RazenLint

/-- A directory without links and with no file that refuses to be read, at any depth. -/
structure PlainDirectory where
  entries : List (String × FileTree)
  linkFree : (FileTree.dir entries).LinkFree

/-- The directory among the things that a tree can be. -/
abbrev PlainDirectory.tree (directory : PlainDirectory) : FileTree :=
  .dir directory.entries

end RazenLint
