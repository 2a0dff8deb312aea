import RazenLint.Check.Collect
import RazenLint.Proofs.FileSystem.Shape

/-!
# What a search depends on

A search goes over names, directories and links and reads no file. In a file system that has
other bytes in its files, and is the same otherwise, it finds the same (`collectFiles_congr`).
-/

namespace RazenLint

variable {files later : FileSystem}

namespace Search

/-- The same search in another file system. -/
def inFiles (search : Search) (later : FileSystem) : Search :=
  { search with files := later }

variable {search : Search}

mutual

theorem below_inFiles (halike : search.files.Alike later)
    (hshape : search.files.tree.SameShape later.tree) :
    ∀ (links : Nat) (around : List Visit) (names : List String) (place : Place)
      {tree tree' : FileTree}, tree.SameShape tree' →
      below (search.inFiles later) links around names place tree' =
        below search links around names place tree
  | links, around, names, place, .file _, _, .file _ _ => by
    rw [below, below]
    rfl
  | links, around, names, place, .closed _ _, _, .closed _ _ => by
    rw [below, below]
    rfl
  | links, around, names, place, .dir entries, .dir entries', h => by
    rw [below, below, inEntries_inFiles halike hshape links _ names place h]
    rfl
  | links, around, names, place, .link target, _, .link _ => by
    rw [below, below]
    have hpath : (search.inFiles later).pathOf names = search.pathOf names := rfl
    have hfiles : (search.inFiles later).files = later := rfl
    rw [hpath, hfiles]
    cases hfind : search.files.find (search.pathOf names) with
    | error reason => rw [halike.find_eq_error hfind]
    | ok found =>
      obtain ⟨target, tree⟩ := found
      obtain ⟨tree', hlater, htree⟩ := halike.find_sameShape hshape hfind
      rw [hlater]
      cases tree with
      | file | link | closed => cases htree; rfl
      | dir entries =>
        obtain ⟨entries', rfl⟩ := htree.exists_dir
        dsimp only
        split
        · rfl
        · rw [show (search.inFiles later).enters names = search.enters names from rfl]
          cases links with
          | zero => rfl
          | succ links =>
            dsimp only
            rw [inEntries_inFiles halike hshape links _ names target htree]
termination_by links _ _ _ tree => (links, sizeOf tree)

theorem inEntries_inFiles (halike : search.files.Alike later)
    (hshape : search.files.tree.SameShape later.tree) :
    ∀ (links : Nat) (around : List Visit) (names : List String) (place : Place)
      {entries entries' : List (String × FileTree)},
      (FileTree.dir entries).SameShape (.dir entries') →
      inEntries (search.inFiles later) links around names place entries' =
        inEntries search links around names place entries
  | links, around, names, place, [], _, .empty => by
    rw [inEntries, inEntries]
  | links, around, names, place, (name, tree) :: rest, _, .entry _ first others => by
    rw [inEntries, inEntries, below_inFiles halike hshape links around _ _ first,
      inEntries_inFiles halike hshape links around names place others]
termination_by links _ _ _ entries => (links, sizeOf entries)

end

end Search

/-- The files to check are the same when only bytes of files are different. -/
theorem collectFiles_congr (halike : files.Alike later)
    (hshape : files.tree.SameShape later.tree) (config : Config) (root : String) :
    collectFiles later config root = collectFiles files config root := by
  rw [collectFiles, collectFiles]
  cases hfind : files.find root with
  | error reason => rw [halike.find_eq_error hfind]
  | ok found =>
    obtain ⟨place, tree⟩ := found
    obtain ⟨tree', hlater, htree⟩ := halike.find_sameShape hshape hfind
    rw [hlater]
    cases tree with
    | file | link | closed => cases htree; rfl
    | dir entries =>
      obtain ⟨entries', rfl⟩ := htree.exists_dir
      dsimp only
      split
      · rfl
      · rename_i globs hglobs
        have hsearch := @Search.inEntries_inFiles later ⟨files, config, globs, root⟩ halike
          hshape files.tree.dirCount [⟨[], place⟩] [] place entries entries' htree
        rw [Search.inFiles] at hsearch
        rw [← hshape.dirCount_eq, hsearch]
        rfl

end RazenLint
