import RazenLint.Check.Collect
import RazenLint.Proofs.FileSystem.Lookup

/-!
# The names of collected files

Whatever links a search follows, it goes from a directory to the names in it. So the files that it
finds have the path of its root with names of the tree behind it (`names_of_collectFiles`),
also below a link to a directory elsewhere.
-/

namespace RazenLint

variable {p : String → Prop}

namespace Search

/-- Names that lead on from others, by names that satisfy a condition. -/
def LeadOn (p : String → Prop) (names longer : List String) : Prop :=
  ∃ rest, longer = names ++ rest ∧ ∀ name ∈ rest, p name

theorem LeadOn.of_concat {names longer : List String} {name : String}
    (h : LeadOn p (names ++ [name]) longer) (hname : p name) :
    LeadOn p names longer ∧ longer ≠ names := by
  obtain ⟨rest, rfl, hrest⟩ := h
  rw [List.append_assoc, List.singleton_append]
  exact ⟨⟨name :: rest, rfl, List.forall_mem_cons.2 ⟨hname, hrest⟩⟩, by simp⟩

theorem leadOn_of_mem_taken {taken : Prop} [Decidable taken] {names longer : List String}
    (h : longer ∈ if taken then [names] else []) : LeadOn p names longer := by
  split at h
  · obtain rfl := List.mem_singleton.1 h
    exact ⟨[], (List.append_nil _).symm, List.forall_mem_nil p⟩
  · cases h

variable {search : Search}

mutual

theorem leadOn_of_mem_below (hfiles : search.files.tree.AllNames p) :
    ∀ (links : Nat) (around : List Visit) (names : List String) (place : Place) (tree : FileTree)
      {found : List (List String)}, tree.AllNames p →
      below search links around names place tree = .ok found →
      ∀ longer ∈ found, LeadOn p names longer
  | links, around, names, place, .file bytes, found, _, h, longer, hmem => by
    rw [below] at h
    cases h
    exact leadOn_of_mem_taken hmem
  | links, around, names, place, .closed isRegular reason, found, _, h, longer, hmem => by
    rw [below] at h
    cases h
    exact leadOn_of_mem_taken hmem
  | links, around, names, place, .dir entries, found, htree, h, longer, hmem => by
    rw [below] at h
    split at h
    · exact (leadOn_of_mem_inEntries hfiles links _ names place entries htree h longer hmem).1
    · cases h
      cases hmem
  | links, around, names, place, .link target, found, htree, h, longer, hmem => by
    rw [below] at h
    split at h
    · cases h
    · rename_i linked entries hfind
      have hentries := (hfiles.at? (FileSystem.at?_of_find hfind)).1
      split at h
      · cases h
      · split at h
        · split at h
          · cases h
            cases hmem
          · rename_i links
            exact (leadOn_of_mem_inEntries hfiles links _ names linked entries hentries h longer
              hmem).1
        · cases h
          cases hmem
    · cases h
      exact leadOn_of_mem_taken hmem
termination_by links _ _ _ tree => (links, sizeOf tree)

theorem leadOn_of_mem_inEntries (hfiles : search.files.tree.AllNames p) :
    ∀ (links : Nat) (around : List Visit) (names : List String) (place : Place)
      (entries : List (String × FileTree)) {found : List (List String)},
      (FileTree.dir entries).AllNames p →
      inEntries search links around names place entries = .ok found →
      ∀ longer ∈ found, LeadOn p names longer ∧ longer ≠ names
  | links, around, names, place, [], found, _, h, longer, hmem => by
    rw [inEntries] at h
    cases h
    cases hmem
  | links, around, names, place, (name, tree) :: rest, found, htree, h, longer, hmem => by
    obtain ⟨⟨hname, htree⟩, hrest⟩ := FileTree.allNames_dir_cons.1 htree
    rw [inEntries] at h
    split at h
    · cases h
    · rename_i first hfirst
      split at h
      · cases h
      · rename_i others hothers
        cases h
        rcases List.mem_append.1 hmem with hmem | hmem
        · exact (leadOn_of_mem_below hfiles links around (names ++ [name]) (place ++ [name]) tree
            htree hfirst longer hmem).of_concat hname
        · exact leadOn_of_mem_inEntries hfiles links around names place rest hrest hothers longer
            hmem
termination_by links _ _ _ entries => (links, sizeOf entries)

end

end Search

/-- A root that is a directory has files with names of the tree behind it, and any other root
is the one file that is collected. -/
theorem names_of_collectFiles {files : FileSystem} (hfiles : files.tree.AllNames p)
    {config : Config} {root : String} {paths : List String}
    (h : collectFiles files config root = .ok paths) :
    root ≠ "" ∧ (paths = [root] ∨ ∀ path ∈ paths,
      ∃ names, names ≠ [] ∧ (∀ name ∈ names, p name) ∧ path = Path.joinAll root names) := by
  rw [collectFiles] at h
  split at h
  · cases h
  · rename_i place entries hroot
    refine ⟨FileSystem.ne_empty_of_find hroot, Or.inr fun path hmem => ?_⟩
    split at h
    · cases h
    · rename_i globs hglobs
      dsimp only at h
      split at h
      · cases h
      · rename_i found hfound
        cases h
        obtain ⟨names, hnames, rfl⟩ := List.mem_map.1 hmem
        obtain ⟨⟨rest, rfl, hrest⟩, hne⟩ := Search.leadOn_of_mem_inEntries hfiles _ _ _ _ _
          (hfiles.at? (FileSystem.at?_of_find hroot)).1 hfound names (List.mem_mergeSort.1 hnames)
        exact ⟨names, hne, hrest, rfl⟩
  · rename_i place target _ hroot
    refine ⟨FileSystem.ne_empty_of_find hroot, ?_⟩
    split at h
    · cases h
      exact Or.inl rfl
    · split at h
      · cases h
      · cases h
        exact Or.inr (List.forall_mem_nil _)

end RazenLint
