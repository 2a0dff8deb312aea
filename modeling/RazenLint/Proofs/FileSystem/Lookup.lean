import RazenLint.FileSystem.Basic
import RazenLint.Proofs.FileSystem.Tree

/-!
# Looking paths up

A lookup ends at a place with what is at this place (`follow_eq_ok`), so what a path leads to is
part of the tree (`at?_of_find`) and has the names that the tree has (`AllNames.at?`). The names
on a disk are names of files, which a `NamedFileSystem` carries.
-/

namespace RazenLint

namespace FileTree

variable {tree found : FileTree} {p : String → Prop}

/-- Every name in a tree satisfies a condition. -/
inductive AllNames (p : String → Prop) : FileTree → Prop
  | file (bytes : List UInt8) : AllNames p (.file bytes)
  | dir {entries : List (String × FileTree)} (named : ∀ entry ∈ entries, p entry.1)
      (inside : ∀ entry ∈ entries, AllNames p entry.2) : AllNames p (.dir entries)
  | link (target : String) : AllNames p (.link target)
  | closed (isRegular : Bool) (reason : FileError) : AllNames p (.closed isRegular reason)

theorem allNames_dir_cons {entry : String × FileTree} {rest : List (String × FileTree)} :
    (dir (entry :: rest)).AllNames p ↔
      (p entry.1 ∧ entry.2.AllNames p) ∧ (dir rest).AllNames p := by
  constructor
  · rintro (_ | ⟨named, inside⟩ | _ | _)
    rw [List.forall_mem_cons] at named inside
    exact ⟨⟨named.1, inside.1⟩, .dir named.2 inside.2⟩
  · rintro ⟨⟨hname, htree⟩, _ | ⟨named, inside⟩ | _ | _⟩
    exact .dir (List.forall_mem_cons.2 ⟨hname, named⟩) (List.forall_mem_cons.2 ⟨htree, inside⟩)

/-- What is below a directory is below one of its entries. -/
theorem at?_dir_cons (entries : List (String × FileTree)) (name : String) (place : Place) :
    (dir entries).at? (name :: place) = (Table.get? entries name).bind (·.at? place) := by
  rw [at?, entry?, ← Table.get?]
  cases Table.get? entries name <;> rfl

theorem at?_append (tree : FileTree) (place rest : Place) :
    tree.at? (place ++ rest) = (tree.at? place).bind (·.at? rest) := by
  induction place generalizing tree with
  | nil => rfl
  | cons name place ih =>
    rw [List.cons_append, at?, at?]
    cases tree.entry? name with
    | none => rfl
    | some child => exact ih child

theorem at?_concat {entries : List (String × FileTree)} {place : Place}
    (h : tree.at? place = some (.dir entries)) (name : String) :
    tree.at? (place ++ [name]) = Table.get? entries name := by
  rw [at?_append, h, Option.bind_some, at?_dir_cons]
  cases Table.get? entries name <;> rfl

/-- What is in a tree has the names of the tree, and so has the way to it. -/
theorem AllNames.at? (h : tree.AllNames p) {place : Place} (hfound : tree.at? place = some found) :
    found.AllNames p ∧ ∀ name ∈ place, p name := by
  induction place generalizing tree with
  | nil =>
    obtain rfl := Option.some.inj hfound
    exact ⟨h, List.forall_mem_nil p⟩
  | cons name place ih =>
    cases h with
    | file | link | closed => cases hfound
    | @dir entries named inside =>
      rw [at?_dir_cons, Option.bind_eq_some_iff] at hfound
      obtain ⟨child, hentry, hchild⟩ := hfound
      have hmem : (name, child) ∈ entries := by
        obtain ⟨before, after, rfl, -⟩ := List.lookup_eq_some_iff.1 hentry
        exact List.mem_append_right before List.mem_cons_self
      obtain ⟨hnames, hplace⟩ := ih (inside _ hmem) hchild
      exact ⟨hnames, List.forall_mem_cons.2 ⟨named _ hmem, hplace⟩⟩

/-- The names in a tree without links are names of files. -/
theorem LinkFree.allNames (h : tree.LinkFree) : tree.AllNames Path.IsFileName := by
  induction h with
  | file bytes => exact .file bytes
  | closed reason => exact .closed false reason
  | dir distinct named inside ih => exact .dir named ih

end FileTree

/-- A file system as a disk holds it : every name in its directories is one that something in a
directory can have. -/
structure NamedFileSystem extends FileSystem where
  named : tree.AllNames Path.IsFileName

namespace FileSystem

/-- A lookup ends with what is at the place where it ends. -/
theorem follow_eq_ok {tree : FileTree} {followLast : Bool} {links : Nat} {place : Place}
    {steps : List Step} {target : Place} {found : Option FileTree}
    (h : follow tree followLast links place steps = .ok (target, found)) :
    found = tree.at? target := by
  fun_induction follow tree followLast links place steps with
  | case1 => cases h; rfl
  | case2 _ _ _ _ _ ih | case3 _ _ _ _ _ ih => exact ih h
  | case4 | case6 | case8 | case11 => cases h
  | case5 _ place rest entries hdir text _ hmissing _ =>
    cases h
    exact hmissing.symm.trans (FileTree.at?_concat hdir text).symm
  | case7 _ place rest entries hdir text _ link hlink _ =>
    cases h
    exact hlink.symm.trans (FileTree.at?_concat hdir text).symm
  | case9 _ _ _ _ _ _ _ _ _ _ ih => exact ih h
  | case10 _ _ _ _ _ _ _ _ _ _ ih => exact ih h

variable {files : FileSystem} {path : String} {place : Place} {found : FileTree}

/-- A path that can be looked up at all is followed step by step. -/
theorem lookup_eq_ok_iff {followLast : Bool} {target : Target} :
    files.lookup path followLast = .ok target ↔
      '\x00' ∉ path.toList ∧ path ≠ "" ∧ path.utf8ByteSize ≤ maxPathBytes ∧
        follow files.tree followLast maxLinks
          (if Path.isAbsolute path then [] else files.workingPlace) (stepsOf path) = .ok target := by
  by_cases hnul : '\x00' ∈ path.toList
  · simp [lookup, hnul]
  · by_cases hempty : path = ""
    · simp [lookup, hempty]
    · by_cases hlong : maxPathBytes < path.utf8ByteSize
      · simp [lookup, hnul, hempty, hlong]
      · simp [lookup, hnul, hempty, hlong, Nat.not_lt.1 hlong]

theorem at?_of_lookup {followLast : Bool} {content : Option FileTree}
    (h : files.lookup path followLast = .ok (place, content)) :
    content = files.tree.at? place := by
  obtain ⟨-, -, -, hfollow⟩ := lookup_eq_ok_iff.1 h
  exact follow_eq_ok hfollow

theorem find_eq_ok_iff : files.find path = .ok (place, found) ↔
    files.lookup path true = .ok (place, some found) := by
  rw [find]
  split
  · rename_i target content hlookup
    simp [hlookup]
  · rename_i target hlookup
    simp [hlookup]
  · rename_i e hlookup
    simp [hlookup]

theorem ne_empty_of_find (h : files.find path = .ok (place, found)) : path ≠ "" :=
  (lookup_eq_ok_iff.1 (find_eq_ok_iff.1 h)).2.1

/-- What a path leads to is in the tree. -/
theorem at?_of_find (h : files.find path = .ok (place, found)) :
    files.tree.at? place = some found :=
  (at?_of_lookup (find_eq_ok_iff.1 h)).symm

/-! ## Paths with known steps -/

/-- A path that can be looked up, with the steps that it has. -/
abbrev HasSteps (path : String) (steps : List Step) : Prop :=
  '\x00' ∉ path.toList ∧ path ≠ "" ∧ path.utf8ByteSize ≤ maxPathBytes ∧ stepsOf path = steps

theorem lookup_of_hasSteps {steps : List Step} (h : HasSteps path steps) (followLast : Bool) :
    files.lookup path followLast = follow files.tree followLast maxLinks
      (if Path.isAbsolute path then [] else files.workingPlace) steps := by
  obtain ⟨hnul, hempty, hlong, rfl⟩ := h
  rw [lookup, if_neg (by simpa using hnul), if_neg hempty, if_neg (Nat.not_lt.2 hlong)]

/-- A name of something in a directory that is no link is one step on. -/
theorem follow_name {tree : FileTree} {followLast : Bool} {links : Nat} {name : String}
    {rest : List Step} {entries : List (String × FileTree)}
    (hdir : tree.at? place = some (.dir entries)) (hname : name.utf8ByteSize ≤ maxNameBytes)
    (hentry : entries.lookup name = some found) (hlink : ∀ target, found ≠ .link target) :
    follow tree followLast links place (.name name :: rest) =
      follow tree followLast links (place ++ [name]) rest := by
  rw [follow, hdir]
  dsimp only
  rw [if_neg (Nat.not_lt.2 hname), hentry]
  cases found with
  | link target => exact absurd rfl (hlink target)
  | file | dir | closed => rfl

/-- In the root directory a path with one name leads to what has the name. -/
theorem find_rootEntry {entries : List (String × FileTree)} {name : String}
    (hroot : files.tree = .dir entries) (hplace : files.workingPlace = [])
    (hpath : HasSteps path [.name name] ∨ HasSteps path [.stay, .name name])
    (hname : name.utf8ByteSize ≤ maxNameBytes) (hentry : entries.lookup name = some found)
    (hlink : ∀ target, found ≠ .link target) : files.find path = .ok ([name], found) := by
  have hdir : files.tree.at? [] = some (.dir entries) := by rw [hroot]; rfl
  have hfollow : follow files.tree true maxLinks [] [.name name] = .ok ([name], some found) := by
    rw [follow_name hdir hname hentry hlink, follow, FileTree.at?_concat hdir, Table.get?, hentry]
    rfl
  rw [find_eq_ok_iff]
  obtain hpath | hpath := hpath
  · rw [lookup_of_hasSteps hpath, hplace, ite_self, hfollow]
  · rw [lookup_of_hasSteps hpath, hplace, ite_self, follow, hdir]
    exact hfollow

/-- A path whose first name is missing in the root directory leads nowhere. -/
theorem find_rootMissing {entries : List (String × FileTree)} {name : String} {rest : List Step}
    (hroot : files.tree = .dir entries) (hplace : files.workingPlace = [])
    (hpath : HasSteps path (.stay :: .name name :: rest))
    (hname : name.utf8ByteSize ≤ maxNameBytes) (hmissing : entries.lookup name = none) :
    files.find path = .error .notFound := by
  have hdir : files.tree.at? [] = some (.dir entries) := by rw [hroot]; rfl
  rw [find, lookup_of_hasSteps hpath, hplace, ite_self, follow, hdir]
  dsimp only
  rw [follow, hdir]
  dsimp only
  rw [if_neg (Nat.not_lt.2 hname), hmissing]
  cases rest <;> rfl

end FileSystem

end RazenLint
