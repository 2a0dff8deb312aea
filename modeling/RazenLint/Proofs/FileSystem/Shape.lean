import RazenLint.Proofs.FileSystem.Change

/-!
# The shape of a tree

Two trees have the same shape when they have the same names, directories and links, in the same
order (`FileTree.SameShape`). What walks over a tree without reading its files sees the shape only.
A new file in place of another one keeps the shape (`SameShape.put`).
-/

namespace RazenLint

namespace FileTree

/-- Trees that differ in nothing but the bytes of files. -/
inductive SameShape : FileTree → FileTree → Prop
  | file (bytes bytes' : List UInt8) : SameShape (.file bytes) (.file bytes')
  | link (target : String) : SameShape (.link target) (.link target)
  | closed (isRegular : Bool) (reason : FileError) :
      SameShape (.closed isRegular reason) (.closed isRegular reason)
  | empty : SameShape (.dir []) (.dir [])
  | entry (name : String) {tree tree' : FileTree} {rest rest' : List (String × FileTree)}
      (first : SameShape tree tree') (others : SameShape (.dir rest) (.dir rest')) :
      SameShape (.dir ((name, tree) :: rest)) (.dir ((name, tree') :: rest'))

variable {tree tree' tree'' : FileTree} {entries entries' : List (String × FileTree)}
  {bytes : List UInt8} {place : Place}

namespace SameShape

theorem refl (tree : FileTree) : tree.SameShape tree :=
  match tree with
  | .file bytes => .file bytes bytes
  | .link target => .link target
  | .closed isRegular reason => .closed isRegular reason
  | .dir [] => .empty
  | .dir ((name, tree) :: rest) => .entry name (refl tree) (refl (.dir rest))

theorem trans (h : tree.SameShape tree') (h' : tree'.SameShape tree'') :
    tree.SameShape tree'' := by
  induction h generalizing tree'' with
  | file bytes _ => cases h'; exact .file _ _
  | link | closed | empty => exact h'
  | entry name _ _ ihFirst ihOthers =>
    cases h' with
    | entry _ first others => exact .entry name (ihFirst first) (ihOthers others)

theorem exists_dir (h : (dir entries).SameShape tree') : ∃ entries', tree' = dir entries' := by
  cases h <;> exact ⟨_, rfl⟩

theorem dirCount_eq (h : tree.SameShape tree') : tree.dirCount = tree'.dirCount := by
  induction h with
  | file | link | closed | empty => rfl
  | entry name _ _ ihFirst ihOthers =>
    simp only [dirCount, entryDirCount] at ihOthers ⊢
    omega

theorem lookup (h : (dir entries).SameShape (dir entries')) (name : String) :
    Option.Rel SameShape (entries.lookup name) (entries'.lookup name) := by
  induction entries generalizing entries' with
  | nil => cases h; exact .none
  | cons entry rest ih =>
    cases h with
    | entry other first others =>
      rw [List.lookup_cons, List.lookup_cons]
      cases name == other with
      | true => exact .some first
      | false => exact ih others

/-- Trees of the same shape have the same places, with the same shape below them. -/
theorem at? (h : tree.SameShape tree') (place : Place) :
    Option.Rel SameShape (tree.at? place) (tree'.at? place) := by
  induction place generalizing tree tree' with
  | nil => exact .some h
  | cons name rest ih =>
    rw [FileTree.at?, FileTree.at?]
    have hentry : Option.Rel SameShape (tree.entry? name) (tree'.entry? name) := by
      cases h with
      | file | link | closed | empty => exact .none
      | entry other first others => exact (SameShape.entry other first others).lookup name
    generalize tree.entry? name = child, tree'.entry? name = child' at hentry
    cases hentry with
    | none => exact .none
    | some hchild => exact ih hchild

/-- What replaces a tree of its shape under a name keeps the shape. -/
theorem replace {name : String} {child child' : FileTree} (h : child.SameShape child')
    (hchild : entries.lookup name = some child) :
    (dir entries).SameShape (dir (Table.replace name child' entries)) := by
  induction entries with
  | nil => cases hchild
  | cons entry rest ih =>
    obtain ⟨other, first⟩ := entry
    rw [Table.replace]
    by_cases hname : name = other
    · subst hname
      rw [List.lookup_cons_self] at hchild
      obtain rfl := Option.some.inj hchild
      rw [if_pos rfl]
      exact .entry name h (refl _)
    · rw [List.lookup_cons, beq_eq_false_iff_ne.2 hname] at hchild
      rw [if_neg hname]
      exact .entry other (refl first) (ih hchild)

/-- A new file in place of another one keeps the shape. -/
theorem put (new : List UInt8) (hfile : tree.at? place = some (.file bytes)) :
    tree.SameShape (tree.put place (.file new)) := by
  induction place generalizing tree with
  | nil =>
    obtain rfl := Option.some.inj hfile
    exact .file bytes new
  | cons name place ih =>
    cases tree with
    | file | link | closed => cases hfile
    | dir entries =>
      rw [at?_dir_cons, Option.bind_eq_some_iff] at hfile
      obtain ⟨child, hentry, hchild⟩ := hfile
      rw [Table.get?] at hentry
      rw [FileTree.put, hentry]
      exact (ih hchild).replace hentry

end SameShape

end FileTree

namespace FileSystem

variable {files later : FileSystem} {path : String} {place : Place} {found : FileTree}

/-- Where files have the same shape, a path leads to the same place with the same shape. -/
theorem Alike.find_sameShape (h : files.Alike later) (hshape : files.tree.SameShape later.tree)
    (hfind : files.find path = .ok (place, found)) :
    ∃ found', later.find path = .ok (place, found') ∧ found.SameShape found' := by
  obtain ⟨found', hlater, hat⟩ := h.find_eq_ok hfind
  have hplace := hshape.at? place
  rw [at?_of_find hfind, hat] at hplace
  cases hplace with
  | some hfound => exact ⟨found', hlater, hfound⟩

end FileSystem

end RazenLint
