import RazenLint.Proofs.FileSystem.Lookup

/-!
# Changing one file

What a place holds by itself is its node : the bytes of a file, the way of a link, why it cannot
be opened, or that it is a directory. Giving a file new bytes changes the node of its place and no
other (`node?_put`). The way of a lookup depends on directories and links only (`follow_congr`),
so every path leads where it led, and only the file has other content (`SameExcept.put`). A path
that leads to a file can be written (`write_of_find`).
-/

namespace RazenLint

/-- What is at a place, without what is below it. -/
inductive Node where
  | file (bytes : List UInt8)
  | dir
  | link (target : String)
  | closed (isRegular : Bool) (reason : FileError)
deriving DecidableEq, Repr

/-- The node without the bytes of a file. -/
def Node.emptied : Node → Node
  | file _ => file []
  | node => node

namespace FileTree

def node : FileTree → Node
  | file bytes => .file bytes
  | dir _ => .dir
  | link target => .link target
  | closed isRegular reason => .closed isRegular reason

/-- The node at a place. -/
def node? (tree : FileTree) (place : Place) : Option Node :=
  (tree.at? place).map node

/-- What a lookup sees of a tree : its node without the bytes of a file. -/
def kind (tree : FileTree) : Node :=
  tree.node.emptied

variable {tree tree' found : FileTree} {bytes : List UInt8} {place : Place}

theorem node?_cons (entries : List (String × FileTree)) (name : String) (place : Place) :
    (dir entries).node? (name :: place) = (Table.get? entries name).bind (·.node? place) := by
  rw [node?, at?_dir_cons]
  cases Table.get? entries name <;> rfl

/-- Giving a file new bytes changes what is at its place, and nothing else. -/
theorem node?_put (new : List UInt8) (h : tree.at? place = some (.file bytes)) (other : Place) :
    (tree.put place (.file new)).node? other =
      if other = place then some (.file new) else tree.node? other := by
  induction place generalizing tree other with
  | nil =>
    obtain rfl := Option.some.inj h
    cases other <;> rfl
  | cons name place ih =>
    cases tree with
    | file | link | closed => cases h
    | dir entries =>
      rw [at?_dir_cons, Option.bind_eq_some_iff] at h
      obtain ⟨child, hentry, hchild⟩ := h
      rw [put, ← Table.get?, hentry]
      cases other with
      | nil => rfl
      | cons otherName rest =>
        rw [node?_cons, node?_cons, Table.get?_replace hentry]
        by_cases hname : otherName = name
        · subst hname
          rw [if_pos rfl, Option.bind_some, ih hchild, hentry, Option.bind_some]
          simp
        · rw [if_neg hname, if_neg fun heq => hname (List.cons.inj heq).1]

theorem node_eq_file_iff : found.node = .file bytes ↔ found = .file bytes := by
  cases found <;> simp [node]

theorem kind_eq_dir_iff : found.kind = .dir ↔ ∃ entries, found = .dir entries := by
  cases found <;> simp [kind, node, Node.emptied]

/-- Where a lookup sees the same, it sees the same link. -/
theorem eq_link_of_map_kind_eq {entry entry' : Option FileTree} {target : String}
    (h : entry.map kind = entry'.map kind) (hlink : entry = some (.link target)) :
    entry' = some (.link target) := by
  rw [hlink, Option.map_some, eq_comm, Option.map_eq_some_iff] at h
  obtain ⟨_ | _ | _ | _, hentry, hkind⟩ := h <;> cases hkind
  exact hentry

/-- Two trees that differ in nothing but the bytes of files. -/
def Alike (tree tree' : FileTree) : Prop :=
  ∀ place, (tree.at? place).map kind = (tree'.at? place).map kind

namespace Alike

theorem refl (tree : FileTree) : tree.Alike tree :=
  fun _ => rfl

theorem symm (h : tree.Alike tree') : tree'.Alike tree :=
  fun place => (h place).symm

theorem trans {tree'' : FileTree} (h : tree.Alike tree') (h' : tree'.Alike tree'') :
    tree.Alike tree'' :=
  fun place => (h place).trans (h' place)

theorem put (new : List UInt8) (h : tree.at? place = some (.file bytes)) :
    tree.Alike (tree.put place (.file new)) := by
  intro other
  have hnode : ∀ tree : FileTree, (tree.at? other).map kind = (tree.node? other).map Node.emptied :=
    fun tree => by rw [node?, Option.map_map]; rfl
  rw [hnode, hnode, node?_put new h]
  split
  · rename_i heq
    rw [heq, node?, h]
    rfl
  · rfl

variable {entries : List (String × FileTree)} (h : tree.Alike tree')
  (hdir : tree.at? place = some (.dir entries))
include h hdir

/-- Where one tree has a directory the other one has, with entries that are alike. -/
theorem exists_dir : ∃ entries', tree'.at? place = some (.dir entries') ∧
    ∀ name, (entries.lookup name).map kind = (entries'.lookup name).map kind := by
  have hplace := h place
  rw [hdir, Option.map_some, eq_comm, Option.map_eq_some_iff] at hplace
  obtain ⟨found, hfound, hkind⟩ := hplace
  obtain ⟨entries', rfl⟩ := kind_eq_dir_iff.1 hkind
  refine ⟨entries', hfound, fun name => ?_⟩
  have hname := h (place ++ [name])
  rwa [at?_concat hdir, at?_concat hfound] at hname

end Alike

end FileTree

namespace FileSystem

open FileTree

variable {tree tree' : FileTree} {followLast : Bool} {links : Nat} {place : Place}
  {steps : List Step}

/-- In trees that differ in the bytes of files only, lookups end at the same places. -/
theorem follow_congr (h : tree.Alike tree') :
    (follow tree followLast links place steps).map Prod.fst =
      (follow tree' followLast links place steps).map Prod.fst := by
  fun_induction follow tree followLast links place steps with
  | case1 => rw [follow]; rfl
  | case2 links place rest entries hdir ih | case3 links place rest entries hdir ih =>
    obtain ⟨entries', hdir', -⟩ := h.exists_dir hdir
    rw [ih, follow, hdir']
  | case4 links place rest entries hdir text hlong =>
    obtain ⟨entries', hdir', -⟩ := h.exists_dir hdir
    rw [follow, hdir']
    simp [hlong]
  | case5 links place rest entries hdir text hshort hmissing hlast
  | case6 links place rest entries hdir text hshort hmissing hlast =>
    obtain ⟨entries', hdir', hentries⟩ := h.exists_dir hdir
    have hmissing' : entries'.lookup text = none := by
      rw [← Option.map_eq_none_iff (f := kind), ← hentries, hmissing, Option.map_none]
    rw [follow, hdir']
    simp [hshort, hmissing', hlast]
  | case7 links place rest entries hdir text hshort target hlink hlast =>
    obtain ⟨entries', hdir', hentries⟩ := h.exists_dir hdir
    have hlink' := eq_link_of_map_kind_eq (hentries text) hlink
    rw [follow, hdir']
    simp [hshort, hlink', hlast]
  | case8 place rest entries hdir text hshort target hlink hlast =>
    obtain ⟨entries', hdir', hentries⟩ := h.exists_dir hdir
    have hlink' := eq_link_of_map_kind_eq (hentries text) hlink
    rw [follow, hdir']
    simp [hshort, hlink', hlast]
  | case9 place rest entries hdir text hshort target hlink hlast links ih =>
    obtain ⟨entries', hdir', hentries⟩ := h.exists_dir hdir
    have hlink' := eq_link_of_map_kind_eq (hentries text) hlink
    simp only [dite_eq_ite] at ih
    rw [ih, follow, hdir']
    simp [hshort, hlink', hlast]
  | case10 links place rest entries hdir text hshort entry hother hentry ih =>
    obtain ⟨entries', hdir', hentries⟩ := h.exists_dir hdir
    have hkind := hentries text
    rw [hentry, Option.map_some, eq_comm, Option.map_eq_some_iff] at hkind
    obtain ⟨entry', hentry', hkind⟩ := hkind
    rw [ih, follow, hdir']
    cases entry' with
    | link target =>
      have hlink := eq_link_of_map_kind_eq (hentries text).symm hentry'
      rw [hentry] at hlink
      exact absurd (Option.some.inj hlink) (hother target)
    | file | dir | closed => simp [hshort, hentry']
  | case11 links place step rest hno =>
    rw [follow]
    split
    · rename_i entries' hdir'
      obtain ⟨entries, hdir, -⟩ := h.symm.exists_dir hdir'
      exact absurd hdir (hno entries)
    · rfl

/-- Two file systems that differ in nothing but the bytes of files. -/
structure Alike (files later : FileSystem) : Prop where
  tree : files.tree.Alike later.tree
  workingPlace : files.workingPlace = later.workingPlace
  configHome : files.configHome = later.configHome

variable {files later : FileSystem} {path : String} {found : FileTree} {bytes new : List UInt8}

theorem lookup_congr (h : files.Alike later) :
    (files.lookup path followLast).map Prod.fst = (later.lookup path followLast).map Prod.fst := by
  rw [lookup, lookup, h.workingPlace]
  split
  · rfl
  · split
    · rfl
    · split
      · rfl
      · exact follow_congr h.tree

/-- Every path leads to the same place. -/
theorem find_congr (h : files.Alike later) (path : String) :
    (files.find path).map Prod.fst = (later.find path).map Prod.fst := by
  have hlookup : (files.lookup path true).map Prod.fst = (later.lookup path true).map Prod.fst :=
    lookup_congr h
  rw [find, find]
  cases hbefore : files.lookup path true with
  | error e =>
    cases hafter : later.lookup path true with
    | error e' =>
      rw [hbefore, hafter] at hlookup
      cases hlookup
      rfl
    | ok target => rw [hbefore, hafter] at hlookup; cases hlookup
  | ok target =>
    obtain ⟨place, content⟩ := target
    cases hafter : later.lookup path true with
    | error e => rw [hbefore, hafter] at hlookup; cases hlookup
    | ok target' =>
      obtain ⟨place', content'⟩ := target'
      rw [hbefore, hafter] at hlookup
      obtain rfl : place = place' := Except.ok.inj hlookup
      -- Something is missing at the place in both trees, or in neither of them.
      have hkind := h.tree place
      rw [← at?_of_lookup hbefore, ← at?_of_lookup hafter] at hkind
      cases content with
      | none =>
        rw [Option.map_none, eq_comm, Option.map_eq_none_iff] at hkind
        rw [hkind]
      | some found =>
        rw [Option.map_some, eq_comm, Option.map_eq_some_iff] at hkind
        obtain ⟨found', rfl, -⟩ := hkind
        rfl

namespace Alike

theorem refl (files : FileSystem) : files.Alike files :=
  ⟨.refl _, rfl, rfl⟩

theorem trans {last : FileSystem} (h : files.Alike later) (h' : later.Alike last) :
    files.Alike last :=
  ⟨h.tree.trans h'.tree, h.workingPlace.trans h'.workingPlace, h.configHome.trans h'.configHome⟩

theorem put (new : List UInt8) (h : files.tree.at? place = some (.file bytes)) :
    files.Alike (files.put place (.file new)) :=
  ⟨.put new h, rfl, rfl⟩

variable (h : files.Alike later)
include h

/-- A path that leads somewhere leads there still. -/
theorem find_eq_ok (hfind : files.find path = .ok (place, found)) :
    ∃ found', later.find path = .ok (place, found') ∧ later.tree.at? place = some found' := by
  have hlater := find_congr h path
  rw [hfind] at hlater
  cases hafter : later.find path with
  | error e => rw [hafter] at hlater; cases hlater
  | ok target =>
    obtain ⟨place', found'⟩ := target
    rw [hafter] at hlater
    obtain rfl : place = place' := Except.ok.inj hlater
    exact ⟨found', rfl, at?_of_find hafter⟩

/-- A path that leads nowhere fails for the same reason. -/
theorem find_eq_error {reason : FileError} (hfind : files.find path = .error reason) :
    later.find path = .error reason := by
  have hlater := find_congr h path
  rw [hfind] at hlater
  cases hafter : later.find path with
  | ok target => rw [hafter] at hlater; cases hlater
  | error reason' => rw [hafter] at hlater; cases hlater; rfl

/-- A path leads to the file that its place has become. -/
theorem find_of_node? (hfind : files.find path = .ok (place, found))
    (hnode : later.tree.node? place = some (.file new)) :
    later.find path = .ok (place, .file new) := by
  obtain ⟨found', hlater, hat⟩ := h.find_eq_ok hfind
  rw [node?, hat, Option.map_some, Option.some_inj, node_eq_file_iff] at hnode
  rw [hlater, hnode]

theorem canonical_eq (path : String) : later.canonical path = files.canonical path := by
  cases hfind : files.find path with
  | error reason => rw [canonical, canonical, hfind, h.find_eq_error hfind]
  | ok target =>
    obtain ⟨found', hlater, -⟩ := h.find_eq_ok hfind
    rw [canonical, canonical, hfind, hlater]
    rfl

end Alike

/-- Two file systems that are the same but for what one place holds. -/
structure SameExcept (place : Place) (files later : FileSystem) : Prop where
  node : ∀ other ≠ place, later.tree.node? other = files.tree.node? other
  workingPlace : later.workingPlace = files.workingPlace
  configHome : later.configHome = files.configHome

theorem SameExcept.refl (place : Place) (files : FileSystem) : SameExcept place files files :=
  ⟨fun _ _ => rfl, rfl, rfl⟩

theorem SameExcept.put (new : List UInt8) (h : files.tree.at? place = some (.file bytes)) :
    SameExcept place files (files.put place (.file new)) :=
  ⟨fun other hother => (FileTree.node?_put new h other).trans (if_neg hother), rfl, rfl⟩

/-- What a path reads is the same when it does not lead to the place that has changed. -/
theorem Alike.readBytes_eq (h : files.Alike later) (hsame : SameExcept place files later)
    (hpath : ∀ found, files.find path ≠ .ok (place, found)) :
    later.readBytes path = files.readBytes path := by
  cases hfind : files.find path with
  | error reason => rw [readBytes, readBytes, hfind, h.find_eq_error hfind]
  | ok target =>
    obtain ⟨other, found⟩ := target
    have hother : other ≠ place := fun heq => hpath found (heq ▸ hfind)
    obtain ⟨found', hlater, hat⟩ := h.find_eq_ok hfind
    have hnode := hsame.node other hother
    rw [node?, node?, hat, at?_of_find hfind, Option.map_some, Option.map_some,
      Option.some_inj] at hnode
    rw [readBytes, readBytes, hfind, hlater]
    cases found with
    | file bytes => rw [node_eq_file_iff.1 hnode]
    | dir | link | closed =>
      cases found' <;> cases hnode
      rfl

/-! ## Writing a file -/

/-- What ends with a step that asks for a directory does not lead to a file. -/
theorem getLast?_ne_stay_of_follow {target : Place}
    (h : follow tree followLast links place steps = .ok (target, some (.file bytes))) :
    steps.getLast? ≠ some .stay := by
  have hlast : ∀ {step : Step} {rest : List Step}, (step :: rest).getLast? = some .stay →
      step = .stay ∧ rest = [] ∨ rest.getLast? = some .stay := by
    intro step rest hstay
    cases rest with
    | nil => exact Or.inl ⟨Option.some.inj hstay, rfl⟩
    | cons next rest => exact Or.inr (by rwa [List.getLast?_cons_cons] at hstay)
  fun_induction follow tree followLast links place steps with
  | case1 => simp
  | case2 links place rest entries hdir ih =>
    intro hstay
    obtain ⟨-, rfl⟩ | hrest := hlast hstay
    · rw [follow, hdir] at h
      cases h
    · exact ih h hrest
  | case3 links place rest entries hdir ih =>
    intro hstay
    obtain ⟨hup, -⟩ | hrest := hlast hstay
    · cases hup
    · exact ih h hrest
  | case4 | case5 | case6 | case7 | case8 | case11 => cases h
  | case9 place rest entries hdir text hshort link hlink hfollow links ih =>
    intro hstay
    obtain ⟨hname, -⟩ | hrest := hlast hstay
    · cases hname
    · exact ih h (by rw [List.getLast?_append, hrest, Option.some_or])
  | case10 links place rest entries hdir text hshort entry hother hentry ih =>
    intro hstay
    obtain ⟨hname, -⟩ | hrest := hlast hstay
    · cases hname
    · exact ih h hrest

theorem getLast?_stepsOf {path : String} (h : path.toList.getLast? = some '/') :
    (stepsOf path).getLast? = some .stay := by
  obtain ⟨front, hfront⟩ := List.getLast?_eq_some_iff.1 h
  rw [stepsOf, Path.segments, hfront, Path.segmentsOf_append_slash]
  simp [Path.segmentsOf, Path.isPassedOver]

/-- A path that leads to a file can be written, and its file is what changes. -/
theorem write_of_find (h : files.find path = .ok (place, .file bytes)) (new : List UInt8) :
    files.write path new = .ok (files.put place (.file new)) := by
  have hlookup := find_eq_ok_iff.1 h
  obtain ⟨-, -, -, hfollow⟩ := lookup_eq_ok_iff.1 hlookup
  have hslash : path.toList.getLast? ≠ some '/' :=
    fun hslash => getLast?_ne_stay_of_follow hfollow (getLast?_stepsOf hslash)
  rw [write, if_neg hslash, hlookup]

end FileSystem

end RazenLint
