import Mathlib.Data.List.Lex
import Mathlib.Data.List.TakeWhile
import Mathlib.Data.String.Basic
import RazenLint.Path

/-!
# Paths below a directory

What the functions on paths say about the path of something below a directory, when every
name on the way is one that a directory can hold (`IsFileName`). Its components are those
of the directory and then the names (`components_joinAll`), so different names give
different paths (`joinAll_inj`), and the directory taken off again leaves the names
(`relativeTo?_joinAll`).

Paths are in the order of their components (`Before`).
-/

namespace RazenLint.Path

/-- A name that something in a directory can have. -/
structure IsFileName (name : String) : Prop where
  ne_empty : name ≠ ""
  notMem : '/' ∉ name.toList
  ne_dot : name ≠ "."
  ne_dots : name ≠ ".."

instance (name : String) : Decidable (IsFileName name) :=
  decidable_of_iff (name ≠ "" ∧ '/' ∉ name.toList ∧ name ≠ "." ∧ name ≠ "..")
    ⟨fun ⟨hempty, hslash, hdot, hdots⟩ => ⟨hempty, hslash, hdot, hdots⟩,
      fun h => ⟨h.ne_empty, h.notMem, h.ne_dot, h.ne_dots⟩⟩

theorem IsFileName.not_isPassedOver {name : String} (h : IsFileName name) :
    isPassedOver name = false := by
  simp [isPassedOver, h.ne_empty, h.ne_dot]

theorem IsFileName.component?_eq {name : String} (h : IsFileName name) :
    component? name = some (.name name) := by
  rw [component?, h.not_isPassedOver, if_neg Bool.false_ne_true, if_neg h.ne_dots]

/-! ## Segments -/

theorem segmentsOf_ne_nil (text : List Char) : segmentsOf text ≠ [] := by
  cases text with
  | nil => simp [segmentsOf]
  | cons c cs =>
    rw [segmentsOf]
    split
    · simp
    · split <;> simp

theorem segmentsOf_of_notMem {text : List Char} (h : '/' ∉ text) : segmentsOf text = [text] := by
  induction text with
  | nil => rfl
  | cons c cs ih =>
    rw [List.mem_cons, not_or] at h
    rw [segmentsOf, if_neg (Ne.symm h.1), ih h.2]

theorem segmentsOf_append_slash (front back : List Char) :
    segmentsOf (front ++ '/' :: back) = segmentsOf front ++ segmentsOf back := by
  induction front with
  | nil => rfl
  | cons c cs ih =>
    rw [List.cons_append, segmentsOf, segmentsOf, ih]
    split
    · rfl
    · obtain ⟨first, rest, hcs⟩ := List.exists_cons_of_ne_nil (segmentsOf_ne_nil cs)
      rw [hcs]
      rfl

theorem segments_ne_nil (path : String) : segments path ≠ [] := by
  rw [segments, Ne, List.map_eq_nil_iff]
  exact segmentsOf_ne_nil path.toList

theorem segments_append_slash (front back : String) :
    segments (front ++ "/" ++ back) = segments front ++ segments back := by
  rw [segments, String.append_assoc, String.toList_append, String.toList_append,
    show "/".toList = ['/'] from rfl, List.singleton_append, segmentsOf_append_slash,
    List.map_append]
  rfl

theorem segments_of_notMem {name : String} (h : '/' ∉ name.toList) : segments name = [name] := by
  rw [segments, segmentsOf_of_notMem h, List.map_singleton, String.ofList_toList]

@[simp] theorem ofSegments_singleton (name : String) : ofSegments [name] = name :=
  String.intercalate_singleton

theorem ofSegments_cons_cons (name next : String) (rest : List String) :
    ofSegments (name :: next :: rest) = name ++ "/" ++ ofSegments (next :: rest) :=
  String.intercalate_cons_cons

/-- Segments without slashes are those of their path. -/
theorem segments_ofSegments {names : List String} (h : names ≠ [])
    (hnames : ∀ name ∈ names, '/' ∉ name.toList) : segments (ofSegments names) = names := by
  induction names with
  | nil => exact absurd rfl h
  | cons name rest ih =>
    obtain ⟨hname, hrest⟩ := List.forall_mem_cons.1 hnames
    cases rest with
    | nil =>
      rw [ofSegments_singleton]
      exact segments_of_notMem hname
    | cons next rest =>
      rw [ofSegments_cons_cons, segments_append_slash, segments_of_notMem hname,
        ih (List.cons_ne_nil _ _) hrest, List.singleton_append]

/-! ## The path of something in a directory -/

/-- A directory with a slash at its end, to which a name can be added. -/
def opened (directory : String) : String :=
  if directory = "" ∨ directory.toList.getLast? = some '/' then directory else directory ++ "/"

theorem join_eq {name : String} (h : isAbsolute name = false) (directory : String) :
    join directory name = opened directory ++ name := by
  rw [join, opened, h, if_neg Bool.false_ne_true]
  split <;> rfl

theorem isAbsolute_append {front : String} (h : front ≠ "") (back : String) :
    isAbsolute (front ++ back) = isAbsolute front := by
  rw [isAbsolute, isAbsolute, String.toList_append,
    List.head?_append_of_ne_nil _ (by simpa using h)]

/-- Unless a directory is given by nothing, a slash is put behind its segments, where its
own last segment may be empty. -/
theorem exists_opened {directory : String} (h : directory ≠ "") :
    ∃ stem last, opened directory = stem ++ "/" ∧ segments directory = segments stem ++ last ∧
      last.filterMap component? = [] := by
  rw [opened]
  split
  · rename_i hend
    obtain ⟨stem, hstem⟩ := List.getLast?_eq_some_iff.1 (hend.resolve_left h)
    have hdirectory : directory = String.ofList stem ++ "/" := by
      rw [← String.toList_inj, hstem, String.toList_append, String.toList_ofList]
      rfl
    refine ⟨String.ofList stem, [""], hdirectory, ?_, rfl⟩
    rw [hdirectory, ← String.append_empty (s := _ ++ "/"), segments_append_slash]
    rfl
  · exact ⟨directory, [], rfl, (List.append_nil _).symm, rfl⟩

namespace IsFileName

variable {name : String}

theorem toList_ne_nil (h : IsFileName name) : name.toList ≠ [] := by
  simpa using h.ne_empty

theorem isAbsolute_eq (h : IsFileName name) : isAbsolute name = false := by
  rw [isAbsolute, decide_eq_false_iff_not]
  exact fun hhead => h.notMem (List.mem_of_mem_head? hhead)

theorem opened_append (h : IsFileName name) (front : String) :
    opened (front ++ name) = front ++ name ++ "/" := by
  rw [opened, if_neg]
  rintro (hempty | hend)
  · exact h.ne_empty (String.append_eq_empty_iff.1 hempty).2
  · rw [String.toList_append, List.getLast?_append_of_ne_nil _ h.toList_ne_nil] at hend
    exact h.notMem (List.mem_of_getLast? hend)

end IsFileName

/-- Names are added to a directory with slashes between them. -/
theorem joinAll_cons {name : String} {rest : List String}
    (hnames : ∀ other ∈ name :: rest, IsFileName other) (directory : String) :
    joinAll directory (name :: rest) = opened directory ++ ofSegments (name :: rest) := by
  induction rest generalizing directory name with
  | nil =>
    rw [ofSegments_singleton]
    exact join_eq (hnames name List.mem_cons_self).isAbsolute_eq directory
  | cons next rest ih =>
    obtain ⟨hname, hrest⟩ := List.forall_mem_cons.1 hnames
    calc joinAll directory (name :: next :: rest)
        = joinAll (join directory name) (next :: rest) := rfl
      _ = opened (opened directory ++ name) ++ ofSegments (next :: rest) := by
        rw [ih hrest, join_eq hname.isAbsolute_eq]
      _ = opened directory ++ (name ++ "/" ++ ofSegments (next :: rest)) := by
        rw [hname.opened_append, String.append_assoc, String.append_assoc, String.append_assoc]
      _ = opened directory ++ ofSegments (name :: next :: rest) := by
        rw [ofSegments_cons_cons]

theorem isAbsolute_ofSegments {names : List String} (hnames : ∀ name ∈ names, IsFileName name) :
    isAbsolute (ofSegments names) = false := by
  cases names with
  | nil => rfl
  | cons name rest =>
    have hname := hnames name List.mem_cons_self
    cases rest with
    | nil =>
      rw [ofSegments_singleton]
      exact hname.isAbsolute_eq
    | cons next rest =>
      rw [ofSegments_cons_cons, String.append_assoc, isAbsolute_append hname.ne_empty]
      exact hname.isAbsolute_eq

/-! ## Components -/

/-- Where a path with the given segments starts. -/
def startOf (absolute : Bool) (segments : List String) : Option Component × List String :=
  if absolute then (some .root, segments.drop 1)
  else if segments.head? = some "." then (some .here, segments.drop 1)
  else (none, segments)

theorem start_eq (path : String) : start path = startOf (isAbsolute path) (segments path) := by
  rw [start, startOf]
  split
  · rfl
  · split
    · rename_i rest hdot
      rw [hdot]
      rfl
    · rename_i hdot
      rw [if_neg]
      intro hhead
      exact hdot _ (List.eq_cons_of_mem_head? hhead)

theorem startOf_append (absolute : Bool) {front : List String} (h : front ≠ [])
    (back : List String) :
    startOf absolute (front ++ back) =
      ((startOf absolute front).1, (startOf absolute front).2 ++ back) := by
  obtain ⟨first, rest, rfl⟩ := List.exists_cons_of_ne_nil h
  rw [startOf, startOf, List.cons_append, List.head?_cons, List.head?_cons]
  split
  · rfl
  · split <;> rfl

theorem filterMap_component?_eq {names : List String} (hnames : ∀ name ∈ names, IsFileName name) :
    names.filterMap component? = names.map .name := by
  rw [List.filterMap_congr fun name hname => (hnames name hname).component?_eq,
    List.filterMap_eq_map']

/-- A path below a directory starts as the directory does, and it goes on with the names
behind segments with the components of the directory. -/
theorem start_joinAll {names : List String} (h : names ≠ [])
    (hnames : ∀ name ∈ names, IsFileName name) (directory : String) :
    ∃ body, start (joinAll directory names) = ((start directory).1, body ++ names) ∧
      body.filterMap component? = (start directory).2.filterMap component? := by
  obtain ⟨name, rest, rfl⟩ := List.exists_cons_of_ne_nil h
  have hsegments : segments (ofSegments (name :: rest)) = name :: rest :=
    segments_ofSegments h fun other hother => (hnames other hother).notMem
  rw [joinAll_cons hnames]
  by_cases hdirectory : directory = ""
  · subst hdirectory
    refine ⟨[], ?_, rfl⟩
    rw [show opened "" = "" from rfl, String.empty_append, start_eq, hsegments,
      isAbsolute_ofSegments hnames, startOf, if_neg Bool.false_ne_true, if_neg]
    · rfl
    · rw [List.head?_cons, Option.some_inj]
      exact (hnames name List.mem_cons_self).ne_dot
  · obtain ⟨stem, last, hopened, hstem, hlast⟩ := exists_opened hdirectory
    have habsolute : isAbsolute (opened directory ++ ofSegments (name :: rest)) =
        isAbsolute directory := by
      rw [opened]
      split
      · exact isAbsolute_append hdirectory _
      · rw [String.append_assoc, isAbsolute_append hdirectory]
    refine ⟨(startOf (isAbsolute directory) (segments stem)).2, ?_, ?_⟩
    · rw [start_eq, start_eq, habsolute, hopened, segments_append_slash, hsegments, hstem,
        startOf_append _ (segments_ne_nil stem), startOf_append _ (segments_ne_nil stem)]
    · rw [start_eq, hstem, startOf_append _ (segments_ne_nil stem), List.filterMap_append,
        hlast, List.append_nil]

/-- The components of a path below a directory are those of the directory and the names. -/
theorem components_joinAll {names : List String} (hnames : ∀ name ∈ names, IsFileName name)
    (directory : String) :
    components (joinAll directory names) = components directory ++ names.map .name := by
  by_cases h : names = []
  · subst h
    exact (List.append_nil _).symm
  · obtain ⟨body, hstart, hbody⟩ := start_joinAll h hnames directory
    rw [components, components, hstart]
    show (start directory).1.toList ++ (body ++ names).filterMap component? = _
    rw [List.filterMap_append, hbody, filterMap_component?_eq hnames, ← List.append_assoc]

/-- Different names lead to different paths. -/
theorem joinAll_inj {names others : List String} (hnames : ∀ name ∈ names, IsFileName name)
    (hothers : ∀ name ∈ others, IsFileName name) {directory : String} :
    joinAll directory names = joinAll directory others ↔ names = others := by
  refine ⟨fun h => ?_, fun h => h ▸ rfl⟩
  have hcomponents := congrArg components h
  rw [components_joinAll hnames, components_joinAll hothers, List.append_cancel_left_eq]
    at hcomponents
  exact List.map_injective_iff.2 (fun _ _ => Component.name.inj) hcomponents

/-- The name at the end of a path below a directory is the last one that was added. -/
theorem fileName?_joinAll {names : List String} (h : names ≠ [])
    (hnames : ∀ name ∈ names, IsFileName name) (directory : String) :
    fileName? (joinAll directory names) = names.getLast? := by
  obtain ⟨front, last, rfl⟩ := (List.eq_nil_or_concat' names).resolve_left h
  rw [fileName?, components_joinAll hnames, List.map_append, ← List.append_assoc,
    List.map_singleton, List.getLast?_concat, List.getLast?_concat]

/-! ## The directory taken off -/

theorem component?_eq_none_iff {segment : String} :
    component? segment = none ↔ isPassedOver segment = true := by
  rw [component?]
  split
  · simp_all
  · split <;> simp_all

theorem dropComponents_nil (body : List String) : dropComponents [] body = some body := by
  cases body <;> rfl

/-- Segments with the wanted components are dropped, except for those at their end that
lead nowhere. -/
theorem exists_dropComponents (body rest : List String) :
    ∃ skipped, (∀ segment ∈ skipped, isPassedOver segment = true) ∧
      dropComponents (body.filterMap component?) (body ++ rest) = some (skipped ++ rest) := by
  induction body with
  | nil => exact ⟨[], by simp, dropComponents_nil rest⟩
  | cons segment body ih =>
    obtain ⟨skipped, hskipped, hdrop⟩ := ih
    cases hsegment : component? segment with
    | some found =>
      refine ⟨skipped, hskipped, ?_⟩
      rw [List.filterMap_cons_some hsegment, List.cons_append, dropComponents, hsegment]
      simpa using hdrop
    | none =>
      rw [List.filterMap_cons_none hsegment]
      cases hbody : body.filterMap component? with
      | nil =>
        refine ⟨segment :: body, ?_, dropComponents_nil _⟩
        rw [List.forall_mem_cons, ← component?_eq_none_iff]
        exact ⟨hsegment, fun other hother =>
          component?_eq_none_iff.1 (List.filterMap_eq_nil_iff.1 hbody other hother)⟩
      | cons wanted others =>
        refine ⟨skipped, hskipped, ?_⟩
        rw [List.cons_append, dropComponents, hsegment, ← hbody]
        exact hdrop

theorem trimSegments_append {skipped names : List String}
    (hskipped : ∀ segment ∈ skipped, isPassedOver segment = true)
    (hnames : ∀ name ∈ names, IsFileName name) : trimSegments (skipped ++ names) = names := by
  have hkept : ∀ {kept : List String}, (∀ name ∈ kept, IsFileName name) →
      kept.dropWhile isPassedOver = kept := by
    intro kept h
    cases kept with
    | nil => rfl
    | cons name rest =>
      rw [List.dropWhile_cons_of_neg]
      simpa using (h name List.mem_cons_self).not_isPassedOver
  rw [trimSegments, List.dropWhile_append_of_pos hskipped, hkept hnames,
    hkept fun name hname => hnames name (List.mem_reverse.1 hname), List.reverse_reverse]

/-- Behind a directory stand the names that were added to it. -/
theorem relativeTo?_joinAll {names : List String} (h : names ≠ [])
    (hnames : ∀ name ∈ names, IsFileName name) (directory : String) :
    relativeTo? directory (joinAll directory names) = some (ofSegments names) := by
  obtain ⟨body, hstart, hbody⟩ := start_joinAll h hnames directory
  obtain ⟨skipped, hskipped, hdrop⟩ := exists_dropComponents body names
  have htrim := trimSegments_append hskipped hnames
  rcases hdirectory : start directory with ⟨first, inside⟩
  rw [hdirectory] at hbody hstart
  rw [hbody] at hdrop
  simp only [relativeTo?, hstart, components, hdirectory]
  cases first with
  | none =>
    rw [Option.toList_none, List.nil_append]
    generalize inside.filterMap component? = wanted at hdrop
    cases wanted <;> simp only [hdrop, Option.map_some, htrim]
  | some first =>
    simp only [Option.toList_some, List.singleton_append, if_true, hdrop, Option.map_some, htrim]

/-- A path without the directory that it begins with. -/
def behind (directory path : String) : String :=
  (relativeTo? directory path).getD path

theorem behind_joinAll {names : List String} (h : names ≠ [])
    (hnames : ∀ name ∈ names, IsFileName name) (directory : String) :
    behind directory (joinAll directory names) = ofSegments names := by
  rw [behind, relativeTo?_joinAll h hnames, Option.getD_some]

/-! ## Extensions -/

/-- What is dropped from a list ends before an item that fails the test. -/
theorem of_dropWhile_eq_cons {α : Type} {p : α → Bool} {items back : List α} {item : α}
    (h : items.dropWhile p = item :: back) :
    items = items.takeWhile p ++ item :: back ∧ p item = false := by
  have hhead := List.head?_dropWhile_not p items
  rw [h] at hhead
  exact ⟨by rw [← h, List.takeWhile_append_dropWhile], hhead⟩

/-- An extension is all behind the last dot, when more than this dot is before it. -/
theorem extensionOf?_eq_some_iff {name extension : String} :
    extensionOf? name = some extension ↔
      ∃ stem, stem ≠ "" ∧ name = stem ++ "." ++ extension ∧ '.' ∉ extension.toList := by
  simp only [extensionOf?]
  constructor
  · intro h
    split at h
    · rename_i dot last rest hback
      obtain ⟨hsplit, hdot⟩ := of_dropWhile_eq_cons hback
      have hkept : '.' ∉ name.toList.reverse.takeWhile (· ≠ '.') := fun hmem =>
        absurd (List.mem_takeWhile_imp hmem) (by decide)
      generalize name.toList.reverse.takeWhile (· ≠ '.') = front at h hsplit hkept
      rw [Option.some_inj] at h
      subst h
      have hname : name.toList = (last :: rest).reverse ++ '.' :: front.reverse := by
        rw [← List.reverse_inj, hsplit, show dot = '.' by simpa using hdot]
        simp
      refine ⟨String.ofList (last :: rest).reverse, by simp, ?_, by simpa using hkept⟩
      rw [← String.toList_inj, hname]
      simp
    · cases h
  · rintro ⟨stem, hstem, rfl, hextension⟩
    have hkept : ∀ c ∈ extension.toList.reverse, decide (c ≠ '.') = true := by
      intro c hc
      rw [decide_eq_true_iff]
      rintro rfl
      exact hextension (List.mem_reverse.1 hc)
    obtain ⟨last, rest, hlast⟩ :=
      List.exists_cons_of_ne_nil (l := stem.toList.reverse) (by simpa using hstem)
    have hreverse : (stem ++ "." ++ extension).toList.reverse =
        extension.toList.reverse ++ '.' :: last :: rest := by
      rw [← hlast]
      simp
    rw [hreverse, List.takeWhile_append_of_pos hkept, List.dropWhile_append_of_pos hkept]
    simp

/-! ## Order -/

/-- The place of a component among those of other kinds. -/
def Component.rank : Component → Nat
  | .root => 0
  | .here => 1
  | .up => 2
  | .name _ => 3

/-- Whether a component comes before another one : by their kinds, and names by their
characters. -/
def Component.Before : Component → Component → Prop
  | .name first, .name second => first < second
  | first, second => first.rank < second.rank

theorem Component.Before.ne {first second : Component} (h : Before first second) :
    first ≠ second := by
  rintro rfl
  cases first with
  | name text => exact lt_irrefl text h
  | _ => exact lt_irrefl _ h

/-- Whether a path comes before another one : by the first component in which they differ. -/
def Before (first second : String) : Prop :=
  List.Lex Component.Before (components first) (components second)

theorem Before.ne {first second : String} (h : Before first second) : first ≠ second := by
  rintro rfl
  exact (List.Lex.imp (fun _ _ => Component.Before.ne) _ _ h).to_ne rfl

/-- The paths of names below a directory are in the order of the names. -/
theorem Before.joinAll {names others : List String} (hnames : ∀ name ∈ names, IsFileName name)
    (hothers : ∀ name ∈ others, IsFileName name) (h : names < others) (directory : String) :
    Before (joinAll directory names) (joinAll directory others) := by
  rw [Before, components_joinAll hnames, components_joinAll hothers]
  refine List.Lex.append_left _ ?_ _
  clear hnames hothers
  induction (h : List.Lex (· < ·) names others) with
  | nil => exact .nil
  | cons _ ih => exact .cons ih
  | rel hlt => exact .rel hlt

end RazenLint.Path
