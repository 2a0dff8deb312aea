import Mathlib.Data.List.Basic
import RazenLint.Config.Basic
import RazenLint.Proofs.Path

/-!
# What a configuration selects

A configuration is valid when it names an extension and its patterns can be read and matched
(`validated_eq_ok_iff`). A path is left out by a valid configuration when one of the patterns
matches it (`isExcluded_iff`), and a name is that of a file to check when it ends in one of the
extensions (`isSourceFile_joinAll_iff`). Patterns without choices can always be matched
(`isShallow_of_not_choice`).
-/

namespace RazenLint

/-- What a run over a list collects comes from its items. -/
theorem mem_of_mapM_eq_ok {ε α β : Type} {f : α → Except ε β} {items : List α} {found : List β}
    (h : items.mapM f = .ok found) {b : β} : b ∈ found ↔ ∃ a ∈ items, f a = .ok b := by
  induction items generalizing found with
  | nil =>
    cases h
    simp
  | cons a items ih =>
    rw [List.mapM_cons] at h
    cases hfirst : f a with
    | error e =>
      rw [hfirst] at h
      cases h
    | ok first =>
      cases hrest : items.mapM f with
      | error e =>
        rw [hfirst, hrest] at h
        cases h
      | ok rest =>
        rw [hfirst, hrest] at h
        cases h
        rw [List.mem_cons, List.exists_mem_cons_iff, ih hrest, hfirst, Except.ok.injEq, eq_comm]

/-- A run over a list succeeds when it does on each item. -/
theorem exists_mapM_eq_ok_iff {ε α β : Type} {f : α → Except ε β} {items : List α} :
    (∃ found, items.mapM f = .ok found) ↔ ∀ a ∈ items, ∃ b, f a = .ok b := by
  induction items with
  | nil => exact ⟨fun _ => List.forall_mem_nil _, fun _ => ⟨[], rfl⟩⟩
  | cons a items ih =>
    rw [List.forall_mem_cons, ← ih, List.mapM_cons]
    cases f a with
    | error e => simp [bind, Except.bind]
    | ok b => cases items.mapM f <;> simp [bind, Except.bind, pure, Except.pure]

/-- Nothing but choices in choices makes a pattern too deep to be matched. -/
theorem Glob.isShallow_of_not_choice {glob : Glob}
    (h : ∀ branches, Piece.choice branches ∉ glob) : glob.isShallow = true := by
  have hdepth : depth glob ≤ 4 := by
    induction glob with
    | nil => exact Nat.zero_le 4
    | cons piece rest ih =>
      rw [depth]
      refine max_le ?_ (ih fun branches hmem => h branches (List.mem_cons_of_mem piece hmem))
      cases piece with
      | choice branches => exact absurd List.mem_cons_self (h branches)
      | oneOf negated ranges =>
        rw [Piece.depth]
        split <;> omega
      | literal | anyByte | anyBytes | anyLeading | anyTrailing | anyBetween =>
        simp [Piece.depth]
  rw [isShallow, decide_eq_true_iff, maxDepth]
  omega

namespace Config

variable {config : Config}

/-- Whether one of the patterns matches a path. -/
def Excludes (config : Config) (path : String) : Prop :=
  ∃ pattern ∈ config.excludedPaths, ∃ glob : Glob,
    Glob.ofText pattern = .ok glob ∧ glob.matches path = true

instance (config : Config) (path : String) : Decidable (config.Excludes path) :=
  decidable_of_iff (∃ pattern ∈ config.excludedPaths,
      (match Glob.ofText pattern with
      | .ok glob => glob.matches path
      | .error _ => false) = true) <| by
    refine exists_congr fun pattern => and_congr_right fun _ => ?_
    cases Glob.ofText pattern <;> simp

theorem excludedGlobs_eq_ok_iff {globs : List Glob} : config.excludedGlobs = .ok globs ↔
    config.excludedPaths.mapM Glob.ofText = .ok globs ∧ ∀ glob ∈ globs, glob.isShallow = true := by
  rw [excludedGlobs]
  cases config.excludedPaths.mapM Glob.ofText with
  | error reason => simp
  | ok found =>
    simp only [← List.all_eq_true, Except.ok.injEq]
    split <;> rename_i hshallow
    · refine ⟨fun h => ?_, fun h => by rw [h.1]⟩
      cases h
      exact ⟨rfl, hshallow⟩
    · exact ⟨nofun, fun ⟨hfound, h⟩ => absurd (hfound ▸ h) hshallow⟩

theorem exists_excludedGlobs_iff : (∃ globs, config.excludedGlobs = .ok globs) ↔
    ∀ pattern ∈ config.excludedPaths,
      ∃ glob : Glob, Glob.ofText pattern = .ok glob ∧ glob.isShallow = true := by
  simp only [excludedGlobs_eq_ok_iff]
  constructor
  · rintro ⟨globs, hglobs, hshallow⟩ pattern hpattern
    obtain ⟨glob, hglob⟩ := exists_mapM_eq_ok_iff.1 ⟨globs, hglobs⟩ pattern hpattern
    exact ⟨glob, hglob, hshallow glob ((mem_of_mapM_eq_ok hglobs).2 ⟨pattern, hpattern, hglob⟩)⟩
  · intro h
    obtain ⟨globs, hglobs⟩ := exists_mapM_eq_ok_iff.2 fun pattern hpattern =>
      (h pattern hpattern).imp fun _ hglob => hglob.1
    refine ⟨globs, hglobs, fun glob hglob => ?_⟩
    obtain ⟨pattern, hpattern, hread⟩ := (mem_of_mapM_eq_ok hglobs).1 hglob
    obtain ⟨_, hother, hshallow⟩ := h pattern hpattern
    obtain rfl := Except.ok.inj (hother.symm.trans hread)
    exact hshallow

/-- The valid configurations name an extension, and have patterns that can all be read and
matched. -/
theorem validated_eq_ok_iff : config.validated = .ok config ↔
    (∃ extension ∈ config.extensions, Text.trim extension.toList ≠ []) ∧
      ∀ pattern ∈ config.excludedPaths,
        ∃ glob : Glob, Glob.ofText pattern = .ok glob ∧ glob.isShallow = true := by
  have hextension : (¬config.extensions.all fun extension =>
      (Text.trim extension.toList).isEmpty) ↔
        ∃ extension ∈ config.extensions, Text.trim extension.toList ≠ [] := by
    simp
  rw [← exists_excludedGlobs_iff, ← hextension, validated]
  split <;> rename_i hblank
  · exact ⟨nofun, fun h => absurd hblank h.1⟩
  · cases config.excludedGlobs <;> simp [hblank]

theorem exists_excludedGlobs (h : config.validated = .ok config) :
    ∃ globs, config.excludedGlobs = .ok globs :=
  exists_excludedGlobs_iff.2 (validated_eq_ok_iff.1 h).2

theorem isExcluded_iff {globs : List Glob} (h : config.excludedGlobs = .ok globs)
    {path : String} : isExcluded globs path = true ↔ config.Excludes path := by
  have hread : ∀ glob, glob ∈ globs ↔
      ∃ pattern ∈ config.excludedPaths, Glob.ofText pattern = .ok glob :=
    fun glob => mem_of_mapM_eq_ok (excludedGlobs_eq_ok_iff.1 h).1
  rw [isExcluded, List.any_eq_true]
  constructor
  · rintro ⟨glob, hglob, hmatches⟩
    obtain ⟨pattern, hpattern, hglob⟩ := (hread glob).1 hglob
    exact ⟨pattern, hpattern, glob, hglob, hmatches⟩
  · rintro ⟨pattern, hpattern, glob, hglob, hmatches⟩
    exact ⟨glob, (hread glob).2 ⟨pattern, hpattern, hglob⟩, hmatches⟩

/-- More patterns leave out more paths. -/
theorem Excludes.mono {path : String} (h : config.Excludes path) {patterns : List String}
    (hpatterns : config.excludedPaths ⊆ patterns) :
    Excludes { config with excludedPaths := patterns } path := by
  obtain ⟨pattern, hpattern, hmatches⟩ := h
  exact ⟨pattern, hpatterns hpattern, hmatches⟩

/-- Whether a name ends in one of the extensions : it has something before its last dot, and
behind it stands the extension without the dots at its start, in any case. -/
def HasExtension (config : Config) (name : String) : Prop :=
  ∃ stem extension, stem ≠ "" ∧ name = stem ++ "." ++ extension ∧ '.' ∉ extension.toList ∧
    ∃ wanted ∈ config.extensions, Text.sameIgnoringCase (dropDots wanted) extension = true

theorem isSourceFile_joinAll_iff {names : List String} (h : names ≠ [])
    (hnames : ∀ name ∈ names, Path.IsFileName name) (directory : String) :
    config.isSourceFile (Path.joinAll directory names) = true ↔
      ∃ name, names.getLast? = some name ∧ config.HasExtension name := by
  have hextension : Path.extension? (Path.joinAll directory names) =
      names.getLast?.bind Path.extensionOf? := by
    rw [Path.extension?, Path.fileName?_joinAll h hnames]
  rw [isSourceFile, hextension]
  constructor
  · intro hsource
    split at hsource
    · rename_i extension hbind
      obtain ⟨name, hname, hextension⟩ := Option.bind_eq_some_iff.1 hbind
      obtain ⟨stem, hstem, hsplit, hdots⟩ := Path.extensionOf?_eq_some_iff.1 hextension
      exact ⟨name, hname, stem, extension, hstem, hsplit, hdots, List.any_eq_true.1 hsource⟩
    · cases hsource
  · rintro ⟨name, hname, stem, extension, hstem, hsplit, hdots, hwanted⟩
    have hextension := Path.extensionOf?_eq_some_iff.2 ⟨stem, hstem, hsplit, hdots⟩
    rw [hname, Option.bind_some, hextension]
    exact List.any_eq_true.2 hwanted

end Config

end RazenLint
