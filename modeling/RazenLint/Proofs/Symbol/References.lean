import RazenLint.Proofs.Symbol.Name
import RazenLint.Proofs.Symbol.Passes

/-!
# What refers to a symbol

A symbol table holds the last declaration of each name and the last import of each library
(`get?_lastDeclarations_iff`, `get?_lastImports_iff`). The references to a variable are
the words with its name that stand past the declaration and name nothing else (`IsUse`,
`mem_referencesTo_iff`), and the references to a library are the calls into it
(`mem_callsInto_iff`), both in text order. `symbols_exact` says this of the table as a
whole, for the table that the passes fill with its marks.
-/

namespace RazenLint

open Text

/-! ## Names of libraries -/

/-- A name stands for the library that has it in lower case. -/
theorem Library.exists_resolve?_iff {name key : String} :
    (∃ library, Library.resolve? name = some library ∧ library.name = key) ↔
      key ∈ libraryNames ∧ asciiLower name = key := by
  constructor
  · rintro ⟨library, hlibrary, rfl⟩
    have hname : library.name = asciiLower name := by simpa using List.find?_some hlibrary
    exact ⟨List.mem_map_of_mem (List.mem_of_find?_eq_some hlibrary), hname.symm⟩
  · rintro ⟨hkey, rfl⟩
    obtain ⟨library, hmem, hname⟩ := List.mem_map.1 hkey
    obtain ⟨found, hfound⟩ := Option.isSome_iff_exists.1
      (List.find?_isSome (p := fun l : Library => decide (l.name = asciiLower name)) |>.2
        ⟨library, hmem, decide_eq_true hname⟩)
    exact ⟨found, hfound, by simpa using List.find?_some hfound⟩

theorem isLibraryName_iff {name : String} :
    isLibraryName name = true ↔ asciiLower name ∈ libraryNames := by
  rw [isLibraryName, Option.isSome_iff_exists]
  constructor
  · rintro ⟨library, hlibrary⟩
    obtain ⟨hmem, hname⟩ := Library.exists_resolve?_iff.1 ⟨library, hlibrary, rfl⟩
    exact hname ▸ hmem
  · intro hmem
    obtain ⟨library, hlibrary, -⟩ := Library.exists_resolve?_iff.2 ⟨hmem, rfl⟩
    exact ⟨library, hlibrary⟩

/-! ## The last of each name -/

/-- No later declaration has the name. -/
def LastDeclaration (events : List Event) (d : Declaration) : Prop :=
  ∃ before after, events = before ++ .declaration d :: after ∧
    ∀ later, .declaration later ∈ after → later.name ≠ d.name

/-- The import is the last one of the library with the given name. -/
def LastImport (events : List Event) (library : String) (i : Import) : Prop :=
  library ∈ libraryNames ∧ ∃ before after, events = before ++ .imported i :: after ∧
    asciiLower i.name = library ∧
      ∀ later, .imported later ∈ after → asciiLower later.name ≠ library

theorem get?_lastDeclarations_iff {events : List Event} {name : String} {d : Declaration} :
    (lastDeclarations events).get? name = some d ↔ LastDeclaration events d ∧ d.name = name := by
  have hentry : ∀ (e : Event) (value : Declaration),
      (e.declaration?.map fun d => (d.name, d)) = some (name, value) ↔
        e = .declaration value ∧ value.name = name := by
    intro e value
    cases e <;> simp [Event.declaration?, and_comm]
    rintro rfl
    exact Iff.rfl
  rw [lastDeclarations, List.map_filterMap, Table.get?_ofEntries_filterMap_iff]
  simp only [hentry, ne_eq, not_and]
  constructor
  · rintro ⟨before, e, after, rfl, ⟨rfl, rfl⟩, hafter⟩
    exact ⟨⟨before, after, rfl, fun later hlater => hafter _ hlater later rfl⟩, rfl⟩
  · rintro ⟨⟨before, after, rfl, hafter⟩, rfl⟩
    refine ⟨before, _, after, rfl, ⟨rfl, rfl⟩, ?_⟩
    rintro _ hlater later rfl
    exact hafter later hlater

theorem get?_lastImports_iff {events : List Event} {library : String} {span : Span} :
    (lastImports events).get? library = some span ↔
      ∃ i, LastImport events library i ∧ i.span = span := by
  have hentry : ∀ (e : Event) (value : Span),
      (e.import?.bind fun i => (Library.resolve? i.name).map fun l => (l.name, i.span)) =
          some (library, value) ↔
        ∃ i, e = .imported i ∧ (library ∈ libraryNames ∧ asciiLower i.name = library) ∧
          i.span = value := by
    intro e value
    cases e <;> simp [Event.import?, ← Library.exists_resolve?_iff, ← and_assoc]
  rw [lastImports, List.filterMap_filterMap, Table.get?_ofEntries_filterMap_iff]
  simp only [hentry, ne_eq, not_exists, not_and]
  constructor
  · rintro ⟨before, e, after, rfl, ⟨i, rfl, ⟨hlibrary, hname⟩, hspan⟩, hafter⟩
    exact ⟨i, ⟨hlibrary, before, after, rfl, hname, fun later hlater heq =>
      hafter _ hlater later.span later rfl ⟨hlibrary, heq⟩ rfl⟩, hspan⟩
  · rintro ⟨i, ⟨hlibrary, before, after, rfl, hname, hafter⟩, hspan⟩
    refine ⟨before, _, after, rfl, ⟨i, rfl, ⟨hlibrary, hname⟩, hspan⟩, ?_⟩
    rintro _ hlater value later rfl ⟨-, hlast⟩
    exact absurd hlast (hafter later hlater)

/-- Each declared name has a last declaration. -/
theorem exists_lastDeclaration {events : List Event} {d : Declaration}
    (h : .declaration d ∈ events) : ∃ last, LastDeclaration events last ∧ last.name = d.name := by
  have hkey : d.name ∈ (lastDeclarations events).keys :=
    Table.mem_keys_ofEntries.2 (List.mem_map.2 ⟨(d.name, d),
      List.mem_map.2 ⟨d, List.mem_filterMap.2 ⟨_, h, rfl⟩, rfl⟩, rfl⟩)
  obtain ⟨last, hlast⟩ := Option.isSome_iff_exists.1 (Table.mem_keys_iff.1 hkey)
  exact ⟨last, get?_lastDeclarations_iff.1 hlast⟩

/-- Each imported library has a last import. -/
theorem exists_lastImport {events : List Event} {i : Import} (h : .imported i ∈ events)
    (hlibrary : asciiLower i.name ∈ libraryNames) :
    ∃ last, LastImport events (asciiLower i.name) last := by
  obtain ⟨library, hresolve, hname⟩ := Library.exists_resolve?_iff.2 ⟨hlibrary, rfl⟩
  have hkey : asciiLower i.name ∈ (lastImports events).keys :=
    Table.mem_keys_ofEntries.2 (List.mem_map.2 ⟨(library.name, i.span),
      List.mem_filterMap.2 ⟨i, List.mem_filterMap.2 ⟨_, h, rfl⟩, by rw [hresolve]; rfl⟩, hname⟩)
  obtain ⟨span, hspan⟩ := Option.isSome_iff_exists.1 (Table.mem_keys_iff.1 hkey)
  obtain ⟨last, hlast, -⟩ := get?_lastImports_iff.1 hspan
  exact ⟨last, hlast⟩

/-! ## Uses of a variable -/

/-- The span is where an event names something : a declared or an imported name, or the
library or the function of a call that is no indexing. -/
inductive NamedAt (events : List Event) : Span → Prop where
  | declared {d : Declaration} (h : .declaration d ∈ events) : NamedAt events d.nameSpan
  | imported {i : Import} (h : .imported i ∈ events) : NamedAt events i.span
  | library {c : LibraryCall} (h : .call c ∈ events)
      (hcall : c.legacy = false ∨ asciiLower c.library ∈ libraryNames) :
      NamedAt events c.librarySpan
  | function {c : LibraryCall} (h : .call c ∈ events)
      (hcall : c.legacy = false ∨ asciiLower c.library ∈ libraryNames) :
      NamedAt events c.functionSpan

theorem mem_sites_iff {events : List Event} {s : Span} :
    s ∈ events.flatMap Event.sites ↔ NamedAt events s := by
  have hcall : ∀ c : LibraryCall, (!c.legacy || isLibraryName c.library) = true ↔
      c.legacy = false ∨ asciiLower c.library ∈ libraryNames := by
    intro c
    rw [Bool.or_eq_true, isLibraryName_iff, Bool.not_eq_true']
  rw [List.mem_flatMap]
  constructor
  · rintro ⟨e, he, hs⟩
    cases e with
    | declaration d => exact List.mem_singleton.1 hs ▸ .declared he
    | imported i => exact List.mem_singleton.1 hs ▸ .imported he
    | call c =>
      change s ∈ if _ then [c.librarySpan, c.functionSpan] else [] at hs
      split at hs
      · rename_i hnamed
        rcases List.mem_cons.1 hs with rfl | hs
        · exact .library he ((hcall c).1 hnamed)
        · exact List.mem_singleton.1 hs ▸ .function he ((hcall c).1 hnamed)
      · exact absurd hs List.not_mem_nil
  · rintro (h | h | ⟨h, hnamed⟩ | ⟨h, hnamed⟩)
    · exact ⟨_, h, List.mem_singleton_self _⟩
    · exact ⟨_, h, List.mem_singleton_self _⟩
    · exact ⟨_, h, by simp [Event.sites, (hcall _).2 hnamed]⟩
    · exact ⟨_, h, by simp [Event.sites, (hcall _).2 hnamed]⟩

/-- The span is a use of the variable in the declaration. -/
structure IsUse (text : List Char) (d : Declaration) (s : Span) : Prop where
  /-- The name stands there as a word of the code. -/
  word : WordAt text d.name s
  /-- It stands at or behind the end of the declaring statement. -/
  past : d.statementSpan.Before s
  /-- It is no member of something. -/
  notMember : ¬PointAt text s
  /-- No event names something else there. -/
  notNamed : ¬NamedAt (events text) s
  /-- The name is not that of a library, in whatever case. -/
  notLibrary : asciiLower d.name ∉ libraryNames

theorem Span.isPast_iff {s t : Span} : s.isPast t = true ↔ t.Before s := by
  rw [isPast, Before, Bool.or_eq_true, Bool.and_eq_true, decide_eq_true_eq, decide_eq_true_eq,
    decide_eq_true_eq, eq_comm (a := s.line)]

theorem mem_referencesTo_iff {text : List Char} {d : Declaration} {s : Span} :
    s ∈ referencesTo ((events text).flatMap Event.sites) (occurrences text) d.name
      d.statementSpan ↔ IsUse text d s := by
  unfold referencesTo
  split
  · rename_i hlibrary
    refine iff_of_false List.not_mem_nil fun huse => huse.notLibrary ?_
    exact isLibraryName_iff.1 hlibrary
  · rename_i hlibrary
    rw [isLibraryName_iff] at hlibrary
    simp only [List.mem_map, List.mem_filter, Bool.and_eq_true, decide_eq_true_eq,
      Bool.not_eq_true', List.contains_eq_mem, decide_eq_false_iff_not, mem_sites_iff,
      Span.isPast_iff, mem_occurrences_iff]
    constructor
    · rintro ⟨o, ⟨⟨hword, hmember⟩, ⟨⟨hname, hpoint⟩, hnamed⟩, hpast⟩, rfl⟩
      exact ⟨hname ▸ hword, hpast, by simp [← hmember, hpoint], hnamed, hlibrary⟩
    · intro huse
      refine ⟨⟨d.name, s, false⟩, ⟨⟨huse.word, ?_⟩, ⟨⟨rfl, rfl⟩, huse.notNamed⟩, huse.past⟩, rfl⟩
      exact iff_of_false Bool.false_ne_true huse.notMember

/-- The references to a variable are in text order. -/
theorem pairwise_referencesTo (text : List Char) (sites : List Span) (name : String)
    (statement : Span) :
    (referencesTo sites (occurrences text) name statement).Pairwise Span.Before := by
  unfold referencesTo
  split
  · exact List.Pairwise.nil
  · exact List.pairwise_map.2 ((pairwise_occurrences text).filter _)

/-! ## Calls into a library -/

/-- The span is the library of a call, in whatever case and form. -/
def IsCallOf (events : List Event) (library : String) (s : Span) : Prop :=
  ∃ c, .call c ∈ events ∧ asciiLower c.library = library ∧ c.librarySpan = s

theorem callsInto_eq (events : List Event) (library : String) : callsInto events library =
    events.filterMap fun e => e.call?.bind fun c =>
      if (Library.resolve? c.library).any (·.name = library) then some c.librarySpan else none :=
  List.filterMap_filterMap

theorem mem_callsInto_iff {events : List Event} {library : String} (h : library ∈ libraryNames)
    {s : Span} : s ∈ callsInto events library ↔ IsCallOf events library s := by
  have hnames : ∀ c : LibraryCall, (Library.resolve? c.library).any (·.name = library) = true ↔
      asciiLower c.library = library := by
    intro c
    have hresolve : (∃ l, Library.resolve? c.library = some l ∧ l.name = library) ↔
        library ∈ libraryNames ∧ asciiLower c.library = library := Library.exists_resolve?_iff
    rw [and_iff_right h] at hresolve
    rw [← hresolve, Option.any_eq_true]
    simp
  rw [callsInto_eq, List.mem_filterMap]
  constructor
  · rintro ⟨e, he, hs⟩
    cases e with
    | declaration d => cases hs
    | imported i => cases hs
    | call c =>
      obtain ⟨hname, hspan⟩ := Option.ite_none_right_eq_some.1 hs
      exact ⟨c, he, (hnames c).1 hname, Option.some.inj hspan⟩
  · rintro ⟨c, hc, hname, rfl⟩
    exact ⟨.call c, hc, if_pos ((hnames c).2 hname)⟩

/-- The references to a library are in text order. -/
theorem pairwise_callsInto (text : List Char) (library : String) :
    (callsInto (events text) library).Pairwise Span.Before := by
  rw [callsInto_eq, List.pairwise_filterMap]
  have hmem : ∀ {e : Event} {s : Span}, (e.call?.bind fun c =>
      if (Library.resolve? c.library).any (·.name = library) then some c.librarySpan
        else none) = some s → s ∈ e.nameSpans := by
    intro e s hs
    cases e with
    | declaration d => cases hs
    | imported i => cases hs
    | call c =>
      obtain ⟨-, hspan⟩ := Option.ite_none_right_eq_some.1 hs
      exact Option.some.inj hspan ▸ List.mem_cons_self
  refine (List.pairwise_flatMap.1 (pairwise_nameSpans text)).2.imp fun {e e'} h s hs t ht => ?_
  exact h s (hmem hs) t (hmem ht)

/-! ## The table as a whole -/

theorem of_lastDeclaration {events : List Event} {d : Declaration}
    (h : LastDeclaration events d) : .declaration d ∈ events := by
  obtain ⟨before, after, rfl, -⟩ := h
  exact List.mem_append_right before List.mem_cons_self

theorem of_lastImport {events : List Event} {library : String} {i : Import}
    (h : LastImport events library i) : .imported i ∈ events ∧ asciiLower i.name = library := by
  obtain ⟨-, before, after, rfl, hname, -⟩ := h
  exact ⟨List.mem_append_right before List.mem_cons_self, hname⟩

/-- A list is not empty when it holds what something is true of. -/
theorem not_isEmpty_iff_exists {α : Type} {l : List α} {p : α → Prop} (h : ∀ a, a ∈ l ↔ p a) :
    (!l.isEmpty) = true ↔ ∃ a, p a := by
  rw [Bool.not_eq_true', List.isEmpty_eq_false_iff_exists_mem]
  exact exists_congr h

/-- The entry of a variable tells of its declaration and of everything that uses it. -/
structure Variable.Tells (text : List Char) (d : Declaration) (v : Variable) : Prop where
  span : v.span = d.nameSpan
  statement : v.statement = d.statementSpan
  kind : v.kind = d.kind
  ordered : v.references.Pairwise Span.Before
  mem_references : ∀ s, s ∈ v.references ↔ IsUse text d s
  used : v.used = true ↔ ∃ s, IsUse text d s

/-- The entry of a library tells of its import and of every call into it. -/
structure ImportedLibrary.Tells (text : List Char) (library : String) (i : Import)
    (l : ImportedLibrary) : Prop where
  span : l.span = i.span
  ordered : l.references.Pairwise Span.Before
  mem_references : ∀ s, s ∈ l.references ↔ IsCallOf (events text) library s
  used : l.used = true ↔ ∃ s, IsCallOf (events text) library s

section

variable {text : List Char}

/-- The entries of variables are those of last declarations. -/
theorem findVariable?_symbols_iff {name : String} {v : Variable} :
    (symbols text).findVariable? name = some v ↔ ∃ d, LastDeclaration (events text) d ∧
      d.name = name ∧ v = SymbolTable.variableOf text (events text) name d := by
  rw [SymbolTable.findVariable?, symbols, SymbolTable.get?_declared, Option.map_eq_some_iff]
  simp only [get?_lastDeclarations_iff, and_assoc, eq_comm (a := v)]

/-- The entries of libraries are those of last imports. -/
theorem get?_libraries_symbols_iff {library : String} {l : ImportedLibrary} :
    (symbols text).libraries.get? library = some l ↔ ∃ i, LastImport (events text) library i ∧
      l = SymbolTable.libraryOf (events text) library i.span := by
  rw [symbols, SymbolTable.get?_libraries, Option.map_eq_some_iff]
  simp only [get?_lastImports_iff]
  constructor
  · rintro ⟨span, ⟨i, hi, rfl⟩, rfl⟩
    exact ⟨i, hi, rfl⟩
  · rintro ⟨i, hi, rfl⟩
    exact ⟨i.span, ⟨i, hi, rfl⟩, rfl⟩

theorem tells_variableOf (text : List Char) (d : Declaration) :
    (SymbolTable.variableOf text (events text) d.name d).Tells text d where
  span := rfl
  statement := rfl
  kind := rfl
  ordered := pairwise_referencesTo text _ _ _
  mem_references _ := mem_referencesTo_iff
  used := not_isEmpty_iff_exists fun _ => mem_referencesTo_iff

theorem tells_libraryOf {library : String} {i : Import}
    (h : LastImport (events text) library i) :
    (SymbolTable.libraryOf (events text) library i.span).Tells text library i where
  span := rfl
  ordered := pairwise_callsInto text library
  mem_references _ := mem_callsInto_iff h.1
  used := not_isEmpty_iff_exists fun _ => mem_callsInto_iff h.1

/-- The unused variables are those whose last declaration has no use. -/
theorem mem_unusedVariables_iff {name : String} : name ∈ (symbols text).unusedVariables ↔
    ∃ d, LastDeclaration (events text) d ∧ d.name = name ∧ ∀ s, ¬IsUse text d s := by
  have hsorted := SymbolTable.sorted_declared text (events text)
  have hunused : ∀ d, (SymbolTable.variableOf text (events text) d.name d).used = false ↔
      ∀ s, ¬IsUse text d s := by
    intro d
    rw [← not_exists, ← (tells_variableOf text d).used, Bool.not_eq_true]
  rw [SymbolTable.unusedVariables, List.mem_map]
  constructor
  · rintro ⟨⟨_, v⟩, hmem, rfl⟩
    obtain ⟨hmem, hused⟩ := List.mem_filter.1 hmem
    obtain ⟨d, hlast, rfl, rfl⟩ := findVariable?_symbols_iff.1 (hsorted.get?_eq_some_iff.2 hmem)
    exact ⟨d, hlast, rfl, (hunused d).1 (by simpa using hused)⟩
  · rintro ⟨d, hlast, rfl, hnone⟩
    have hmem := hsorted.get?_eq_some_iff.1 (findVariable?_symbols_iff.2 ⟨d, hlast, rfl, rfl⟩)
    exact ⟨_, List.mem_filter.2 ⟨hmem, by simpa using (hunused d).2 hnone⟩, rfl⟩

theorem pairwise_unusedVariables (text : List Char) :
    (symbols text).unusedVariables.Pairwise (· < ·) :=
  (SymbolTable.sorted_declared text (events text)).sublist (List.filter_sublist.map _)

end

/-- A symbol table has one entry for each declared name and for each imported library, and
what an entry tells is what the text says. -/
structure SymbolTable.Exact (text : List Char) (table : SymbolTable) : Prop where
  declared : ∀ d, .declaration d ∈ events text → ∃ last v, LastDeclaration (events text) last ∧
    last.name = d.name ∧ table.findVariable? d.name = some v ∧ v.Tells text last
  of_declared : ∀ name v, table.findVariable? name = some v →
    ∃ d, .declaration d ∈ events text ∧ d.name = name
  unused_ordered : table.unusedVariables.Pairwise (· < ·)
  mem_unused : ∀ name, name ∈ table.unusedVariables ↔
    ∃ d, LastDeclaration (events text) d ∧ d.name = name ∧ ∀ s, ¬IsUse text d s
  imported : ∀ i, .imported i ∈ events text → asciiLower i.name ∈ libraryNames →
    ∃ last l, LastImport (events text) (asciiLower i.name) last ∧
      table.findLibrary? i.name = some l ∧ l.Tells text (asciiLower i.name) last
  of_imported : ∀ library l, table.libraries.get? library = some l →
    library ∈ libraryNames ∧ ∃ i, .imported i ∈ events text ∧ asciiLower i.name = library

theorem exact_symbols (text : List Char) : (symbols text).Exact text where
  declared d hd := by
    obtain ⟨last, hlast, hname⟩ := exists_lastDeclaration hd
    exact ⟨last, _, hlast, hname, hname ▸ findVariable?_symbols_iff.2 ⟨last, hlast, rfl, rfl⟩,
      tells_variableOf text last⟩
  of_declared name v hv := by
    obtain ⟨d, hlast, hname, -⟩ := findVariable?_symbols_iff.1 hv
    exact ⟨d, of_lastDeclaration hlast, hname⟩
  unused_ordered := pairwise_unusedVariables text
  mem_unused _ := mem_unusedVariables_iff
  imported i hi hlibrary := by
    obtain ⟨last, hlast⟩ := exists_lastImport hi hlibrary
    exact ⟨last, _, hlast, get?_libraries_symbols_iff.2 ⟨last, hlast, rfl⟩, tells_libraryOf hlast⟩
  of_imported library l hl := by
    obtain ⟨i, hlast, -⟩ := get?_libraries_symbols_iff.1 hl
    exact ⟨hlast.1, i, of_lastImport hlast⟩

/-- The passes over a text fill its symbol table : the last declaration of each name with
exactly its uses in text order, the last import of each library with exactly the calls into
it, and a mark where there is a reference. -/
theorem symbols_filled (text : List Char) :
    (Filled.ofEvents text (events text)).table = symbols text ∧
      (Filled.ofEvents text (events text)).declared.Exact ∧
      (Filled.ofEvents text (events text)).libraries.Exact ∧ (symbols text).Exact text :=
  ⟨Filled.table_ofEvents text _, (Filled.holds_declared text _).exact,
    (Filled.holds_libraries text _).exact, exact_symbols text⟩

/-- The initializer of the last declaration reads the variable as it was before. -/
example : ((symbols "let x = 1\nlet x = x\nshow x, y.x".toList).findVariable? "x").map
    (·.references) = some [⟨2, 5, 6⟩] := by decide +kernel

end RazenLint
