import RazenLint.Proofs.Table
import RazenLint.Symbol

/-!
# Filling a symbol table step by step

A symbol table can be filled in passes over a text : one over the events that enters names
and collects the sites (`Names.enter`), one over the events that marks libraries
(`Marks.enterCall`), and one over the words that marks variables (`Marks.enterWord`). An
entry then carries a mark for its use, and the references stand in a table of their own.

What is there after some of the steps is told by what was read so far (`foldl_enter`,
`holds_calls`, `holds_words`), so at the end the passes have filled exactly the symbol
table (`table_ofEvents`), and an entry is marked when there are references to it
(`marked_ofEvents`).
-/

namespace RazenLint

/-! ## What a symbol table holds -/

namespace SymbolTable

variable (text : List Char) (events : List Event)

/-- The entry of a name for its last declaration. -/
def variableOf (name : String) (d : Declaration) : Variable :=
  ⟨d.nameSpan, d.statementSpan, d.kind,
    referencesTo (events.flatMap Event.sites) (occurrences text) name d.statementSpan⟩

/-- The entry of a library for its last import. -/
def libraryOf (name : String) (span : Span) : ImportedLibrary :=
  ⟨span, callsInto events name⟩

theorem get?_declared (name : String) : (ofEvents text events).declared.get? name =
    ((lastDeclarations events).get? name).map (variableOf text events name) :=
  Table.get?_map (variableOf text events) (lastDeclarations events) name

theorem get?_libraries (name : String) : (ofEvents text events).libraries.get? name =
    ((lastImports events).get? name).map (libraryOf events name) :=
  Table.get?_map (libraryOf events) (lastImports events) name

theorem sorted_declared : (ofEvents text events).declared.Sorted :=
  (Table.sorted_ofEntries _).map (variableOf text events)

theorem sorted_libraries : (ofEvents text events).libraries.Sorted :=
  (Table.sorted_ofEntries _).map (libraryOf events)

end SymbolTable

/-! ## Entering names -/

/-- The names that were entered, and the sites that were seen. -/
structure Names where
  declared : Table Declaration
  imported : Table Span
  sites : List Span

/-- A declaration or an import replaces an earlier one of the name. -/
def Names.enter (names : Names) : Event → Names
  | .declaration d =>
    { names with
      declared := names.declared.insert d.name d
      sites := names.sites ++ [d.nameSpan] }
  | .imported i =>
    match Library.resolve? i.name with
    | some library =>
      { names with
        imported := names.imported.insert library.name i.span
        sites := names.sites ++ [i.span] }
    | none => { names with sites := names.sites ++ [i.span] }
  | .call c =>
    if !c.legacy || isLibraryName c.library then
      { names with sites := names.sites ++ [c.librarySpan, c.functionSpan] }
    else names

theorem lastDeclarations_concat (events : List Event) (e : Event) :
    lastDeclarations (events ++ [e]) =
      match e.declaration? with
      | some d => (lastDeclarations events).insert d.name d
      | none => lastDeclarations events := by
  rw [lastDeclarations, List.filterMap_append, List.map_append]
  cases e with
  | declaration d => exact Table.ofEntries_concat _ _
  | imported i => exact congrArg Table.ofEntries (List.append_nil _)
  | call c => exact congrArg Table.ofEntries (List.append_nil _)

theorem lastImports_concat (events : List Event) (e : Event) :
    lastImports (events ++ [e]) =
      match e.import?.bind fun i => (Library.resolve? i.name).map fun l => (l.name, i.span) with
      | some (name, span) => (lastImports events).insert name span
      | none => lastImports events := by
  rw [lastImports, List.filterMap_append, List.filterMap_append]
  cases e with
  | declaration d => exact congrArg Table.ofEntries (List.append_nil _)
  | imported i =>
    cases hlibrary : Library.resolve? i.name with
    | none => simp [Event.import?, hlibrary, lastImports]
    | some library => simp [Event.import?, hlibrary, lastImports, Table.ofEntries_concat]
  | call c => exact congrArg Table.ofEntries (List.append_nil _)

/-- The names after some events are the last ones of their kind. -/
theorem foldl_enter (events : List Event) : events.foldl Names.enter ⟨[], [], []⟩ =
    ⟨lastDeclarations events, lastImports events, events.flatMap Event.sites⟩ := by
  induction events using List.reverseRecOn with
  | nil => rfl
  | append_singleton events e ih =>
    rw [List.foldl_append, ih, List.foldl_cons, List.foldl_nil, lastDeclarations_concat,
      lastImports_concat, List.flatMap_append, List.flatMap_singleton]
    cases e with
    | declaration d => rfl
    | imported i =>
      simp only [Names.enter, Event.declaration?, Event.import?, Option.bind_some]
      cases Library.resolve? i.name <;> rfl
    | call c =>
      simp only [Names.enter, Event.declaration?, Event.import?, Option.bind_none, Event.sites]
      split <;> simp

/-! ## Marking entries -/

/-- Entries with a mark for their use, and the references to them. -/
structure Marks (α : Type) where
  entries : Table (α × Bool)
  references : Table (List Span)

namespace Marks

variable {α : Type}

/-- Nothing is marked at first. -/
def start (entries : Table α) : Marks α where
  entries := entries.map fun (name, entry) => (name, (entry, false))
  references := []

def referencesOf (marks : Marks α) (name : String) : List Span :=
  (marks.references.get? name).getD []

/-- Adds a reference to the entry of a name, when there is one for which it counts. -/
def add (marks : Marks α) (name : String) (span : Span) (counts : α → Bool) : Marks α :=
  match marks.entries.get? name with
  | none => marks
  | some (entry, _) =>
    if counts entry then
      { entries := marks.entries.insert name (entry, true)
        references := marks.references.insert name (marks.referencesOf name ++ [span]) }
    else marks

/-- The table with the references that were found so far, where exactly the entries with
references are marked. -/
structure Holds (marks : Marks α) (table : Table α) (found : String → α → List Span) : Prop where
  sorted : marks.entries.Sorted
  entries : ∀ name, marks.entries.get? name =
    (table.get? name).map fun entry => (entry, !(found name entry).isEmpty)
  references : ∀ name, marks.referencesOf name = ((table.get? name).map (found name)).getD []

variable {table : Table α} {marks : Marks α} {found found' : String → α → List Span}

theorem holds_start (h : table.Sorted) : (start table).Holds table fun _ _ => [] where
  sorted := h.map fun _ entry => (entry, false)
  entries name := Table.get?_map (fun _ entry => (entry, false)) table name
  references name := by
    rw [referencesOf, start, Table.get?_nil]
    cases table.get? name <;> rfl

/-- Only what was found for the entries of the table matters. -/
theorem Holds.congr (h : marks.Holds table found)
    (hfound : ∀ name entry, table.get? name = some entry → found' name entry = found name entry) :
    marks.Holds table found' where
  sorted := h.sorted
  entries name := by
    rw [h.entries]
    cases hget : table.get? name with
    | none => rfl
    | some entry => simp only [Option.map_some, hfound name entry hget]
  references name := by
    rw [h.references]
    cases hget : table.get? name with
    | none => rfl
    | some entry => simp only [Option.map_some, hfound name entry hget]

/-- One more reference is found where it counts. -/
theorem Holds.add (h : marks.Holds table found) (name : String) (span : Span)
    (counts : α → Bool) :
    (marks.add name span counts).Holds table fun other entry =>
      found other entry ++ if other = name ∧ counts entry = true then [span] else [] := by
  have hentry := h.entries name
  unfold Marks.add
  cases hget : table.get? name with
  | none =>
    rw [hget, Option.map_none] at hentry
    rw [hentry]
    refine h.congr fun other entry hother => ?_
    have hne : other ≠ name := fun heq => by simp [← heq, hother] at hget
    simp [hne]
  | some known =>
    rw [hget, Option.map_some] at hentry
    rw [hentry]
    dsimp only
    split
    -- the entry of the name is marked, and those of other names stay as they are
    · rename_i hcounts
      refine ⟨h.sorted.insert _ _, fun other => ?_, fun other => ?_⟩
      · rw [Table.get?_insert]
        split
        · rename_i hother
          simp [hother, hget, hcounts]
        · rename_i hother
          simp [h.entries, hother]
      · rw [referencesOf, Table.get?_insert]
        split
        · rename_i hother
          simp [hother, h.references, hget, hcounts]
        · rename_i hother
          rw [← referencesOf, h.references]
          simp [hother]
    · rename_i hcounts
      refine h.congr fun other entry hother => ?_
      rw [if_neg, List.append_nil]
      rintro ⟨rfl, hcounted⟩
      rw [hget, Option.some.injEq] at hother
      exact hcounts (hother ▸ hcounted)

end Marks

/-! ## Marking libraries and variables -/

/-- A call marks the library that its name stands for. -/
def Marks.enterCall (marks : Marks Span) : Event → Marks Span
  | .call c =>
    match Library.resolve? c.library with
    | some library => marks.add library.name c.librarySpan fun _ => true
    | none => marks
  | _ => marks

/-- A word marks the variable that it names, when it stands past its declaration and
names nothing else. -/
def Marks.enterWord (sites : List Span) (marks : Marks Declaration) (o : Occurrence) :
    Marks Declaration :=
  marks.add o.word o.span fun d =>
    !o.isMember && !isLibraryName o.word && !sites.contains o.span && o.span.isPast d.statementSpan

theorem callsInto_append (events later : List Event) (name : String) :
    callsInto (events ++ later) name = callsInto events name ++ callsInto later name := by
  simp only [callsInto, List.filterMap_append]

theorem referencesTo_append (sites : List Span) (words later : List Occurrence) (name : String)
    (statement : Span) :
    referencesTo sites (words ++ later) name statement =
      referencesTo sites words name statement ++ referencesTo sites later name statement := by
  unfold referencesTo
  split
  · rfl
  · rw [List.filter_append, List.map_append]

/-- A call is one more reference to its library. -/
theorem Marks.Holds.enterCall {marks : Marks Span} {table : Table Span}
    {found : String → Span → List Span} (h : marks.Holds table found) (e : Event) :
    (marks.enterCall e).Holds table fun name span => found name span ++ callsInto [e] name := by
  cases e with
  | declaration d => exact h.congr fun _ _ _ => List.append_nil _
  | imported i => exact h.congr fun _ _ _ => List.append_nil _
  | call c =>
    cases hlibrary : Library.resolve? c.library with
    | none =>
      simp only [Marks.enterCall, hlibrary]
      refine h.congr fun name span _ => ?_
      simp [callsInto, Event.call?, hlibrary]
    | some library =>
      simp only [Marks.enterCall, hlibrary]
      refine (h.add library.name c.librarySpan fun _ => true).congr fun name span _ => ?_
      by_cases hname : name = library.name
      · simp [callsInto, Event.call?, hlibrary, hname]
      · simp [callsInto, Event.call?, hlibrary, hname, Ne.symm hname]

/-- A word is one more reference to the variable that it names. -/
theorem Marks.Holds.enterWord {marks : Marks Declaration} {table : Table Declaration}
    {found : String → Declaration → List Span} (h : marks.Holds table found) (sites : List Span)
    (o : Occurrence) :
    (marks.enterWord sites o).Holds table fun name d =>
      found name d ++ referencesTo sites [o] name d.statementSpan := by
  refine (h.add o.word o.span _).congr fun name d _ => ?_
  by_cases hname : name = o.word
  · subst hname
    cases hlibrary : isLibraryName o.word with
    | true => simp [referencesTo, hlibrary]
    | false =>
      simp only [referencesTo, hlibrary, List.filter_cons, List.filter_nil, decide_true,
        Bool.not_false, Bool.and_true, Bool.true_and, if_false, Bool.false_eq_true, true_and]
      split <;> rfl
  · simp [referencesTo, hname, Ne.symm hname]

/-- The libraries after some events. -/
theorem holds_calls {table : Table Span} (h : table.Sorted) (events : List Event) :
    (events.foldl Marks.enterCall (.start table)).Holds table fun name _ =>
      callsInto events name := by
  induction events using List.reverseRecOn with
  | nil => exact Marks.holds_start h
  | append_singleton events e ih =>
    rw [List.foldl_append]
    simp only [callsInto_append]
    exact ih.enterCall e

/-- The variables after some words. -/
theorem holds_words {table : Table Declaration} (h : table.Sorted) (sites : List Span)
    (words : List Occurrence) :
    (words.foldl (Marks.enterWord sites) (.start table)).Holds table fun name d =>
      referencesTo sites words name d.statementSpan := by
  induction words using List.reverseRecOn with
  | nil =>
    refine (Marks.holds_start h).congr fun name d _ => ?_
    simp [referencesTo]
  | append_singleton words o ih =>
    rw [List.foldl_append]
    simp only [referencesTo_append]
    exact ih.enterWord sites o

/-! ## The passes over a text -/

/-- What the passes have filled. -/
structure Filled where
  declared : Marks Declaration
  libraries : Marks Span

namespace Filled

/-- The passes over a text with the given events. -/
def ofEvents (text : List Char) (events : List Event) : Filled :=
  let names := events.foldl Names.enter ⟨[], [], []⟩
  { declared := (occurrences text).foldl (Marks.enterWord names.sites) (.start names.declared)
    libraries := events.foldl Marks.enterCall (.start names.imported) }

def variableOf (filled : Filled) (name : String) (entry : Declaration × Bool) : Variable :=
  ⟨entry.1.nameSpan, entry.1.statementSpan, entry.1.kind, filled.declared.referencesOf name⟩

def libraryOf (filled : Filled) (name : String) (entry : Span × Bool) : ImportedLibrary :=
  ⟨entry.1, filled.libraries.referencesOf name⟩

/-- The entries with their references, as a symbol table. -/
def table (filled : Filled) : SymbolTable where
  declared := filled.declared.entries.map fun (name, entry) => (name, filled.variableOf name entry)
  libraries := filled.libraries.entries.map fun (name, entry) => (name, filled.libraryOf name entry)

theorem holds_declared (text : List Char) (events : List Event) :
    (ofEvents text events).declared.Holds (lastDeclarations events) fun name d =>
      referencesTo (events.flatMap Event.sites) (occurrences text) name d.statementSpan := by
  rw [ofEvents, foldl_enter]
  exact holds_words (Table.sorted_ofEntries _) _ _

theorem holds_libraries (text : List Char) (events : List Event) :
    (ofEvents text events).libraries.Holds (lastImports events) fun name _ =>
      callsInto events name := by
  rw [ofEvents, foldl_enter]
  exact holds_calls (Table.sorted_ofEntries _) _

theorem declared_table_ofEvents (text : List Char) (events : List Event) :
    (ofEvents text events).table.declared = (SymbolTable.ofEvents text events).declared := by
  have h := holds_declared text events
  refine (h.sorted.map (variableOf _)).ext (SymbolTable.sorted_declared text events) fun name => ?_
  rw [SymbolTable.get?_declared, Table.get?_map, h.entries, Option.map_map]
  cases hget : (lastDeclarations events).get? name with
  | none => rfl
  | some d => simp [variableOf, SymbolTable.variableOf, h.references, hget]

theorem libraries_table_ofEvents (text : List Char) (events : List Event) :
    (ofEvents text events).table.libraries = (SymbolTable.ofEvents text events).libraries := by
  have h := holds_libraries text events
  refine (h.sorted.map (libraryOf _)).ext (SymbolTable.sorted_libraries text events) fun name => ?_
  rw [SymbolTable.get?_libraries, Table.get?_map, h.entries, Option.map_map]
  cases hget : (lastImports events).get? name with
  | none => rfl
  | some span => simp [libraryOf, SymbolTable.libraryOf, h.references, hget]

/-- The passes fill the symbol table. -/
theorem table_ofEvents (text : List Char) (events : List Event) :
    (ofEvents text events).table = .ofEvents text events :=
  congrArg₂ SymbolTable.mk (declared_table_ofEvents text events)
    (libraries_table_ofEvents text events)

end Filled

/-- An entry is marked exactly when there are references to it. -/
def Marks.Exact {α : Type} (marks : Marks α) : Prop :=
  ∀ name entry used, marks.entries.get? name = some (entry, used) →
    (used = true ↔ marks.referencesOf name ≠ [])

theorem Marks.Holds.exact {α : Type} {marks : Marks α} {table : Table α}
    {found : String → α → List Span} (h : marks.Holds table found) : marks.Exact := by
  intro name entry used hentry
  rw [h.entries] at hentry
  rw [h.references]
  cases hget : table.get? name with
  | none => simp [hget] at hentry
  | some known =>
    rw [hget, Option.map_some, Option.some.injEq, Prod.mk.injEq] at hentry
    simp [← hentry.2]

end RazenLint
