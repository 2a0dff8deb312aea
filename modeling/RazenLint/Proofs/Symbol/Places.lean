import RazenLint.Proofs.Symbol.References
import RazenLint.Token

/-!
# Where symbols stand

A symbol of a text is a variable or a library from its symbol table, and its places are
the one where it is declared or imported and those that refer to it (`Symbol.places`). At
each place stands a word for the symbol (`exists_wordAt_of_mem_places`), and no place is
there twice, for one symbol or for two (`nodup_places`) : what is named by an event is no
use of a variable, two events name different places, and different words of one category
stand for different symbols.
-/

namespace RazenLint

open Text

/-- Whether a word stands for what has the given key. Case does not matter for libraries. -/
def TokenCategory.Reads : TokenCategory → String → String → Prop
  | var, word, key => word = key
  | library, word, key => asciiLower word = key

/-- A word stands for one key. -/
theorem TokenCategory.Reads.unique {category : TokenCategory} {word key key' : String}
    (h : category.Reads word key) (h' : category.Reads word key') : key = key' := by
  cases category with
  | var => exact h.symm.trans h'
  | library => exact h.symm.trans h'

/-- A variable or a library, with its places. -/
structure Symbol where
  category : TokenCategory
  /-- The name of the variable, or the library's own name. -/
  key : String
  /-- Where it is declared or imported. -/
  span : Span
  references : List Span

namespace Symbol

def ofVariable (name : String) (v : Variable) : Symbol :=
  ⟨.var, name, v.span, v.references⟩

def ofLibrary (name : String) (l : ImportedLibrary) : Symbol :=
  ⟨.library, name, l.span, l.references⟩

/-- Its declaration, then what refers to it. -/
def places (s : Symbol) : List Span :=
  s.span :: s.references

end Symbol

/-- The symbols of a table, the variables first. -/
def SymbolTable.symbolList (table : SymbolTable) : List Symbol :=
  table.declared.map (fun (name, v) => Symbol.ofVariable name v) ++
    table.libraries.map fun (name, l) => Symbol.ofLibrary name l

/-- The table has an entry of the category under the key. -/
def SymbolTable.Has (table : SymbolTable) : TokenCategory → String → Prop
  | .var, key => key ∈ table.declared.keys
  | .library, key => key ∈ table.libraries.keys

theorem SymbolTable.has_iff {table : SymbolTable} {category : TokenCategory} {key : String} :
    table.Has category key ↔ ∃ s ∈ table.symbolList, s.category = category ∧ s.key = key := by
  simp only [symbolList, List.mem_append, List.mem_map, Prod.exists]
  cases category with
  | var =>
    simp only [Has, Table.keys, List.mem_map, Prod.exists]
    constructor
    · rintro ⟨name, v, hmem, rfl⟩
      exact ⟨_, Or.inl ⟨name, v, hmem, rfl⟩, rfl, rfl⟩
    · rintro ⟨_, ⟨name, v, hmem, rfl⟩ | ⟨name, l, hmem, rfl⟩, hcategory, rfl⟩
      · exact ⟨name, v, hmem, rfl⟩
      · cases hcategory
  | library =>
    simp only [Has, Table.keys, List.mem_map, Prod.exists]
    constructor
    · rintro ⟨name, l, hmem, rfl⟩
      exact ⟨_, Or.inr ⟨name, l, hmem, rfl⟩, rfl, rfl⟩
    · rintro ⟨_, ⟨name, v, hmem, rfl⟩ | ⟨name, l, hmem, rfl⟩, hcategory, rfl⟩
      · cases hcategory
      · exact ⟨name, l, hmem, rfl⟩

/-- Some event declares the variable or imports the library. -/
def Introduced (events : List Event) : TokenCategory → String → Prop
  | .var, key => ∃ d, .declaration d ∈ events ∧ d.name = key
  | .library, key => key ∈ libraryNames ∧ ∃ i, .imported i ∈ events ∧ asciiLower i.name = key

section

variable {text : List Char}

/-- The entries of a text are what its events introduce. -/
theorem has_symbols_iff {category : TokenCategory} {key : String} :
    (symbols text).Has category key ↔ Introduced (events text) category key := by
  have hexact := exact_symbols text
  cases category with
  | var =>
    rw [SymbolTable.Has, Table.mem_keys_iff, Option.isSome_iff_exists]
    constructor
    · rintro ⟨v, hv⟩
      exact hexact.of_declared key v hv
    · rintro ⟨d, hd, rfl⟩
      obtain ⟨-, v, -, -, hv, -⟩ := hexact.declared d hd
      exact ⟨v, hv⟩
  | library =>
    rw [SymbolTable.Has, Table.mem_keys_iff, Option.isSome_iff_exists]
    constructor
    · rintro ⟨l, hl⟩
      exact hexact.of_imported key l hl
    · rintro ⟨hkey, i, hi, rfl⟩
      obtain ⟨-, l, -, hl, -⟩ := hexact.imported i hi hkey
      exact ⟨l, hl⟩

/-- What is known of a symbol of a text : it is the last declaration of a name with its
uses, or the last import of a library with the calls into it. -/
inductive SymbolOf (text : List Char) : Symbol → Prop where
  | declared {d : Declaration} {v : Variable} (h : LastDeclaration (events text) d)
      (hv : v.Tells text d) : SymbolOf text (.ofVariable d.name v)
  | imported {key : String} {i : Import} {l : ImportedLibrary}
      (h : LastImport (events text) key i) (hl : l.Tells text key i) :
      SymbolOf text (.ofLibrary key l)

theorem symbolOf_of_mem_symbolList {s : Symbol} (hs : s ∈ (symbols text).symbolList) :
    SymbolOf text s := by
  rcases List.mem_append.1 hs with hs | hs
  · obtain ⟨⟨name, v⟩, hmem, rfl⟩ := List.mem_map.1 hs
    have hget := (SymbolTable.sorted_declared text (events text)).get?_eq_some_iff.2 hmem
    obtain ⟨d, hlast, rfl, rfl⟩ := findVariable?_symbols_iff.1 hget
    exact .declared hlast (tells_variableOf text d)
  · obtain ⟨⟨name, l⟩, hmem, rfl⟩ := List.mem_map.1 hs
    have hget := (SymbolTable.sorted_libraries text (events text)).get?_eq_some_iff.2 hmem
    obtain ⟨i, hlast, rfl⟩ := get?_libraries_symbols_iff.1 hget
    exact .imported hlast (tells_libraryOf hlast)

/-- At each place of a symbol stands a word for it. -/
theorem exists_wordAt_of_mem_places {s : Symbol} (hs : SymbolOf text s) {p : Span}
    (hp : p ∈ s.places) : ∃ word, WordAt text word p ∧ s.category.Reads word s.key := by
  cases hs with
  | @declared d v h hv =>
    rcases List.mem_cons.1 hp with hp | hp
    · rw [hp.trans hv.span]
      exact ⟨d.name, namesWords_of_mem_events (of_lastDeclaration h), rfl⟩
    · exact ⟨d.name, ((hv.mem_references p).1 hp).word, rfl⟩
  | @imported key i l h hl =>
    obtain ⟨himport, hname⟩ := of_lastImport h
    rcases List.mem_cons.1 hp with hp | hp
    · rw [hp.trans hl.span]
      exact ⟨i.name, namesWords_of_mem_events himport, hname⟩
    · obtain ⟨c, hc, hlibrary, rfl⟩ := (hl.mem_references p).1 hp
      exact ⟨c.library, (namesWords_of_mem_events hc).1, hlibrary⟩

/-- Symbols of one category with a place in common have one key. -/
theorem key_eq_of_mem_places {s s' : Symbol} (hs : SymbolOf text s) (hs' : SymbolOf text s')
    (hcategory : s.category = s'.category) {p : Span} (hp : p ∈ s.places) (hp' : p ∈ s'.places) :
    s.key = s'.key := by
  obtain ⟨word, hword, hreads⟩ := exists_wordAt_of_mem_places hs hp
  obtain ⟨word', hword', hreads'⟩ := exists_wordAt_of_mem_places hs' hp'
  rw [hword'.unique hword, ← hcategory] at hreads'
  exact hreads.unique hreads'

/-- The places of a symbol differ. -/
theorem nodup_places {s : Symbol} (hs : SymbolOf text s) : s.places.Nodup := by
  have hordered : ∀ {references : List Span}, references.Pairwise Span.Before →
      (∀ p ∈ references, p ∈ s.places) → references.Nodup := by
    intro references hpairwise hmem
    refine hpairwise.imp_of_mem fun {p q} hp hq hpq => ?_
    obtain ⟨word, hword, -⟩ := exists_wordAt_of_mem_places hs (hmem p hp)
    exact hpq.ne hword.start_lt_stop
  cases hs with
  | @declared d v h hv =>
    refine List.nodup_cons.2 ⟨fun hmem => ?_, hordered hv.ordered fun p => List.mem_cons_of_mem _⟩
    have hmem : d.nameSpan ∈ v.references := hv.span ▸ hmem
    exact ((hv.mem_references _).1 hmem).notNamed (.declared (of_lastDeclaration h))
  | @imported key i l h hl =>
    refine List.nodup_cons.2 ⟨fun hmem => ?_, hordered hl.ordered fun p => List.mem_cons_of_mem _⟩
    have hmem : i.span ∈ l.references := hl.span ▸ hmem
    obtain ⟨c, hc, -, hspan⟩ := (hl.mem_references _).1 hmem
    have heq := eq_of_mem_nameSpans (of_lastImport h).1 hc (List.mem_singleton_self _)
      (hspan ▸ List.mem_cons_self)
    cases heq

/-- A place of a variable is no place of a library. -/
theorem notMem_places_imported {d : Declaration} {v : Variable}
    (hd : .declaration d ∈ events text) (hv : v.Tells text d) {key : String} {i : Import}
    {l : ImportedLibrary} (h : LastImport (events text) key i) (hl : l.Tells text key i) {p : Span}
    (hp : p ∈ (Symbol.ofVariable d.name v).places) : p ∉ (Symbol.ofLibrary key l).places := by
  intro hp'
  -- a place of the library is named by an event that is not the declaration
  have hevent : ∃ e ∈ events text, p ∈ e.nameSpans ∧ e ≠ .declaration d ∧
      NamedAt (events text) p := by
    rcases List.mem_cons.1 hp' with hp' | hp'
    · have himport := (of_lastImport h).1
      rw [hp'.trans hl.span]
      exact ⟨.imported i, himport, List.mem_singleton_self _, by simp, .imported himport⟩
    · obtain ⟨c, hc, hlibrary, rfl⟩ := (hl.mem_references p).1 hp'
      exact ⟨.call c, hc, List.mem_cons_self, by simp, .library hc (Or.inr (hlibrary ▸ h.1))⟩
  obtain ⟨e, he, hmem, hne, hnamed⟩ := hevent
  rcases List.mem_cons.1 hp with hp | hp
  · have hname : p = d.nameSpan := hp.trans hv.span
    exact hne (eq_of_mem_nameSpans he hd hmem (List.mem_singleton.2 hname))
  · exact ((hv.mem_references p).1 hp).notNamed hnamed

/-- Two symbols of one category and with one key are the same. -/
theorem pairwise_symbolList (text : List Char) : (symbols text).symbolList.Pairwise fun s s' =>
    s.category ≠ s'.category ∨ s.key ≠ s'.key := by
  refine List.pairwise_append.2 ⟨?_, ?_, fun s hs s' hs' => Or.inl ?_⟩
  · refine List.pairwise_map.2 ((List.pairwise_map.1
      (SymbolTable.sorted_declared text (events text))).imp fun h => Or.inr h.ne)
  · refine List.pairwise_map.2 ((List.pairwise_map.1
      (SymbolTable.sorted_libraries text (events text))).imp fun h => Or.inr h.ne)
  · obtain ⟨p, -, rfl⟩ := List.mem_map.1 hs
    obtain ⟨q, -, rfl⟩ := List.mem_map.1 hs'
    exact fun h => TokenCategory.noConfusion h

theorem eq_of_mem_symbolList {s s' : Symbol} (hs : s ∈ (symbols text).symbolList)
    (hs' : s' ∈ (symbols text).symbolList) (hcategory : s.category = s'.category)
    (hkey : s.key = s'.key) : s = s' := by
  have hsymm : Std.Symm fun s s' : Symbol => s.category ≠ s'.category ∨ s.key ≠ s'.key :=
    ⟨fun s s' h => h.imp Ne.symm Ne.symm⟩
  by_contra hne
  rcases (pairwise_symbolList text).forall hs hs' hne with h | h
  · exact h hcategory
  · exact h hkey

/-- Two symbols have no place in common. -/
theorem disjoint_places {s s' : Symbol} (hs : SymbolOf text s) (hs' : SymbolOf text s')
    (hne : s.category ≠ s'.category ∨ s.key ≠ s'.key) : s.places.Disjoint s'.places := by
  intro p hp hp'
  have hsame : s.category ≠ s'.category := fun hcategory =>
    hne.elim (· hcategory) (· (key_eq_of_mem_places hs hs' hcategory hp hp'))
  cases hs with
  | declared h hv =>
    cases hs' with
    | declared h' hv' => exact hsame rfl
    | imported h' hl' => exact notMem_places_imported (of_lastDeclaration h) hv h' hl' hp hp'
  | imported h hl =>
    cases hs' with
    | declared h' hv' => exact notMem_places_imported (of_lastDeclaration h') hv' h hl hp' hp
    | imported h' hl' => exact hsame rfl

/-- No place of a text is there twice. -/
theorem nodup_places_symbols (text : List Char) :
    ((symbols text).symbolList.flatMap Symbol.places).Nodup :=
  List.nodup_flatMap.2 ⟨fun _ hs => nodup_places (symbolOf_of_mem_symbolList hs),
    (pairwise_symbolList text).imp_of_mem fun hs hs' hne =>
      disjoint_places (symbolOf_of_mem_symbolList hs) (symbolOf_of_mem_symbolList hs') hne⟩

end

end RazenLint
