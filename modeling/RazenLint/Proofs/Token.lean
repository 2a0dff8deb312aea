import RazenLint.Analysis
import RazenLint.Proofs.Symbol.Places

/-!
# Semantic tokens stand one after the other

The tokens of a text are those of its symbols (`Symbol.tokens`), in reading order. No two
symbols have a place in common and at each place stands a word, so each token ends before
the next one begins (`pairwise_sortedTokens`), and no token is dropped as a repeat
(`tokens_symbols`). What a token covers tells its symbol (`eq_of_isOf`), so each symbol
has one declaration token, marked as used when there are other tokens of the symbol
(`tokens_well_formed`).
-/

namespace RazenLint

open Text

/-! ## Tokens and their places -/

namespace Token

/-- The stretch that a token covers. -/
def span (token : Token) : Span :=
  ⟨token.line, token.startColumn, token.startColumn + token.length⟩

@[simp] theorem span_ofSpan {category : TokenCategory} {modifiers : Nat} {p : Span}
    (h : p.start ≤ p.stop) : (ofSpan category modifiers p).span = p := by
  obtain ⟨line, start, stop⟩ := p
  simp only at h
  simp only [span, ofSpan, Span.length, Span.mk.injEq, true_and]
  omega

/-- The tokens are sorted by line, column and category. -/
theorem isLE_compare_iff (a b : Token) : (a.compare b).isLE = true ↔
    a.line < b.line ∨ (a.line = b.line ∧ (a.startColumn < b.startColumn ∨
      (a.startColumn = b.startColumn ∧ a.category.rank ≤ b.category.rank))) := by
  simp only [compare, Ordering.isLE_then_iff_or, Nat.compare_eq_lt, Nat.compare_eq_eq,
    Nat.isLE_compare]

theorem pairwise_mergeSort (tokens : List Token) :
    (tokens.mergeSort fun a b => (a.compare b).isLE).Pairwise fun a b =>
      (a.compare b).isLE = true := by
  refine List.pairwise_mergeSort (fun a b c => ?_) (fun a b => ?_) _
  · rw [isLE_compare_iff, isLE_compare_iff, isLE_compare_iff]
    omega
  · rw [Bool.or_eq_true, isLE_compare_iff, isLE_compare_iff]
    omega

/-- A token that ends before another one begins is not sorted behind it. -/
theorem not_isLE_compare_of_before {a b : Token} (h : b.span.Before a.span)
    (hb : b.span.start < b.span.stop) : ¬(a.compare b).isLE = true := by
  have hb : b.startColumn < b.startColumn + b.length := hb
  have h : b.line < a.line ∨ (b.line = a.line ∧ b.startColumn + b.length ≤ a.startColumn) := h
  rw [isLE_compare_iff]
  omega

/-- Where no token stands twice in a row, nothing is dropped. -/
theorem dropRepeats_eq_self : ∀ {tokens : List Token}, tokens.Pairwise (· ≠ ·) →
    dropRepeats tokens = tokens
  | [], _ => rfl
  | [_], _ => rfl
  | first :: second :: rest, h => by
    obtain ⟨hfirst, hrest⟩ := List.pairwise_cons.1 h
    rw [dropRepeats, if_neg (hfirst second List.mem_cons_self), dropRepeats_eq_self hrest]

end Token

namespace Symbol

/-- Its declaration token, then one for each reference. -/
def tokens (s : Symbol) : List Token :=
  Token.ofSymbol s.category s.span s.references

def declarationToken (s : Symbol) : Token :=
  Token.ofDeclaration s.category (!s.references.isEmpty) s.span

theorem mem_tokens_iff {s : Symbol} {token : Token} : token ∈ s.tokens ↔
    token = s.declarationToken ∨ ∃ p ∈ s.references, token = Token.ofSpan s.category usedBit p := by
  simp only [tokens, Token.ofSymbol, List.mem_cons, List.mem_map, eq_comm, declarationToken]

theorem exists_place_of_mem_tokens {s : Symbol} {token : Token} (h : token ∈ s.tokens) :
    ∃ p ∈ s.places, ∃ modifiers, token = Token.ofSpan s.category modifiers p := by
  rcases mem_tokens_iff.1 h with rfl | ⟨p, hp, rfl⟩
  · exact ⟨s.span, List.mem_cons_self, _, rfl⟩
  · exact ⟨p, List.mem_cons_of_mem _ hp, _, rfl⟩

theorem isDeclaration_declarationToken (s : Symbol) : s.declarationToken.isDeclaration = true := by
  change decide ((declarationBit ||| if !s.references.isEmpty then usedBit else unusedBit) &&&
    declarationBit ≠ 0) = true
  cases s.references.isEmpty <;> decide

theorem isDeclaration_ofSpan_usedBit (category : TokenCategory) (p : Span) :
    (Token.ofSpan category usedBit p).isDeclaration = false := by
  change decide (usedBit &&& declarationBit ≠ 0) = false
  decide

end Symbol

/-- The tokens of a table, symbol after symbol. -/
def SymbolTable.unsortedTokens (table : SymbolTable) : List Token :=
  table.symbolList.flatMap Symbol.tokens

theorem SymbolTable.tokens_eq (table : SymbolTable) : table.tokens =
    Token.dropRepeats (table.unsortedTokens.mergeSort fun a b => (a.compare b).isLE) := by
  rw [unsortedTokens, symbolList, List.flatMap_append, List.flatMap_map, List.flatMap_map]
  rfl

/-! ## The tokens of a text -/

section

variable {text : List Char}

/-- Under each token of a symbol stands a word for it. -/
theorem exists_wordAt_of_mem_tokens {s : Symbol} (hs : SymbolOf text s) {token : Token}
    (h : token ∈ s.tokens) : token.category = s.category ∧ token.span ∈ s.places ∧
      ∃ word, WordAt text word token.span ∧ s.category.Reads word s.key := by
  obtain ⟨p, hp, modifiers, rfl⟩ := Symbol.exists_place_of_mem_tokens h
  obtain ⟨word, hword, hreads⟩ := exists_wordAt_of_mem_places hs hp
  rw [Token.span_ofSpan hword.start_lt_stop.le]
  exact ⟨rfl, hp, word, hword, hreads⟩

/-- The tokens of a symbol cover its places. -/
theorem map_span_tokens {s : Symbol} (hs : SymbolOf text s) :
    s.tokens.map Token.span = s.places := by
  have hspan : ∀ p ∈ s.places, ∀ modifiers, (Token.ofSpan s.category modifiers p).span = p := by
    intro p hp modifiers
    obtain ⟨word, hword, -⟩ := exists_wordAt_of_mem_places hs hp
    exact Token.span_ofSpan hword.start_lt_stop.le
  rw [Symbol.tokens, Token.ofSymbol, List.map_cons, List.map_map, Symbol.places]
  refine congrArg₂ List.cons (hspan s.span List.mem_cons_self _) ?_
  refine (List.map_congr_left fun p hp => ?_).trans (List.map_id s.references)
  exact hspan p (List.mem_cons_of_mem _ hp) _

theorem exists_symbol_of_mem_unsortedTokens {token : Token}
    (h : token ∈ (symbols text).unsortedTokens) :
    ∃ s ∈ (symbols text).symbolList, SymbolOf text s ∧ token ∈ s.tokens := by
  obtain ⟨s, hs, ht⟩ := List.mem_flatMap.1 h
  exact ⟨s, hs, symbolOf_of_mem_symbolList hs, ht⟩

/-- No two tokens cover the same. -/
theorem nodup_span_unsortedTokens (text : List Char) :
    ((symbols text).unsortedTokens.map Token.span).Nodup := by
  have hspans : (symbols text).unsortedTokens.map Token.span =
      (symbols text).symbolList.flatMap Symbol.places := by
    rw [SymbolTable.unsortedTokens, List.map_flatMap]
    exact List.flatMap_congr fun s hs => map_span_tokens (symbolOf_of_mem_symbolList hs)
  rw [hspans]
  exact nodup_places_symbols text

/-- In reading order each token ends before the next one begins. -/
theorem pairwise_sortedTokens (text : List Char) :
    ((symbols text).unsortedTokens.mergeSort fun a b => (a.compare b).isLE).Pairwise fun a b =>
      a.span.Before b.span := by
  have hnodup := (((List.mergeSort_perm _ fun a b : Token => (a.compare b).isLE).map
    Token.span).nodup_iff).2 (nodup_span_unsortedTokens text)
  refine ((Token.pairwise_mergeSort _).and (List.pairwise_map.1 hnodup)).imp_of_mem ?_
  rintro a b ha hb ⟨hle, hne⟩
  obtain ⟨s, -, hs, ha⟩ := exists_symbol_of_mem_unsortedTokens (List.mem_mergeSort.1 ha)
  obtain ⟨s', -, hs', hb⟩ := exists_symbol_of_mem_unsortedTokens (List.mem_mergeSort.1 hb)
  obtain ⟨-, -, word, hword, -⟩ := exists_wordAt_of_mem_tokens hs ha
  obtain ⟨-, -, word', hword', -⟩ := exists_wordAt_of_mem_tokens hs' hb
  -- words do not overlap, so sorting by where they begin puts them one after the other
  rcases hword.before_or hword' with h | h | h
  · exact h
  · exact absurd hle (Token.not_isLE_compare_of_before h hword'.start_lt_stop)
  · exact absurd h hne

/-- No token of a text is dropped as a repeat. -/
theorem tokens_symbols (text : List Char) : (symbols text).tokens =
    (symbols text).unsortedTokens.mergeSort fun a b => (a.compare b).isLE := by
  rw [SymbolTable.tokens_eq]
  refine Token.dropRepeats_eq_self ((pairwise_sortedTokens text).imp_of_mem ?_)
  rintro a b ha - h rfl
  obtain ⟨s, -, hs, ha⟩ := exists_symbol_of_mem_unsortedTokens (List.mem_mergeSort.1 ha)
  obtain ⟨-, -, word, hword, -⟩ := exists_wordAt_of_mem_tokens hs ha
  exact h.ne hword.start_lt_stop rfl

theorem mem_tokens_symbols_iff {token : Token} : token ∈ (symbols text).tokens ↔
    token ∈ (symbols text).unsortedTokens := by
  rw [tokens_symbols, List.mem_mergeSort]

/-! ## What a token covers -/

/-- The token is of the category, and the text that it covers stands for the key. -/
def Token.IsOf (text : List Char) (category : TokenCategory) (key : String) (token : Token) :
    Prop :=
  token.category = category ∧ ∃ line, (lines text)[token.line]? = some line ∧
    token.startColumn + token.length ≤ line.length ∧
    category.Reads (String.ofList ((line.drop token.startColumn).take token.length)) key

/-- A token of a symbol covers a word for it and for no other key. -/
theorem isOf_iff_of_mem_tokens {s : Symbol} (hs : SymbolOf text s) {token : Token}
    (h : token ∈ s.tokens) {category : TokenCategory} {key : String} :
    token.IsOf text category key ↔ s.category = category ∧ s.key = key := by
  obtain ⟨hcategory, -, word, hword, hreads⟩ := exists_wordAt_of_mem_tokens hs h
  obtain ⟨line, hline, hstop, hslice⟩ := hword.exists_slice
  have hcovered : String.ofList ((line.drop token.startColumn).take token.length) = word := by
    rw [← String.ofList_toList (s := word), ← hslice, Span.slice, Span.length, Token.span,
      Nat.add_sub_cancel_left]
  rw [Token.IsOf, hcategory]
  constructor
  · rintro ⟨rfl, line', hline', -, hreads'⟩
    have hsame : some line' = some line := hline'.symm.trans hline
    rw [Option.some.injEq] at hsame
    rw [hsame, hcovered] at hreads'
    exact ⟨rfl, hreads.unique hreads'⟩
  · rintro ⟨rfl, rfl⟩
    exact ⟨rfl, line, hline, hstop, hcovered ▸ hreads⟩

end

/-! ## Tokens of a table as a whole -/

/-- The tokens of a text stand one after the other in its lines, each one for an entry of
the table, with one declaration token for each entry. -/
structure Token.WellFormed (text : List Char) (table : SymbolTable) (tokens : List Token) :
    Prop where
  increasing : tokens.Pairwise fun a b =>
    a.line < b.line ∨ (a.line = b.line ∧ a.startColumn < b.startColumn)
  disjoint : tokens.Pairwise fun a b =>
    a.line = b.line → a.startColumn + a.length ≤ b.startColumn
  length_pos : ∀ t ∈ tokens, 0 < t.length
  /-- What a token covers, it covers for an entry of the table. -/
  named : ∀ t ∈ tokens, ∃ key, table.Has t.category key ∧ t.IsOf text t.category key
  declaration : ∀ category key, table.Has category key →
    ∃! t, t ∈ tokens ∧ t.IsOf text category key ∧ t.isDeclaration = true
  /-- A declaration is marked as used when another token has its symbol, and as unused
  when none has. -/
  usage : ∀ t ∈ tokens, t.isDeclaration = true → ∀ key, t.IsOf text t.category key →
    (t.modifiers = declarationBit ||| usedBit ∧
      ∃ t' ∈ tokens, t'.IsOf text t.category key ∧ t'.isDeclaration = false) ∨
    (t.modifiers = declarationBit ||| unusedBit ∧
      ∀ t' ∈ tokens, t'.IsOf text t.category key → t'.isDeclaration = true)
  reference : ∀ t ∈ tokens, t.isDeclaration = false → t.modifiers = usedBit
  length_eq : tokens.length = table.declared.length + table.libraries.length +
    ((table.declared.flatMap fun (_, v) => v.references).length +
      (table.libraries.flatMap fun (_, l) => l.references).length)

section

variable {text : List Char}

theorem length_unsortedTokens (table : SymbolTable) : table.unsortedTokens.length =
    table.declared.length + table.libraries.length +
      ((table.declared.flatMap fun (_, v) => v.references).length +
        (table.libraries.flatMap fun (_, l) => l.references).length) := by
  have hlength : ∀ {α : Type} (entries : Table α) (f : String × α → Symbol),
      ((entries.map f).flatMap Symbol.tokens).length =
        entries.length + (entries.flatMap fun p => (f p).references).length := by
    intro α entries f
    induction entries with
    | nil => rfl
    | cons p rest ih =>
      have htokens : (f p).tokens.length = (f p).references.length + 1 := by
        simp [Symbol.tokens, Token.ofSymbol]
      simp only [List.map_cons, List.flatMap_cons, List.length_append, List.length_cons, ih,
        htokens]
      omega
  rw [SymbolTable.unsortedTokens, SymbolTable.symbolList, List.flatMap_append, List.length_append,
    hlength, hlength]
  simp only [Symbol.ofVariable, Symbol.ofLibrary]
  omega

/-- A symbol's only declaration token is the first of its tokens. -/
theorem eq_declarationToken_of_mem_tokens {s : Symbol} {token : Token} (h : token ∈ s.tokens)
    (hdeclaration : token.isDeclaration = true) : token = s.declarationToken := by
  rcases Symbol.mem_tokens_iff.1 h with rfl | ⟨p, -, rfl⟩
  · rfl
  · rw [Symbol.isDeclaration_ofSpan_usedBit] at hdeclaration
    exact absurd hdeclaration Bool.false_ne_true

theorem mem_tokens_of_mem_symbolList {s : Symbol} (hs : s ∈ (symbols text).symbolList)
    {token : Token} (h : token ∈ s.tokens) : token ∈ (symbols text).tokens :=
  mem_tokens_symbols_iff.2 (List.mem_flatMap.2 ⟨s, hs, h⟩)

/-- The tokens that cover the text of a symbol are its own. -/
theorem mem_tokens_of_isOf {s : Symbol} (hs : s ∈ (symbols text).symbolList) {token : Token}
    (h : token ∈ (symbols text).tokens) (hof : token.IsOf text s.category s.key) :
    token ∈ s.tokens := by
  obtain ⟨s', hs', hsymbol, ht⟩ := exists_symbol_of_mem_unsortedTokens (mem_tokens_symbols_iff.1 h)
  obtain ⟨hcategory, hkey⟩ := (isOf_iff_of_mem_tokens hsymbol ht).1 hof
  exact eq_of_mem_symbolList hs' hs hcategory hkey ▸ ht

/-- Each entry has one declaration token. -/
theorem existsUnique_declarationToken {category : TokenCategory} {key : String}
    (h : (symbols text).Has category key) : ∃! t, t ∈ (symbols text).tokens ∧
      t.IsOf text category key ∧ t.isDeclaration = true := by
  obtain ⟨s, hs, rfl, rfl⟩ := SymbolTable.has_iff.1 h
  have hmem : s.declarationToken ∈ s.tokens := Symbol.mem_tokens_iff.2 (Or.inl rfl)
  refine ⟨s.declarationToken, ⟨mem_tokens_of_mem_symbolList hs hmem, ?_,
    s.isDeclaration_declarationToken⟩, ?_⟩
  · exact (isOf_iff_of_mem_tokens (symbolOf_of_mem_symbolList hs) hmem).2 ⟨rfl, rfl⟩
  · rintro t ⟨ht, hof, hdeclaration⟩
    exact eq_declarationToken_of_mem_tokens (mem_tokens_of_isOf hs ht hof) hdeclaration

/-- The declaration token of a symbol tells whether there are other tokens of it. -/
theorem modifiers_declarationToken {s : Symbol} (hs : s ∈ (symbols text).symbolList) :
    (s.declarationToken.modifiers = declarationBit ||| usedBit ∧ ∃ t ∈ (symbols text).tokens,
      t.IsOf text s.category s.key ∧ t.isDeclaration = false) ∨
    (s.declarationToken.modifiers = declarationBit ||| unusedBit ∧ ∀ t ∈ (symbols text).tokens,
      t.IsOf text s.category s.key → t.isDeclaration = true) := by
  have hmodifiers : s.declarationToken.modifiers =
      declarationBit ||| if !s.references.isEmpty then usedBit else unusedBit := rfl
  cases hreferences : s.references with
  | nil =>
    rw [hreferences] at hmodifiers
    refine Or.inr ⟨hmodifiers, fun t ht hof => ?_⟩
    rcases Symbol.mem_tokens_iff.1 (mem_tokens_of_isOf hs ht hof) with rfl | ⟨p, hp, -⟩
    · exact s.isDeclaration_declarationToken
    · rw [hreferences] at hp
      exact absurd hp List.not_mem_nil
  | cons p rest =>
    rw [hreferences] at hmodifiers
    have hmem : Token.ofSpan s.category usedBit p ∈ s.tokens :=
      Symbol.mem_tokens_iff.2 (Or.inr ⟨p, hreferences ▸ List.mem_cons_self, rfl⟩)
    refine Or.inl ⟨hmodifiers, _, mem_tokens_of_mem_symbolList hs hmem, ?_,
      Symbol.isDeclaration_ofSpan_usedBit s.category p⟩
    exact (isOf_iff_of_mem_tokens (symbolOf_of_mem_symbolList hs) hmem).2 ⟨rfl, rfl⟩

theorem wellFormed_tokens (text : List Char) :
    Token.WellFormed text (symbols text) (symbols text).tokens := by
  have hsymbol : ∀ {t}, t ∈ (symbols text).tokens → ∃ s ∈ (symbols text).symbolList,
      SymbolOf text s ∧ t ∈ s.tokens := fun ht =>
    exists_symbol_of_mem_unsortedTokens (mem_tokens_symbols_iff.1 ht)
  have hlength : ∀ t ∈ (symbols text).tokens, 0 < t.length := by
    intro t ht
    obtain ⟨s, -, hs, hmem⟩ := hsymbol ht
    obtain ⟨-, -, word, hword, -⟩ := exists_wordAt_of_mem_tokens hs hmem
    have hlt : t.startColumn < t.startColumn + t.length := hword.start_lt_stop
    omega
  have hbefore : (symbols text).tokens.Pairwise fun a b => a.line < b.line ∨
      (a.line = b.line ∧ a.startColumn + a.length ≤ b.startColumn) := by
    rw [tokens_symbols]
    exact pairwise_sortedTokens text
  refine ⟨?_, ?_, hlength, fun t ht => ?_, fun category key => existsUnique_declarationToken,
    fun t ht hdeclaration key hof => ?_, fun t ht hreference => ?_, ?_⟩
  · refine hbefore.imp_of_mem fun {a b} ha _ h => h.imp_right fun h => ⟨h.1, ?_⟩
    have := hlength a ha
    omega
  · exact hbefore.imp fun {a b} h hline => by omega
  · obtain ⟨s, hs, hsymbol, hmem⟩ := hsymbol ht
    have hcategory := (exists_wordAt_of_mem_tokens hsymbol hmem).1
    refine ⟨s.key, SymbolTable.has_iff.2 ⟨s, hs, hcategory.symm, rfl⟩, ?_⟩
    exact (isOf_iff_of_mem_tokens hsymbol hmem).2 ⟨hcategory.symm, rfl⟩
  · obtain ⟨s, hs, hsymbol, hmem⟩ := hsymbol ht
    obtain ⟨hcategory, rfl⟩ := (isOf_iff_of_mem_tokens hsymbol hmem).1 hof
    rw [← hcategory, eq_declarationToken_of_mem_tokens hmem hdeclaration]
    exact modifiers_declarationToken hs
  · obtain ⟨s, -, -, hmem⟩ := hsymbol ht
    rcases Symbol.mem_tokens_iff.1 hmem with rfl | ⟨p, -, rfl⟩
    · rw [s.isDeclaration_declarationToken] at hreference
      exact absurd hreference.symm Bool.false_ne_true
    · rfl
  · rw [tokens_symbols, List.length_mergeSort, length_unsortedTokens]

end

/-- The tokens of an analysis are well formed, none of them is dropped as a repeat, and the
entries that they stand for are what the text declares and imports. -/
theorem tokens_well_formed (document text : String) :
    Token.WellFormed text.toList (symbols text.toList) (analyze document text).tokens ∧
      (analyze document text).tokens =
        (symbols text.toList).unsortedTokens.mergeSort (fun a b => (a.compare b).isLE) ∧
      ∀ category key, (symbols text.toList).Has category key ↔
        Introduced (events text.toList) category key :=
  ⟨wellFormed_tokens text.toList, tokens_symbols text.toList, fun _ _ => has_symbols_iff⟩

/-- A used declaration, its reference, and an unused declaration. -/
example : (symbols "let a = 1\nlet b = a".toList).unsortedTokens.map (·.modifiers) =
    [declarationBit ||| usedBit, usedBit, declarationBit ||| unusedBit] := by decide +kernel

end RazenLint
