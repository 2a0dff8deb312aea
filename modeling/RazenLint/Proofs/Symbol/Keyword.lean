import RazenLint.Proofs.Event.Keyword
import RazenLint.Proofs.Symbol.Redeclaration

/-!
# Keywords among the uses of a variable

The keyword of a statement is the first word of its line (`KeywordAt`). It is a word of the
code (`KeywordAt.wordAt`) with no point in front of it (`KeywordAt.not_pointAt`), and every
name that an event tells of on the line stands behind it (`firstColumn_lt_of_mem_nameSpans`).
So nothing keeps the scan for words from taking the keyword for a use : a keyword is a use of
a variable exactly when the variable has the keyword for its name and was declared on an
earlier line (`keyword_mem_references_iff`).
-/

namespace RazenLint

open Text

/-! ## The first word of a line -/

/-- The first of two words is one. -/
theorem wordIn_first {code : List Char} {words : WordPair} (h : wordPair? code = some words) :
    WordIn code words.first words.firstColumn := by
  obtain ⟨indent, gap, after, hcode, hindent, hgap, -, hfirst, -, hcolumn, -, -, hne⟩ :=
    of_wordPair? h
  refine ⟨indent, gap ++ (words.second ++ (after ++ words.rest)), hcode, hcolumn.symm, hfirst,
    ?_, ?_⟩
  · rcases List.eq_nil_or_concat indent with rfl | ⟨blanks, c, rfl⟩
    · rfl
    · exact @boundaryAfter_of_blank [] _ hindent (by simp)
  · obtain ⟨c, cs, rfl⟩ := List.exists_cons_of_ne_nil hne
    exact boundaryAfter_of_not_word (isWord_of_isBlank (hgap c List.mem_cons_self))

/-- Only blanks stand in front of the first word. -/
theorem not_pointBefore_first {code : List Char} {words : WordPair}
    (h : wordPair? code = some words) : ¬PointBefore code words.firstColumn := by
  obtain ⟨indent, gap, after, hcode, hindent, -, -, -, -, hcolumn, -⟩ := of_wordPair? h
  rintro ⟨i, hi, hpoint⟩
  rw [hcolumn] at hi
  rw [hcode, List.getElem?_append_left (by omega)] at hpoint
  exact absurd (hindent _ (List.mem_of_getElem? hpoint)) (by decide)

/-- The blanks in front of the first word are those in front of the line. -/
theorem firstColumn_eq {line : List Char} {words : WordPair}
    (h : wordPair? (code line) = some words) :
    words.firstColumn = (line.takeWhile isBlank).length := by
  obtain ⟨indent, gap, after, hcode, hindent, -, -, hfirst, -, hcolumn, -⟩ := of_wordPair? h
  obtain ⟨c, cs, hcs, hc⟩ := exists_cons_of_isIdent hfirst
  obtain ⟨rest, hline, hrest⟩ := exists_append_of_codeFrom_eq_plain
    (fun d hd => isQuote_of_isBlank (hindent d hd)) hcode
  rw [hcs, List.cons_append] at hrest
  obtain ⟨-, back, rfl, -⟩ := eq_code_of_codeFrom_eq_cons (show Reading.code.Proper from trivial)
    hrest (by rintro rfl; exact absurd hc (by decide))
    (isQuote_of_isIdentRest (isIdentRest_of_isIdentStart hc))
  rw [hcolumn, hline, List.takeWhile_append_of_pos hindent]
  simp [isBlank_of_isIdentStart hc]

/-- The names of a statement stand behind its keyword, and so do the heads on its line. -/
theorem firstColumn_lt_of_mem_nameSpans {index : Nat} {line : List Char} {words : WordPair}
    (hwords : wordPair? (code line) = some words)
    (hstatement : (assignment? (code line)).isSome ∨ (importWords? (code line)).isSome) {e : Event}
    (he : e ∈ eventsOfLine index line) {s : Span} (hs : s ∈ e.nameSpans) :
    words.firstColumn < s.start := by
  rcases of_mem_eventsOfLine he with ⟨a, ha, rfl⟩ | ⟨words', hwords', rfl⟩ |
    ⟨column, head, bound, hhead, rfl⟩
  · obtain ⟨words', -, hwords', -, -, -, hcolumn, -⟩ := of_assignment? ha
    obtain rfl : words = words' := Option.some.inj (hwords.symm.trans hwords')
    rw [List.mem_singleton.1 hs, ← hcolumn]
    exact (columns_of_assignment? ha).1
  · obtain ⟨hwords', -⟩ := importWords?_eq_some_iff.1 hwords'
    obtain rfl : words = words' := Option.some.inj (hwords.symm.trans hwords')
    obtain ⟨indent, gap, -, -, -, -, -, -, -, hfirst, hsecond, -, hne⟩ := of_wordPair? hwords
    have hgap := List.length_pos_iff.2 hne
    rw [List.mem_singleton.1 hs]
    simp only [Import.ofWords]
    omega
  · rcases hstatement with hstatement | hstatement
    · obtain ⟨a, ha⟩ := Option.isSome_iff_exists.1 hstatement
      obtain ⟨words', -, hwords', -, -, -, hcolumn, -⟩ := of_assignment? ha
      obtain rfl : words = words' := Option.some.inj (hwords.symm.trans hwords')
      have hvalue := valueColumn_le_of_mem_callHeads ha hhead
      have hname := columns_of_assignment? ha
      have hstart := (of_mem_nameSpans_ofHead hs).2.1
      omega
    · obtain ⟨words', hwords'⟩ := Option.isSome_iff_exists.1 hstatement
      rw [callHeads_of_importWords? hwords'] at hhead
      exact absurd hhead List.not_mem_nil

/-! ## Keywords of statements -/

/-- The keyword of a declaration or of an import stands at the span. -/
inductive KeywordAt (text : List Char) : String → Span → Prop where
  | declaration {d : Declaration} (h : .declaration d ∈ events text) :
    KeywordAt text d.keyword d.keywordSpan
  /-- An import begins its line. -/
  | imported {i : Import} (h : .imported i ∈ events text) {line : List Char}
      (hline : (lines text)[i.span.line]? = some line) :
    KeywordAt text i.keyword ⟨i.span.line, (line.takeWhile isBlank).length,
      (line.takeWhile isBlank).length + i.keyword.toList.length⟩

/-- The keyword is the first word of a line that is a statement. -/
structure FirstWordAt (text : List Char) (keyword : String) (s : Span) (line : List Char)
    (words : WordPair) : Prop where
  onLine : (lines text)[s.line]? = some line
  begins : wordPair? (code line) = some words
  statement : (assignment? (code line)).isSome ∨ (importWords? (code line)).isSome
  isFirst : keyword = String.ofList words.first
  isKeyword : keyword ∈ declarationKeywords.map (·.1) ++ importKeywords
  start : s.start = words.firstColumn
  stop : s.stop = s.start + words.first.length

namespace KeywordAt

variable {text : List Char} {keyword : String} {s : Span}

theorem exists_firstWordAt (h : KeywordAt text keyword s) :
    ∃ line words, FirstWordAt text keyword s line words := by
  cases h with
  | @declaration d h =>
    obtain ⟨i, line, hline, he⟩ := mem_eventsFrom_iff.1 h
    rw [Nat.zero_add] at he
    rcases of_mem_eventsOfLine he with ⟨a, ha, hd⟩ | ⟨words, -, hd⟩ | ⟨column, head, bound, -, hd⟩
    · cases hd
      obtain ⟨words, -, hwords, -, -, hkeyword, hcolumn, hkind, -⟩ := of_assignment? ha
      refine ⟨line, words, hline, hwords, Or.inl (by rw [ha]; rfl), ?_, ?_, hcolumn, ?_⟩
      · simp only [Declaration.ofAssignment, hkeyword]
      · simp only [Declaration.ofAssignment, hkeyword]
        exact List.mem_append_left _ (mem_keywords_of_ofKeyword? hkind)
      · simp only [Declaration.keywordSpan, Declaration.ofAssignment, hkeyword,
          String.toList_ofList]
    · cases hd
    · cases hd
  | @imported i h line hline =>
    obtain ⟨j, line', hline', he⟩ := mem_eventsFrom_iff.1 h
    rw [Nat.zero_add] at he
    rcases of_mem_eventsOfLine he with ⟨a, -, hi⟩ | ⟨words, hwords, hi⟩ |
      ⟨column, head, bound, -, hi⟩
    · cases hi
    · cases hi
      obtain rfl : line' = line := Option.some.inj (hline'.symm.trans hline)
      obtain ⟨hpair, hkeyword, -⟩ := importWords?_eq_some_iff.1 hwords
      refine ⟨line', words, hline', hpair, Or.inr (by rw [hwords]; rfl), rfl,
        List.mem_append_right _ hkeyword, (firstColumn_eq hpair).symm, ?_⟩
      simp only [Import.ofWords, String.toList_ofList]
    · cases hi

theorem wordAt (h : KeywordAt text keyword s) : WordAt text keyword s := by
  obtain ⟨line, words, hfirst⟩ := h.exists_firstWordAt
  have hword := wordIn_first hfirst.begins
  refine ⟨line, hfirst.onLine, hword.isCommentLine_eq_false, ?_, ?_⟩
  · rw [hfirst.isFirst, String.toList_ofList, hfirst.start]
    exact hword
  · rw [hfirst.isFirst, String.toList_ofList, hfirst.stop]

theorem not_pointAt (h : KeywordAt text keyword s) : ¬PointAt text s := by
  obtain ⟨line, words, hfirst⟩ := h.exists_firstWordAt
  rintro ⟨line', hline', hpoint⟩
  obtain rfl : line = line' := Option.some.inj (hfirst.onLine.symm.trans hline')
  rw [hfirst.start] at hpoint
  exact not_pointBefore_first hfirst.begins hpoint

/-- No event tells of a name where a keyword stands. -/
theorem not_namedAt (h : KeywordAt text keyword s) : ¬NamedAt (events text) s := by
  obtain ⟨line, words, hfirst⟩ := h.exists_firstWordAt
  rw [← mem_sites_iff, List.mem_flatMap]
  rintro ⟨e, he, hs⟩
  obtain ⟨i, line', hline', he⟩ := mem_eventsFrom_iff.1 he
  rw [Nat.zero_add] at he
  have hs := Event.mem_nameSpans_of_mem_sites hs
  have hi := line_of_mem_nameSpans he hs
  obtain rfl : line = line' := by
    rw [← hi, hfirst.onLine] at hline'
    exact Option.some.inj hline'
  have hlt := firstColumn_lt_of_mem_nameSpans hfirst.begins hfirst.statement he hs
  rw [hfirst.start] at hlt
  exact absurd hlt (lt_irrefl _)

/-- No keyword is the name of a library. -/
theorem notLibrary (h : KeywordAt text keyword s) : asciiLower keyword ∉ libraryNames := by
  obtain ⟨line, words, hfirst⟩ := h.exists_firstWordAt
  exact (show ∀ k ∈ declarationKeywords.map (·.1) ++ importKeywords,
    asciiLower k ∉ libraryNames by decide +kernel) keyword hfirst.isKeyword

end KeywordAt

/-- The keyword of a statement is a use of a variable exactly when the variable has this
name and was declared on an earlier line : none of the places that are no uses is the place
of a keyword. -/
theorem keyword_mem_references_iff {text : List Char} {keyword name : String} {s : Span}
    {v : Variable} (hkeyword : KeywordAt text keyword s)
    (hv : (symbols text).findVariable? name = some v) :
    s ∈ v.references ↔ name = keyword ∧ v.statement.line < s.line := by
  obtain ⟨d, hlast, rfl, rfl⟩ := findVariable?_symbols_iff.1 hv
  have hword := hkeyword.wordAt
  have hpast : d.statementSpan.Before s ↔ d.statementSpan.line < s.line := by
    have ho : (⟨keyword, s, false⟩ : Occurrence) ∈ occurrences text :=
      mem_occurrences_iff.2 ⟨hword, iff_of_false Bool.false_ne_true hkeyword.not_pointAt⟩
    rw [← Span.isPast_iff, isPast_statementSpan ho (of_lastDeclaration hlast), decide_eq_true_iff]
  rw [(tells_variableOf text d).mem_references]
  constructor
  · intro huse
    exact ⟨huse.word.unique hword, hpast.1 huse.past⟩
  · rintro ⟨rfl, hline⟩
    exact ⟨hword, hpast.2 hline, hkeyword.not_pointAt, hkeyword.not_namedAt, hkeyword.notLibrary⟩

/-- A variable with the name of a keyword, and a later declaration with that keyword. -/
def keywordNamed : List Char :=
  "let sum = 1\nsum total = 2".toList

theorem keywordAt_keywordNamed : KeywordAt keywordNamed "sum" ⟨1, 0, 3⟩ :=
  .declaration (d := ⟨"sum", .sum, "total", ⟨1, 4, 9⟩, ⟨1, 0, 13⟩, "2", none⟩)
    (by decide +kernel)

theorem keyword_mem_references_iff_keywordNamed :
    ∃ v, (symbols keywordNamed).findVariable? "sum" = some v ∧
      KeywordAt keywordNamed "sum" ⟨1, 0, 3⟩ ∧ ⟨1, 0, 3⟩ ∈ v.references :=
  ⟨⟨⟨0, 4, 7⟩, ⟨0, 0, 11⟩, .numeric, [⟨1, 0, 3⟩]⟩, by decide +kernel, keywordAt_keywordNamed,
    (keyword_mem_references_iff keywordAt_keywordNamed (by decide +kernel)).2
      ⟨rfl, by decide⟩⟩

/-- So keywords can be uses of variables : a later statement with the keyword `sum` marks the
variable of this name. -/
theorem exists_keyword_mem_references :
    ¬∀ (text : List Char) (keyword name : String) (s : Span) (v : Variable),
      KeywordAt text keyword s → (symbols text).findVariable? name = some v →
        s ∉ v.references :=
  fun h => h keywordNamed "sum" "sum" ⟨1, 0, 3⟩
    ⟨⟨0, 4, 7⟩, ⟨0, 0, 11⟩, .numeric, [⟨1, 0, 3⟩]⟩ keywordAt_keywordNamed (by decide +kernel)
    List.mem_cons_self

end RazenLint
