import RazenLint.Proofs.Symbol.Occurrence

/-!
# Words in code

A word of a line of code is an identifier with no word character before or behind it
(`WordIn`). One word begins in a column (`WordIn.unique`), and no word begins inside another
one (`WordIn.le_of_lt`), so the words of a text are ordered : of two places either one ends
before the other begins or both are the same (`WordAt.before_or`).

`mem_occurrences_iff` : the scan of a text finds exactly its words, and it finds them in
this order (`pairwise_occurrences`). The names that events tell of are words as well
(`wordIn_name`, `wordIn_second`, `wordIn_head`).
-/

namespace RazenLint

open Text

/-! ## Words of a line -/

/-- The word stands in the column of a line of code. -/
def WordIn (code word : List Char) (column : Nat) : Prop :=
  ∃ front back, code = front ++ (word ++ back) ∧ front.length = column ∧ isIdent word = true ∧
    boundaryAfter front.getLast? = true ∧ boundaryAfter back.head? = true

/-- A point stands right before the column. -/
def PointBefore (code : List Char) (column : Nat) : Prop :=
  ∃ i, column = i + 1 ∧ code[i]? = some '.'

/-- An identifier with no word character behind it is read to its end. -/
theorem takeIdent?_of_boundary {word back : List Char} (hword : isIdent word = true)
    (hback : boundaryAfter back.head? = true) : takeIdent? (word ++ back) = some (word, back) := by
  refine takeIdent?_eq_some_iff.2 ⟨rfl, hword, ?_⟩
  cases back with
  | nil => rfl
  | cons c cs =>
    by_contra hrest
    have hword : isWord c = true := isWord_of_isIdentRest (by simpa using hrest)
    simp [boundaryAfter, hword] at hback

theorem wordIn_iff {code word : List Char} {column : Nat} : WordIn code word column ↔
    ∃ front back, code = front ++ back ∧ front.length = column ∧
      boundaryAfter front.getLast? = true ∧
      ∃ rest, takeIdent? back = some (word, rest) ∧ boundaryAfter rest.head? = true := by
  constructor
  · rintro ⟨front, back, rfl, rfl, hword, hfront, hback⟩
    exact ⟨front, word ++ back, rfl, rfl, hfront, back, takeIdent?_of_boundary hword hback, hback⟩
  · rintro ⟨front, back, rfl, rfl, hfront, rest, htake, hrest⟩
    obtain ⟨rfl, hword, -⟩ := takeIdent?_eq_some_iff.1 htake
    exact ⟨front, rest, rfl, rfl, hword, hfront, hrest⟩

namespace WordIn

variable {code word word' : List Char} {column column' : Nat}

theorem ne_nil (h : WordIn code word column) : word ≠ [] := by
  obtain ⟨-, -, -, -, hword, -⟩ := h
  obtain ⟨c, cs, rfl, -⟩ := exists_cons_of_isIdent hword
  exact List.cons_ne_nil c cs

/-- One word begins in a column. -/
theorem unique (h : WordIn code word column) (h' : WordIn code word' column) : word = word' := by
  obtain ⟨front, back, rfl, rfl, hword, -, hback⟩ := h
  obtain ⟨front', back', hcode, hlength, hword', -, hback'⟩ := h'
  obtain ⟨-, hrest⟩ := List.append_inj hcode hlength.symm
  have htake := takeIdent?_of_boundary hword hback
  rw [hrest, takeIdent?_of_boundary hword' hback', Option.some.injEq, Prod.mk.injEq] at htake
  exact htake.1.symm

/-- No word begins inside another one. -/
theorem le_of_lt (h : WordIn code word column) (h' : WordIn code word' column')
    (hlt : column < column') : column + word.length ≤ column' := by
  obtain ⟨front, back, rfl, rfl, hword, -, -⟩ := h
  obtain ⟨front', back', hcode, rfl, -, hboundary, -⟩ := h'
  by_contra hinside
  -- the character before the second word would be one of the first word
  have hlast : front'.getLast? = (front ++ (word ++ back))[front'.length - 1]? := by
    rw [hcode, List.getElem?_append_left (by omega), List.getLast?_eq_getElem?]
  rw [List.getElem?_append_right (by omega), List.getElem?_append_left (by omega),
    List.getElem?_eq_getElem (by omega)] at hlast
  obtain ⟨c, hc, hlast⟩ : ∃ c ∈ word, front'.getLast? = some c := ⟨_, List.getElem_mem _, hlast⟩
  rw [hlast, boundaryAfter, Option.any_some,
    isWord_of_isIdentRest (isIdentRest_of_mem_isIdent hword hc)] at hboundary
  exact absurd hboundary (by simp)

/-- A word of the code of a line stands in the line itself. -/
theorem exists_line {line : List Char} (h : WordIn (Text.code line) word column) :
    ∃ front back, line = front ++ (word ++ back) ∧ front.length = column := by
  obtain ⟨front, back, hcode, rfl, hword, -⟩ := h
  obtain ⟨c, cs, rfl, hc⟩ := exists_cons_of_isIdent hword
  have hspace : c ≠ ' ' := by
    rintro rfl
    exact absurd hc (by decide)
  obtain ⟨front', back', rfl, hmask, -⟩ := exists_line_of_code_eq hcode hspace
    fun d hd => isQuote_of_isIdentRest (isIdentRest_of_mem_isIdent hword hd)
  exact ⟨front', back', rfl, by rw [← hmask, length_mask]⟩

theorem isCommentLine_eq_false {line : List Char} (h : WordIn (Text.code line) word column) :
    isCommentLine line = false := by
  obtain ⟨front, back, hcode, -, hword, -⟩ := h
  obtain ⟨c, cs, rfl, hc⟩ := exists_cons_of_isIdent hword
  by_contra hcomment
  have hblank := isBlank_of_mem_code (by simpa using hcomment) (show c ∈ Text.code line by
    rw [hcode]
    simp)
  rw [isBlank_of_isIdentStart hc] at hblank
  exact absurd hblank (by simp)

end WordIn

/-- The scan of a line finds its words. -/
theorem mem_occurrencesFrom_iff {index : Nat} {code : List Char} {o : Occurrence} :
    o ∈ occurrencesFrom index 0 none code ↔ o.span.line = index ∧
      WordIn code o.word.toList o.span.start ∧
      o.span.stop = o.span.start + o.word.toList.length ∧
      (o.isMember = true ↔ PointBefore code o.span.start) := by
  have hpoint : ∀ {front back : List Char}, code = front ++ back →
      (front.getLast? = some '.' ↔ PointBefore code front.length) := by
    rintro front back rfl
    rw [List.getLast?_eq_getElem?, PointBefore]
    constructor
    · intro h
      have hlt := (List.getElem?_eq_some_iff.1 h).1
      exact ⟨front.length - 1, by omega, by rw [List.getElem?_append_left hlt, h]⟩
    · rintro ⟨i, hi, h⟩
      rwa [List.getElem?_append_left (by omega), show i = front.length - 1 by omega] at h
  rw [occurrencesFrom_eq_scanFrom, mem_scanFrom_iff]
  constructor
  · rintro ⟨front, back, hcode, -, hread⟩
    obtain ⟨word, rest, htake, hfront, hrest, rfl⟩ := occurrenceFrom_eq_some_iff.1 hread
    rw [Option.or_none] at hfront ⊢
    rw [Nat.zero_add, String.toList_ofList]
    exact ⟨rfl, wordIn_iff.2 ⟨front, back, hcode, rfl, hfront, rest, htake, hrest⟩, rfl,
      decide_eq_true_iff.trans (hpoint hcode)⟩
  · rintro ⟨rfl, hword, hstop, hmember⟩
    obtain ⟨front, back, hcode, hlength, hfront, rest, htake, hrest⟩ := wordIn_iff.1 hword
    refine ⟨front, back, hcode, ?_, occurrenceFrom_eq_some_iff.2
      ⟨o.word.toList, rest, htake, ?_, hrest, ?_⟩⟩
    · rintro rfl
      exact absurd htake (by simp [takeIdent?])
    · rwa [Option.or_none]
    · rw [← hlength] at hmember hstop
      obtain ⟨word, ⟨line, start, stop⟩, isMember⟩ := o
      have hdot : isMember = decide (front.getLast? = some '.') := by
        rw [Bool.eq_iff_iff, decide_eq_true_iff, hpoint hcode]
        exact hmember
      simp only at hstop hlength ⊢
      rw [hstop, ← hlength, Option.or_none, Nat.zero_add, hdot, String.ofList_toList]

/-! ## Words of a text -/

/-- Whether a stretch ends before another one begins. -/
def Span.Before (s t : Span) : Prop :=
  s.line < t.line ∨ (s.line = t.line ∧ s.stop ≤ t.start)

/-- The word stands at the span, in the code of a line that is no comment. -/
def WordAt (text : List Char) (word : String) (span : Span) : Prop :=
  ∃ line, (lines text)[span.line]? = some line ∧ isCommentLine line = false ∧
    WordIn (code line) word.toList span.start ∧ span.stop = span.start + word.toList.length

/-- A point stands right before the span. -/
def PointAt (text : List Char) (span : Span) : Prop :=
  ∃ line, (lines text)[span.line]? = some line ∧ PointBefore (code line) span.start

theorem Span.Before.ne {s t : Span} (h : s.Before t) (hs : s.start < s.stop) : s ≠ t := by
  rintro rfl
  rcases h with h | h <;> omega

namespace WordAt

variable {text : List Char} {word word' : String} {s s' : Span}

theorem start_lt_stop (h : WordAt text word s) : s.start < s.stop := by
  obtain ⟨line, -, -, hword, hstop⟩ := h
  have := List.length_pos_iff.2 hword.ne_nil
  omega

/-- One word stands at a place. -/
theorem unique (h : WordAt text word s) (h' : WordAt text word' s) : word = word' := by
  obtain ⟨line, hline, -, hword, -⟩ := h
  obtain ⟨line', hline', -, hword', -⟩ := h'
  rw [hline, Option.some.injEq] at hline'
  subst hline'
  exact String.toList_inj.1 (hword.unique hword')

/-- Of two words one ends before the other begins, or they stand in one place. -/
theorem before_or (h : WordAt text word s) (h' : WordAt text word' s') :
    s.Before s' ∨ s'.Before s ∨ s = s' := by
  obtain ⟨line, hline, -, hword, hstop⟩ := h
  obtain ⟨line', hline', -, hword', hstop'⟩ := h'
  rcases Nat.lt_trichotomy s.line s'.line with hlt | heq | hlt
  · exact Or.inl (Or.inl hlt)
  · rw [heq, hline', Option.some.injEq] at hline
    subst hline
    rcases Nat.lt_trichotomy s.start s'.start with hlt | hstart | hlt
    · have := hword.le_of_lt hword' hlt
      exact Or.inl (Or.inr ⟨heq, by omega⟩)
    · have hsame : word.toList = word'.toList := hword.unique (hstart ▸ hword')
      obtain ⟨l, a, b⟩ := s
      obtain ⟨l', a', b'⟩ := s'
      simp only at heq hstart hstop hstop'
      rw [hsame] at hstop
      exact Or.inr (Or.inr (by rw [heq, hstart, hstop, hstop', hstart]))
    · have := hword'.le_of_lt hword hlt
      exact Or.inr (Or.inl (Or.inr ⟨heq.symm, by omega⟩))
  · exact Or.inr (Or.inl (Or.inl hlt))

/-- The line holds the word at its place. -/
theorem exists_slice (h : WordAt text word s) : ∃ line, (lines text)[s.line]? = some line ∧
    s.stop ≤ line.length ∧ s.slice line = word.toList := by
  obtain ⟨line, hline, -, hword, hstop⟩ := h
  obtain ⟨front, back, rfl, hlength⟩ := hword.exists_line
  refine ⟨_, hline, ?_, ?_⟩
  · simp only [List.length_append]
    omega
  · rw [Span.slice, Span.length, hstop, ← hlength, List.drop_left, Nat.add_sub_cancel_left,
      List.take_left]

end WordAt

/-- The scan of a text finds exactly its words. -/
theorem mem_occurrences_iff {text : List Char} {o : Occurrence} : o ∈ occurrences text ↔
    WordAt text o.word o.span ∧ (o.isMember = true ↔ PointAt text o.span) := by
  rw [occurrences, mem_occurrencesOfLines_iff]
  simp only [Nat.zero_add, occurrencesOfLine_eq, mem_occurrencesFrom_iff]
  constructor
  · rintro ⟨i, line, hline, rfl, hword, hstop, hmember⟩
    refine ⟨⟨line, hline, hword.isCommentLine_eq_false, hword, hstop⟩, hmember.trans ?_⟩
    simp [PointAt, hline]
  · rintro ⟨⟨line, hline, -, hword, hstop⟩, hmember⟩
    refine ⟨o.span.line, line, hline, rfl, hword, hstop, hmember.trans ?_⟩
    simp [PointAt, hline]

theorem pairwise_occurrencesFrom (index : Nat) (code : List Char) :
    (occurrencesFrom index 0 none code).Pairwise fun o p => o.span.Before p.span := by
  have hcolumns : (occurrencesFrom index 0 none code).Pairwise
      fun o p => o.span.start < p.span.start := by
    rw [occurrencesFrom_eq_scanFrom]
    refine pairwise_scanFrom (fun h => ?_) 0 none code
    obtain ⟨word, rest, -, -, -, rfl⟩ := occurrenceFrom_eq_some_iff.1 h
    rfl
  refine hcolumns.imp_of_mem fun {o p} ho hp hlt => ?_
  obtain ⟨ho, hword, hstop, -⟩ := mem_occurrencesFrom_iff.1 ho
  obtain ⟨hp, hword', -⟩ := mem_occurrencesFrom_iff.1 hp
  exact Or.inr ⟨ho.trans hp.symm, hstop ▸ hword.le_of_lt hword' hlt⟩

theorem pairwise_occurrencesOfLines : ∀ (index : Nat) (lines : List (List Char)),
    (occurrencesOfLines index lines).Pairwise fun o p => o.span.Before p.span
  | _, [] => List.Pairwise.nil
  | index, line :: rest => by
    rw [occurrencesOfLines, List.pairwise_append, occurrencesOfLine_eq]
    refine ⟨pairwise_occurrencesFrom index (code line),
      pairwise_occurrencesOfLines (index + 1) rest, fun o ho p hp => Or.inl ?_⟩
    obtain ⟨i, line', -, hp⟩ := mem_occurrencesOfLines_iff.1 hp
    rw [occurrencesOfLine_eq] at hp
    have ho := (mem_occurrencesFrom_iff.1 ho).1
    have hp := (mem_occurrencesFrom_iff.1 hp).1
    omega

/-- The scan finds the words in text order. -/
theorem pairwise_occurrences (text : List Char) :
    (occurrences text).Pairwise fun o p => o.span.Before p.span :=
  pairwise_occurrencesOfLines 0 (lines text)

/-! ## Names in code -/

theorem boundaryAfter_of_not_word {c : Char} (h : isWord c = false) :
    boundaryAfter (some c) = true := by
  simp [boundaryAfter, h]

/-- A word behind blanks. -/
theorem boundaryAfter_of_blank {front blanks : List Char} (hblank : ∀ c ∈ blanks, isBlank c = true)
    (hne : blanks ≠ []) : boundaryAfter (front ++ blanks).getLast? = true := by
  obtain ⟨c, hc⟩ := Option.ne_none_iff_exists'.1 fun hnone =>
    hne (List.getLast?_eq_none_iff.1 hnone)
  rw [List.getLast?_append, hc]
  exact boundaryAfter_of_not_word (isWord_of_isBlank (hblank c (List.mem_of_getLast? hc)))

/-- A word in front of blanks, or of something that is no word either. -/
theorem boundaryAfter_blank_append {blanks rest : List Char}
    (hblank : ∀ c ∈ blanks, isBlank c = true) (hrest : boundaryAfter rest.head? = true) :
    boundaryAfter (blanks ++ rest).head? = true := by
  cases blanks with
  | nil => exact hrest
  | cons c cs => exact boundaryAfter_of_not_word (isWord_of_isBlank (hblank c List.mem_cons_self))

/-- The second of two words is one, when what follows it is no word. -/
theorem wordIn_second {code : List Char} {words : WordPair} (h : wordPair? code = some words)
    (hrest : boundaryAfter words.rest.head? = true) :
    WordIn code words.second words.secondColumn := by
  obtain ⟨indent, gap, after, hcode, -, hgap, hafter, -, hsecond, -, hcolumn, -, hne⟩ :=
    of_wordPair? h
  refine ⟨indent ++ (words.first ++ gap), after ++ words.rest, ?_, ?_, hsecond, ?_, ?_⟩
  · rw [hcode]
    simp
  · rw [hcolumn]
    simp only [List.length_append]
    omega
  · rw [← List.append_assoc]
    exact boundaryAfter_of_blank hgap hne
  · exact boundaryAfter_blank_append hafter hrest

/-- A declared name is a word. -/
theorem wordIn_name {code : List Char} {a : Assignment} (h : assignment? code = some a) :
    WordIn code a.name a.nameColumn := by
  obtain ⟨words, value, hwords, hrest, -, -, -, -, hname, hcolumn, -⟩ := of_assignment? h
  rw [hname, hcolumn]
  refine wordIn_second hwords ?_
  rw [hrest]
  exact boundaryAfter_of_not_word (by decide)

/-- An imported name is a word. -/
theorem wordIn_imported {code : List Char} {words : WordPair}
    (h : importWords? code = some words) : WordIn code words.second words.secondColumn := by
  obtain ⟨hwords, -, hrest⟩ := importWords?_eq_some_iff.1 h
  refine wordIn_second hwords ?_
  rcases hrest with hblank | ⟨tail, hrest, -⟩
  · have hend := boundaryAfter_blank_append hblank
      (show boundaryAfter ([] : List Char).head? = true from rfl)
    rwa [List.append_nil] at hend
  · rw [hrest]
    exact boundaryAfter_of_not_word (by decide)

/-- The library and the function of a head are words. -/
theorem wordIn_head {code : List Char} {column : Nat} {head : CallHead}
    (h : (column, head) ∈ callHeads code) : WordIn code head.library column ∧
      WordIn code head.function (column + head.functionOffset) := by
  obtain ⟨front, blanks, rest, rfl, rfl, hboundary, hfits⟩ := mem_callHeads_iff.1 h
  rw [CallHead.written_append]
  constructor
  · refine ⟨front, _, rfl, rfl, hfits.library, hboundary, ?_⟩
    unfold CallHead.opener
    split <;> exact boundaryAfter_of_not_word (by decide)
  · refine ⟨front ++ (head.library ++ head.opener), head.closer blanks ++ rest, by simp, ?_,
      hfits.function, ?_, ?_⟩
    · rw [List.length_append, List.length_append, CallHead.length_opener]
    · rw [← List.append_assoc, List.getLast?_append, CallHead.getLast?_opener]
      cases head.legacy <;> exact boundaryAfter_of_not_word (by decide)
    · obtain ⟨c, cs, hc⟩ := CallHead.exists_cons_closer head blanks
      rw [hc]
      refine boundaryAfter_of_not_word ?_
      rcases hfits.of_mem_closer (hc ▸ List.mem_cons_self) with hblank | rfl | rfl
      · exact isWord_of_isBlank hblank
      · decide
      · decide

end RazenLint
