import RazenLint.Proofs.Faithful
import RazenLint.Proofs.LiteralContents
import RazenLint.Proofs.Text.Outline

/-!
# How far the span of a declaration reaches

The statement of a declaration runs from the keyword to the last character in front of the
comment that is not blank (`statementEnd`). The span of the declaration is measured on the
masked line instead, where the contents of a literal are blank. A literal that is closed ends
in a quote, so both ends are one, unless the last character of the statement is held by a
literal that is never closed (`length_trimEnd_code_eq_iff`). Then the span ends behind the
quote that opens this literal (`quote_of_heldByLiteral`).

`coversStatement_iff` : the span of a declaration covers its statement, and with it the
initializer, exactly when no literal holds the last character of the statement.
-/

namespace RazenLint

open Text Reading

/-! ## The last character of a trimmed text -/

namespace Text

theorem isBlank_of_length_trimEnd_le {cs : List Char} {i : Nat} {c : Char}
    (h : (trimEnd cs).length ≤ i) (hc : cs[i]? = some c) : isBlank c = true := by
  by_contra hblank
  exact absurd (lt_length_trimEnd hc (by simpa using hblank)) (by omega)

theorem exists_last_trimEnd {cs : List Char} (h : 0 < (trimEnd cs).length) :
    ∃ c, cs[(trimEnd cs).length - 1]? = some c ∧ isBlank c = false := by
  obtain ⟨blanks, hcs, hblank⟩ := exists_trimEnd_append cs
  obtain ⟨c, hc⟩ : ∃ c, (trimEnd cs).getLast? = some c :=
    ⟨_, List.getLast?_eq_some_getLast (List.length_pos_iff.1 h)⟩
  refine ⟨c, ?_, isBlank_of_getLast?_trimEnd hc⟩
  rw [List.getLast?_eq_getElem?] at hc
  conv_lhs => rw [hcs]
  rw [trimEnd_append_of_blank hblank, trimEnd_trimEnd, List.getElem?_append_left (by omega), hc]

/-! ## Literals that are never closed -/

/-- What is shown as blanks opens and closes no literal. -/
theorem quote?_after_of_blank {reading : Reading} (hproper : reading.Proper) {cs : List Char}
    (h : ∀ c ∈ maskFrom reading cs, isBlank c = true) :
    (reading.after cs).quote? = reading.quote? := by
  rw [Reading.quote?_after hproper]
  refine foldl_nextQuote_of_blank (fun q hq => ?_) h
  cases reading with
  | code => cases hq
  | literal p => exact Option.some.inj hq ▸ hproper
  | escape p => exact Option.some.inj hq ▸ hproper

/-- What an open literal shows as a blank is held by it. -/
theorem hides_of_isBlank_shown {reading : Reading} (hproper : reading.Proper)
    (hopen : reading ≠ .code) {c : Char} (h : isBlank (shown reading c) = true) :
    reading.hides c = true := by
  cases reading with
  | code => exact absurd rfl hopen
  | literal q =>
    by_cases hc : c = q
    · rw [hc, shown_closing hproper] at h
      exact absurd (isQuote_of_isBlank h) (by simp [show isQuote q = true from hproper])
    · simp [Reading.hides, hc]
  | escape q => rfl

/-- A character that is shown and leaves a literal open has opened it. -/
theorem code_of_next_ne_code {reading : Reading} {c : Char} (hvisible : reading.hides c = false)
    (hopen : reading.next c ≠ .code) : reading = .code ∧ isQuote c = true := by
  cases reading with
  | code =>
    refine ⟨rfl, ?_⟩
    by_contra hc
    exact hopen (next_code (by simpa using hc))
  | literal q =>
    obtain ⟨hslash, rfl⟩ : c ≠ '\\' ∧ c = q := by simpa [Reading.hides] using hvisible
    exact absurd (by simp [Reading.next, hslash]) hopen
  | escape q => cases hvisible

end Text

/-! ## Where a statement ends -/

/-- The end of the statement on a line : the column behind the last character in front of the
comment that is not blank. -/
def statementEnd (line : List Char) : Nat :=
  (trimEnd (line.take (code line).length)).length

section

variable {line : List Char}

theorem heldByLiteral_eq_true_iff {column : Nat} : heldByLiteral line column = true ↔
    ∃ c, (line)[column]? = some c ∧ (Reading.code.after (line.take column)).hides c = true := by
  rw [heldByLiteral, Option.any_eq_true]

/-- What is not held by a literal is shown in the code. -/
theorem getElem?_code_of_visible {column : Nat} (hcolumn : column < (code line).length)
    (h : heldByLiteral line column = false) : (code line)[column]? = (line)[column]? := by
  rw [getElem?_code hcolumn]
  cases hc : (line)[column]? with
  | none => rfl
  | some c =>
    have hvisible : (Reading.code.after (line.take column)).hides c = false := by
      simpa [heldByLiteral, hc] using h
    simp [shown, hvisible]

/-- What is held by a literal is blank in the code. -/
theorem isBlank_of_heldByLiteral {column : Nat} (hcolumn : column < (code line).length)
    (h : heldByLiteral line column = true) {c : Char} (hc : (code line)[column]? = some c) :
    isBlank c = true := by
  obtain ⟨d, hd, hhides⟩ := heldByLiteral_eq_true_iff.1 h
  rw [getElem?_code hcolumn, hd, Option.map_some, shown, if_pos hhides, Option.some.injEq] at hc
  exact hc ▸ rfl

theorem statementEnd_le (line : List Char) : statementEnd line ≤ (code line).length :=
  ((trimEnd_sublist _).length_le).trans (List.length_take_le _ _)

/-- A character of the code that is not blank stands in the statement. -/
theorem lt_statementEnd {column : Nat} {c : Char} (h : (code line)[column]? = some c)
    (hc : isBlank c = false) : column < statementEnd line := by
  have hcolumn : column < (code line).length := (List.getElem?_eq_some_iff.1 h).1
  have hvisible : heldByLiteral line column = false := by
    by_contra hheld
    rw [isBlank_of_heldByLiteral hcolumn (by simpa using hheld) h] at hc
    exact absurd hc (by simp)
  rw [getElem?_code_of_visible hcolumn hvisible] at h
  exact lt_length_trimEnd (by rw [List.getElem?_take_of_lt hcolumn, h]) hc

theorem length_trimEnd_code_le (line : List Char) :
    (trimEnd (code line)).length ≤ statementEnd line := by
  rcases Nat.eq_zero_or_pos (trimEnd (code line)).length with hzero | hpos
  · omega
  · obtain ⟨c, hc, hblank⟩ := exists_last_trimEnd hpos
    have := lt_statementEnd hc hblank
    omega

/-- The code ends where the statement ends, unless a literal holds the last character of the
statement. -/
theorem length_trimEnd_code_eq_iff (hpos : 0 < statementEnd line) :
    (trimEnd (code line)).length = statementEnd line ↔
      heldByLiteral line (statementEnd line - 1) = false := by
  have hend := statementEnd_le line
  have hlt : statementEnd line - 1 < (code line).length := by omega
  constructor
  · intro h
    obtain ⟨c, hc, hblank⟩ :=
      exists_last_trimEnd (show 0 < (trimEnd (code line)).length by omega)
    by_contra hheld
    rw [h] at hc
    rw [isBlank_of_heldByLiteral hlt (by simpa using hheld) hc] at hblank
    exact absurd hblank (by simp)
  · intro hvisible
    obtain ⟨c, hc, hblank⟩ := exists_last_trimEnd hpos
    change (line.take _)[statementEnd line - 1]? = some c at hc
    rw [List.getElem?_take_of_lt hlt, ← getElem?_code_of_visible hlt hvisible] at hc
    have := lt_length_trimEnd hc hblank
    have := length_trimEnd_code_le line
    omega

/-- Behind the last character that the code shows, a line is read without a quote. -/
theorem quote?_after_take {column : Nat} (h : (trimEnd (code line)).length ≤ column)
    (hcolumn : column ≤ (code line).length) :
    (Reading.code.after (line.take column)).quote? =
      (Reading.code.after (line.take (trimEnd (code line)).length)).quote? := by
  obtain ⟨k, rfl⟩ := Nat.exists_eq_add_of_le h
  set m := (trimEnd (code line)).length
  rw [List.take_add, Reading.after_append]
  refine quote?_after_of_blank (Reading.proper_after_code _) fun c hc => ?_
  obtain ⟨j, hj⟩ := List.mem_iff_getElem?.1 hc
  have hjk : j < k := by
    have := (List.getElem?_eq_some_iff.1 hj).1
    rw [length_maskFrom, List.length_take] at this
    omega
  -- the character is the one that the code shows in the same column
  rw [getElem?_maskFrom, List.getElem?_take_of_lt hjk, List.getElem?_drop, ← Reading.after_append,
    List.take_take, Nat.min_eq_left hjk.le, ← List.take_add,
    ← getElem?_code (by omega)] at hj
  exact isBlank_of_length_trimEnd_le (Nat.le_add_right m j) hj

/-- A literal that holds the last character of a statement begins where the code ends : its
quote is the last character of the code, and it holds all that follows in the statement. -/
theorem quote_of_heldByLiteral (hpos : 0 < (trimEnd (code line)).length)
    (h : heldByLiteral line (statementEnd line - 1) = true) :
    (∃ quote, (line)[(trimEnd (code line)).length - 1]? = some quote ∧ isQuote quote = true ∧
      Reading.code.after (line.take ((trimEnd (code line)).length - 1)) = .code) ∧
    ∀ column, (trimEnd (code line)).length ≤ column → column < statementEnd line →
      heldByLiteral line column = true := by
  have hle := length_trimEnd_code_le line
  have hend := statementEnd_le line
  have hne : (trimEnd (code line)).length ≠ statementEnd line := by
    rw [ne_eq, length_trimEnd_code_eq_iff (by omega), h]
    simp
  -- a literal is open from the end of the code on
  have hopen : ∀ column, (trimEnd (code line)).length ≤ column → column < statementEnd line →
      Reading.code.after (line.take column) ≠ .code := by
    obtain ⟨c, -, hhides⟩ := heldByLiteral_eq_true_iff.1 h
    have hlast : Reading.code.after (line.take (statementEnd line - 1)) ≠ .code := by
      intro hcode
      rw [hcode] at hhides
      cases hhides
    intro column hcolumn hlt
    rw [ne_eq, ← quote?_eq_none_iff, quote?_after_take (by omega) (by omega)] at hlast ⊢
    exact hlast
  constructor
  · obtain ⟨c, hc, hblank⟩ := exists_last_trimEnd hpos
    have hlt : (trimEnd (code line)).length - 1 < (code line).length := by omega
    have hvisible : heldByLiteral line ((trimEnd (code line)).length - 1) = false := by
      by_contra hheld
      rw [isBlank_of_heldByLiteral hlt (by simpa using hheld) hc] at hblank
      exact absurd hblank (by simp)
    rw [getElem?_code_of_visible hlt hvisible] at hc
    have hnext : Reading.code.after (line.take (trimEnd (code line)).length) =
        (Reading.code.after (line.take ((trimEnd (code line)).length - 1))).next c := by
      obtain ⟨k, hk⟩ : ∃ k, (trimEnd (code line)).length = k + 1 :=
        ⟨_, (Nat.sub_add_cancel hpos).symm⟩
      rw [hk, Nat.add_sub_cancel] at hc ⊢
      rw [List.take_add_one, hc, Reading.after_append]
      rfl
    obtain ⟨hcode, hquote⟩ := code_of_next_ne_code (by simpa [heldByLiteral, hc] using hvisible)
      (hnext ▸ hopen _ le_rfl (by omega))
    exact ⟨c, hc, hquote, hcode⟩
  · intro column hcolumn hlt
    have hlength : column < (code line).length := by omega
    have hline := List.getElem?_eq_getElem (hlength.trans_le (length_code_le line))
    refine heldByLiteral_eq_true_iff.2 ⟨_, hline, ?_⟩
    refine hides_of_isBlank_shown (Reading.proper_after_code _) (hopen column hcolumn hlt) ?_
    exact isBlank_of_length_trimEnd_le hcolumn (by rw [getElem?_code hlength, hline]; rfl)

end

/-! ## The initializer stands in the statement -/

/-- The expression of a fragment begins behind blanks, and ends before the blanks at the end. -/
theorem exists_append_expressionOf (fragment : List Char) : ∃ front back,
    fragment = front ++ (expressionOf fragment ++ back) ∧
      (front ++ expressionOf fragment).length ≤ (trimEnd fragment).length := by
  by_cases hnil : expressionOf fragment = []
  · exact ⟨[], fragment, by simp [hnil], by simp [hnil]⟩
  obtain ⟨blanks, htrim, hblank⟩ := exists_trimEnd_append (trimStart fragment)
  obtain ⟨semicolon, hsemicolon⟩ : ∃ semicolon,
      trim fragment = dropSemicolon (trim fragment) ++ semicolon := by
    unfold dropSemicolon
    split
    · rename_i hlast
      exact ⟨[';'], (List.dropLast_append_getLast? _ hlast).symm⟩
    · exact ⟨[], by simp⟩
  obtain ⟨gap, hgap, -⟩ := exists_trimEnd_append (dropSemicolon (trim fragment))
  change _ = expressionOf fragment ++ gap at hgap
  have hkept : trim fragment = expressionOf fragment ++ (gap ++ semicolon) := by
    rw [← List.append_assoc, ← hgap, ← hsemicolon]
  have hstart : trimStart fragment = trim fragment ++ blanks := htrim
  refine ⟨fragment.takeWhile isBlank, gap ++ semicolon ++ blanks, ?_, ?_⟩
  · rw [← List.append_assoc (expressionOf fragment), ← hkept, ← hstart, takeWhile_append_trimStart]
  · -- the blanks at the end are behind the expression
    have hne : trim fragment ≠ [] := by
      intro h
      rw [h] at hkept
      exact hnil (List.append_eq_nil_iff.1 hkept.symm).1
    obtain ⟨c, hc⟩ : ∃ c, (trim fragment).getLast? = some c :=
      ⟨_, List.getLast?_eq_some_getLast hne⟩
    have hend : trimEnd fragment = fragment.takeWhile isBlank ++ trim fragment := by
      conv_lhs => rw [← takeWhile_append_trimStart fragment, hstart, ← List.append_assoc,
        trimEnd_append_of_blank hblank]
      refine trimEnd_of_getLast? fun d hd => ?_
      rw [List.getLast?_append_of_ne_nil _ hne] at hd
      exact isBlank_of_getLast?_trimEnd hd
    rw [hend, hkept]
    simp only [List.length_append]
    omega

/-- What the span of a declaration is to cover. It begins with the keyword and ends with the
statement, the initializer stands inside it, and what is found about the declaration is said
about all of it. -/
structure Declaration.CoversStatement (d : Declaration) (line : List Char) : Prop where
  start : ∃ front back, line = front ++ (d.keyword.toList ++ back) ∧
    front.length = d.statementSpan.start
  stop : d.statementSpan.stop = statementEnd line
  initializer : ∃ front back, line = front ++ (d.initializer.toList ++ back) ∧
    d.statementSpan.start ≤ front.length ∧
    front.length + d.initializer.toList.length ≤ d.statementSpan.stop
  findings : ∀ f ∈ d.findings, f.diagnostic.range = .ofSpan d.statementSpan

/-- The span ends behind the quote of a literal that is never closed and holds the rest of the
statement. -/
structure Declaration.EndsAtQuote (d : Declaration) (line : List Char) : Prop where
  quote : ∃ quote, (line)[d.statementSpan.stop - 1]? = some quote ∧ isQuote quote = true ∧
    Reading.code.after (line.take (d.statementSpan.stop - 1)) = .code
  short : d.statementSpan.stop < statementEnd line
  held : ∀ column, d.statementSpan.stop ≤ column → column < statementEnd line →
    heldByLiteral line column = true

section

variable {line : List Char} {index : Nat} {a : Assignment}

/-- The initializer stands in the statement, behind the equals sign. -/
theorem exists_append_initializer (index : Nat) (ha : assignment? (code line) = some a) :
    ∃ front back, line = front ++
        ((Declaration.ofAssignment index line a).initializer.toList ++ back) ∧
      a.valueColumn ≤ front.length ∧ front.length +
        (Declaration.ofAssignment index line a).initializer.toList.length ≤ statementEnd line := by
  obtain ⟨-, hname, hvalue⟩ := columns_of_assignment? ha
  have hlength := length_code_le line
  set fragment := between line a.valueColumn (code line).length with hfragment
  obtain ⟨front, back, hsplit, hend⟩ := exists_append_expressionOf fragment
  have hinitializer : (Declaration.ofAssignment index line a).initializer.toList =
      expressionOf fragment := by
    rw [Declaration.ofAssignment, String.toList_ofList]
    rfl
  have htake : line.take (code line).length = line.take a.valueColumn ++ fragment := by
    rw [hfragment, between, ← List.take_add, Nat.add_sub_cancel' hvalue]
  -- the equals sign is the last character in front of the value
  have hequals : (line.take a.valueColumn).getLast? = some '=' := by
    obtain ⟨pre, value, hcode, hpre, -⟩ := exists_of_assignment? ha
    obtain ⟨pre', rest, rfl, hmask, hrest⟩ := exists_append_of_codeFrom_eq hcode
    obtain ⟨-, back', rfl, -⟩ := eq_code_of_codeFrom_eq_cons (Reading.proper_after_code pre') hrest
      (by decide) (by decide)
    have : a.valueColumn = (pre' ++ ['=']).length := by
      rw [← hpre, ← hmask, length_maskFrom, List.length_append, List.length_singleton]
    rw [this, show pre' ++ '=' :: back' = (pre' ++ ['=']) ++ back' by simp, List.take_left,
      List.getLast?_concat]
  have hstatement : statementEnd line = a.valueColumn + (trimEnd fragment).length := by
    rw [statementEnd, htake, trimEnd_append hequals (by decide), List.length_append,
      List.length_take]
    omega
  rw [hinitializer]
  refine ⟨line.take a.valueColumn ++ front, back ++ line.drop (code line).length, ?_, ?_, ?_⟩
  · conv_lhs => rw [← List.take_append_drop (code line).length line, htake, hsplit]
    simp
  · simp only [List.length_append, List.length_take]
    omega
  · simp only [List.length_append, List.length_take] at hend ⊢
    omega

theorem Declaration.coversStatement_ofAssignment_iff (ha : assignment? (code line) = some a) :
    (ofAssignment index line a).CoversStatement line ↔
      (ofAssignment index line a).statementSpan.stop = statementEnd line := by
  refine ⟨fun h => h.stop, fun hstop => ⟨?_, hstop, ?_, fun f hf => ?_⟩⟩
  · obtain ⟨words, value, hwords, -, -, hkeyword, hcolumn, -⟩ := of_assignment? ha
    obtain ⟨indent, gap, back, hline, -, -, -, -, -, hcolumn', -⟩ := exists_line_of_wordPair? hwords
    refine ⟨indent, gap ++ (words.second ++ back), ?_, ?_⟩
    · rw [ofAssignment, String.toList_ofList, hkeyword, ← hline]
    · rw [ofAssignment, hcolumn, hcolumn']
  · obtain ⟨front, back, hline, hvalue, hend⟩ := exists_append_initializer index ha
    obtain ⟨hkeyword, hname, -⟩ := columns_of_assignment? ha
    refine ⟨front, back, hline, ?_, hstop ▸ hend⟩
    simp only [ofAssignment]
    omega
  · rw [Finding.diagnostic, span_of_mem_findings hf]

end

/-- The span of a declaration covers its statement, with all of the initializer, unless the
last character of the statement is held by a literal, which then is never closed. In that
case the span ends behind the quote that opens the literal. -/
theorem coversStatement_iff {text line : List Char} {d : Declaration}
    (hd : .declaration d ∈ events text)
    (hline : (lines text)[d.statementSpan.line]? = some line) :
    (d.CoversStatement line ↔ heldByLiteral line (statementEnd line - 1) = false) ∧
      (heldByLiteral line (statementEnd line - 1) = true → d.EndsAtQuote line) := by
  obtain ⟨i, line', hline', he⟩ := mem_eventsFrom_iff.1 hd
  rw [Nat.zero_add] at he
  rcases of_mem_eventsOfLine he with ⟨a, ha, hd⟩ | ⟨words, -, hd⟩ | ⟨column, head, bound, -, hd⟩
  · cases hd
    obtain rfl : line' = line := Option.some.inj (hline'.symm.trans hline)
    have hstop : (Declaration.ofAssignment i line' a).statementSpan.stop =
        (trimEnd (code line')).length := rfl
    have hpos : 0 < (trimEnd (code line')).length :=
      Nat.zero_lt_of_lt (Declaration.faithful_ofAssignment i ha).statementSpan.nonempty
    have hle := length_trimEnd_code_le line'
    have hiff := length_trimEnd_code_eq_iff (show 0 < statementEnd line' by omega)
    refine ⟨(Declaration.coversStatement_ofAssignment_iff ha).trans hiff, fun hheld => ?_⟩
    obtain ⟨hquote, hrest⟩ := quote_of_heldByLiteral hpos hheld
    refine ⟨hquote, lt_of_le_of_ne hle fun heq => ?_, hrest⟩
    rw [hiff.1 heq] at hheld
    cases hheld
  · cases hd
  · cases hd

/-- A literal with an escaped quote, in front of a comment. -/
theorem coversStatement_iff_closed :
    Declaration.CoversStatement
      ⟨"take", .textual, "x", ⟨0, 5, 6⟩, ⟨0, 0, 16⟩, "\"a\\\"#\"", none⟩
      "take x = \"a\\\"#\"; # end".toList :=
  (coversStatement_iff
    (show .declaration _ ∈ events "take x = \"a\\\"#\"; # end".toList by decide +kernel)
    (by decide +kernel)).1.2 (by decide +kernel)

/-- A comparison with a literal that is never closed : the span ends behind its quote. -/
theorem exists_not_coversStatement :
    ¬∀ (text line : List Char) (d : Declaration), .declaration d ∈ events text →
      (lines text)[d.statementSpan.line]? = some line → d.CoversStatement line :=
  fun h => absurd (h "let x = a == \"abc".toList "let x = a == \"abc".toList
    ⟨"let", .numeric, "x", ⟨0, 4, 5⟩, ⟨0, 0, 14⟩, "a == \"abc", none⟩ (by decide +kernel)
    (by decide +kernel)).stop (by decide +kernel)

end RazenLint
