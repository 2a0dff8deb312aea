import RazenLint.Proofs.Event.Reading
import RazenLint.Proofs.Text.Trim
import RazenLint.Symbol

/-!
# The words of a line

The words of a line are found by a scan, like the heads of calls. The words of a text
that ends in no word character do not depend on what follows it
(`occurrencesFrom_append`), and the words of a head are its library and its function
(`occurrencesFrom_written_append`).
-/

namespace RazenLint

open Text

/-- The same stretch further to the right. -/
def Span.advance (span : Span) (distance : Nat) : Span :=
  ⟨span.line, span.start + distance, span.stop + distance⟩

/-- The word that begins in a column, after the given character. -/
def occurrenceFrom (line column : Nat) (previous : Option Char) (cs : List Char) :
    Option Occurrence :=
  if boundaryAfter previous then
    match takeIdent? cs with
    | some (word, rest) =>
      if boundaryAfter rest.head? then
        some ⟨String.ofList word, ⟨line, column, column + word.length⟩, previous = some '.'⟩
      else none
    | none => none
  else none

theorem occurrencesFrom_eq_scanFrom (line : Nat) :
    ∀ (column : Nat) (previous : Option Char) (cs : List Char),
      occurrencesFrom line column previous cs = scanFrom (occurrenceFrom line) column previous cs
  | _, _, [] => rfl
  | column, previous, c :: cs => by
    rw [occurrencesFrom, scanFrom_cons,
      occurrencesFrom_eq_scanFrom line (column + 1) (some c) cs, occurrenceFrom]
    split
    · cases takeIdent? (c :: cs) with
      | none => rfl
      | some split =>
        dsimp only
        split <;> rfl
    · rfl

theorem occurrenceFrom_eq_some_iff {line column : Nat} {previous : Option Char} {cs : List Char}
    {o : Occurrence} : occurrenceFrom line column previous cs = some o ↔
      ∃ word rest, takeIdent? cs = some (word, rest) ∧ boundaryAfter previous = true ∧
        boundaryAfter rest.head? = true ∧
        o = ⟨String.ofList word, ⟨line, column, column + word.length⟩, previous = some '.'⟩ := by
  unfold occurrenceFrom
  constructor
  · intro h
    split at h
    · rename_i hboundary
      split at h
      · rename_i word rest htake
        split at h
        · rename_i hend
          exact ⟨word, rest, htake, hboundary, hend, (Option.some.inj h).symm⟩
        · exact absurd h (by simp)
      · exact absurd h (by simp)
    · exact absurd h (by simp)
  · rintro ⟨word, rest, htake, hboundary, hend, rfl⟩
    simp [htake, hboundary, hend]

theorem readsWords_occurrenceFrom (line : Nat) : ReadsWords (occurrenceFrom line) where
  boundary column previous cs h := by simp [occurrenceFrom, h]
  start column previous c cs h := by
    rw [occurrenceFrom, takeIdent?_eq_none_iff.2 (by simpa using h)]
    simp

/-- The words of a sealed text do not depend on what follows it. -/
theorem occurrencesFrom_append {pre : List Char} (hseal : boundaryAfter pre.getLast? = true)
    (line column : Nat) (previous : Option Char) (t : List Char) :
    occurrencesFrom line column previous (pre ++ t) = occurrencesFrom line column previous pre ++
      occurrencesFrom line (column + pre.length) (pre.getLast?.or previous) t := by
  simp only [occurrencesFrom_eq_scanFrom]
  refine scanFrom_append column previous fun column previous s hs hsuffix => ?_
  obtain ⟨front, hfront⟩ := hsuffix
  have hseal := boundaryAfter_suffix hseal hfront.symm hs
  rw [occurrenceFrom, occurrenceFrom, takeIdent?_append hs hseal]
  cases htake : takeIdent? s with
  | none => rfl
  | some split =>
    obtain ⟨word, rest⟩ := split
    rw [Option.map_some]
    dsimp only
    rw [List.head?_append_of_ne_nil rest (ne_nil_of_takeIdent? hseal htake)]

/-- The same text further to the right has its words further to the right. -/
theorem occurrencesFrom_add (line column distance : Nat) (previous : Option Char) (cs : List Char) :
    occurrencesFrom line (column + distance) previous cs =
      (occurrencesFrom line column previous cs).map fun o =>
        { o with span := o.span.advance distance } := by
  simp only [occurrencesFrom_eq_scanFrom]
  refine scanFrom_add (fun column previous cs => ?_) column previous cs
  unfold occurrenceFrom
  split
  · cases takeIdent? cs with
    | none => rfl
    | some split =>
      dsimp only
      split
      · simp [Span.advance, Nat.add_right_comm]
      · rfl
  · rfl

/-- The words of a head are its library and its function. -/
theorem occurrencesFrom_written_append {head : CallHead} {blanks : List Char}
    (hfits : head.Fits blanks) (hcloser : boundaryAfter (head.closer blanks).head? = true)
    {previous : Option Char} (hboundary : boundaryAfter previous = true) (line column : Nat)
    (rest : List Char) :
    occurrencesFrom line column previous (head.written blanks ++ rest) =
      ⟨String.ofList head.library, ⟨line, column, column + head.library.length⟩,
        previous = some '.'⟩ ::
      ⟨String.ofList head.function, ⟨line, column + head.functionOffset,
        column + head.functionOffset + head.function.length⟩, false⟩ ::
      occurrencesFrom line (column + (head.openingOffset + 1)) (some '(') rest := by
  have hopener : boundaryAfter (some (if head.legacy then '[' else ':')) = true := by
    cases head.legacy <;> decide
  have hlibrary : occurrenceFrom line column previous (head.written blanks ++ rest) =
      some ⟨String.ofList head.library, ⟨line, column, column + head.library.length⟩,
        previous = some '.'⟩ := by
    refine occurrenceFrom_eq_some_iff.2 ⟨head.library,
      head.opener ++ (head.function ++ (head.closer blanks ++ rest)), ?_, hboundary, ?_, rfl⟩
    · rw [CallHead.written_append]
      refine takeIdent?_eq_some_iff.2 ⟨rfl, hfits.library, ?_⟩
      unfold CallHead.opener
      split <;> rfl
    · unfold CallHead.opener
      split
      · exact (by decide : boundaryAfter (some '[') = true)
      · exact (by decide : boundaryAfter (some ':') = true)
  have hfunction : occurrenceFrom line (column + head.functionOffset)
      (some (if head.legacy then '[' else ':'))
      (head.function ++ (head.closer blanks ++ rest)) =
      some ⟨String.ofList head.function, ⟨line, column + head.functionOffset,
        column + head.functionOffset + head.function.length⟩, false⟩ := by
    refine occurrenceFrom_eq_some_iff.2 ⟨head.function, head.closer blanks ++ rest,
      hfits.takeIdent?_function rest, hopener, ?_, ?_⟩
    · obtain ⟨c, cs, hc⟩ := CallHead.exists_cons_closer head blanks
      rw [hc] at hcloser ⊢
      exact hcloser
    · cases head.legacy <;> rfl
  rw [occurrencesFrom_eq_scanFrom, (readsWords_occurrenceFrom line).scanFrom_written hfits,
    hlibrary, hfunction, occurrencesFrom_eq_scanFrom]
  rfl

/-- A word lies inside the text in which it is found. -/
theorem span_of_mem_occurrencesFrom {line column : Nat} {previous : Option Char} {cs : List Char}
    {o : Occurrence} (h : o ∈ occurrencesFrom line column previous cs) :
    o.span.line = line ∧ column ≤ o.span.start ∧ o.span.start < o.span.stop ∧
      o.span.stop ≤ column + cs.length := by
  rw [occurrencesFrom_eq_scanFrom] at h
  obtain ⟨front, back, rfl, -, hread⟩ := mem_scanFrom_iff.1 h
  obtain ⟨word, rest, htake, -, -, rfl⟩ := occurrenceFrom_eq_some_iff.1 hread
  obtain ⟨rfl, hident, -⟩ := takeIdent?_eq_some_iff.1 htake
  obtain ⟨c, cs, rfl, -⟩ := exists_cons_of_isIdent hident
  refine ⟨rfl, Nat.le_add_right _ _, ?_, ?_⟩ <;>
    simp only [List.length_append, List.length_cons] <;> omega

/-- The words of a line are those of its code. -/
theorem occurrencesOfLine_eq (index : Nat) (line : List Char) :
    occurrencesOfLine index line = occurrencesFrom index 0 none (code line) := by
  unfold occurrencesOfLine codeOrNothing
  split
  · rename_i hcomment
    have hplain : ∀ c ∈ code line, isIdentStart c = false := by
      intro c hc
      by_contra hstart
      rw [Bool.not_eq_false] at hstart
      have hblank := isBlank_of_mem_code hcomment hc
      rw [isBlank_of_isIdentStart hstart] at hblank
      exact absurd hblank (by simp)
    have hnone := (readsWords_occurrenceFrom index).scanFrom_plain hplain 0 none []
    rw [List.append_nil] at hnone
    rw [occurrencesFrom_eq_scanFrom, occurrencesFrom_eq_scanFrom, hnone]
    rfl
  · rfl

theorem occurrencesOfLines_append : ∀ (index : Nat) (before after : List (List Char)),
    occurrencesOfLines index (before ++ after) =
      occurrencesOfLines index before ++ occurrencesOfLines (index + before.length) after
  | index, [], after => by simp [occurrencesOfLines]
  | index, line :: before, after => by
    rw [List.cons_append, occurrencesOfLines, occurrencesOfLines,
      occurrencesOfLines_append (index + 1) before after, List.append_assoc, List.length_cons,
      show index + 1 + before.length = index + (before.length + 1) by omega]

/-! ## Words and statements -/

/-- A word begins in front of the blanks at the end of a line. -/
theorem start_lt_trimEnd {line column : Nat} {previous : Option Char} {cs : List Char}
    {o : Occurrence} (h : o ∈ occurrencesFrom line column previous cs) :
    o.span.start < column + (trimEnd cs).length := by
  rw [occurrencesFrom_eq_scanFrom] at h
  obtain ⟨front, back, rfl, -, hread⟩ := mem_scanFrom_iff.1 h
  obtain ⟨word, rest, htake, -, -, rfl⟩ := occurrenceFrom_eq_some_iff.1 hread
  obtain ⟨rfl, hident, -⟩ := takeIdent?_eq_some_iff.1 htake
  obtain ⟨c, cs, rfl, hc⟩ := exists_cons_of_isIdent hident
  have hlast : (front ++ [c]).getLast? = some c := List.getLast?_concat
  rw [List.cons_append, List.append_cons, trimEnd_append hlast (isBlank_of_isIdentStart hc)]
  simp only [List.length_append, List.length_singleton]
  omega

/-- A word stands on one of the lines. -/
theorem mem_occurrencesOfLines_iff {o : Occurrence} : ∀ {index : Nat} {lines : List (List Char)},
    o ∈ occurrencesOfLines index lines ↔
      ∃ i line, lines[i]? = some line ∧ o ∈ occurrencesOfLine (index + i) line
  | index, [] => by simp [occurrencesOfLines]
  | index, first :: rest => by
    rw [occurrencesOfLines, List.mem_append, mem_occurrencesOfLines_iff,
      exists_line_cons_iff (p := fun i line => o ∈ occurrencesOfLine i line)]

/-- A declaration among the events of a line is the one that its code begins with. -/
theorem statementSpan_of_mem_eventsOfLine {index : Nat} {line : List Char} {d : Declaration}
    (h : .declaration d ∈ eventsOfLine index line) :
    d.statementSpan.line = index ∧ d.statementSpan.stop = (trimEnd (code line)).length := by
  rcases of_mem_eventsOfLine h with ⟨a, -, hd⟩ | ⟨words, -, hd⟩ | ⟨column, head, bound, -, hd⟩
  · cases hd
    exact ⟨rfl, rfl⟩
  · cases hd
  · cases hd

/-- A word is past a declaring statement when it stands on a later line. -/
theorem isPast_statementSpan {text : List Char} {o : Occurrence} {d : Declaration}
    (ho : o ∈ occurrences text) (hd : .declaration d ∈ events text) :
    o.span.isPast d.statementSpan = decide (d.statementSpan.line < o.span.line) := by
  obtain ⟨i, line, hline, ho⟩ := mem_occurrencesOfLines_iff.1 ho
  obtain ⟨j, line', hline', hd⟩ := mem_eventsFrom_iff.1 hd
  obtain ⟨hdeclaration, hstop⟩ := statementSpan_of_mem_eventsOfLine hd
  rw [occurrencesOfLine_eq] at ho
  have hword := span_of_mem_occurrencesFrom ho
  have hstart := start_lt_trimEnd ho
  unfold Span.isPast
  by_cases hsame : i = j
  · -- on one line the statement ends behind the last word
    subst hsame
    rw [hline, Option.some.injEq] at hline'
    subst hline'
    have hnot : ¬d.statementSpan.stop ≤ o.span.start := by omega
    simp [hnot]
  · have hne : o.span.line ≠ d.statementSpan.line := by omega
    simp [hne]

end RazenLint
