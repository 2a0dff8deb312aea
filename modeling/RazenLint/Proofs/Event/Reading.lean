import RazenLint.Proofs.Event.Statement
import RazenLint.Proofs.Text.Literal

/-!
# The events of lines

The events of a line come from its code and from what the line itself holds between
the columns of the code (`eventsOfLine_eq`). A comment line needs no case of its own,
since its code is blank. The events of lines are those of the first ones and then
those of the others (`eventsFrom_append`). The value of a declaration is read as code
from its first column on (`exists_append_of_assignment?`), so its masked form is the
rest of the code (`mask_between`).
-/

namespace RazenLint

open Text

/-! ## Blank code says nothing -/

theorem wordPair?_of_blank {code : List Char} (h : ∀ c ∈ code, isBlank c = true) :
    wordPair? code = none := by
  rw [wordPair?, trimStart_eq_nil_iff.2 h]
  rfl

theorem callHeads_of_blank {code : List Char} (h : ∀ c ∈ code, isBlank c = true) :
    callHeads code = [] :=
  callHeads_of_notMem (paren_notMem_of_blank h)

/-- The events of a line, by what its code begins with. -/
theorem eventsOfLine_eq (index : Nat) (line : List Char) : eventsOfLine index line =
    match assignment? (code line) with
    | some assignment =>
      .declaration (.ofAssignment index line assignment) ::
        (callsOfLine index line ((assignment.head? (code line)).map (·.1))).map .call
    | none =>
      (importWords? (code line)).toList.map (fun words => .imported (.ofWords index words)) ++
        (callsOfLine index line none).map .call := by
  unfold eventsOfLine
  split
  · rename_i hcomment
    have hblank : ∀ c ∈ code line, isBlank c = true := fun c => isBlank_of_mem_code hcomment
    have hassignment : assignment? (code line) = none := by
      rw [assignment?, wordPair?_of_blank hblank]
      rfl
    have himport : importWords? (code line) = none := by
      rw [importWords?, wordPair?_of_blank hblank]
      rfl
    rw [hassignment, himport, callsOfLine, callHeads_of_blank hblank]
    rfl
  · rfl

/-- An event of a line is the declaration that its code begins with, the import that it is,
or the call of one of its heads. -/
theorem of_mem_eventsOfLine {index : Nat} {line : List Char} {e : Event}
    (h : e ∈ eventsOfLine index line) :
    (∃ a, assignment? (code line) = some a ∧ e = .declaration (.ofAssignment index line a)) ∨
    (∃ words, importWords? (code line) = some words ∧ e = .imported (.ofWords index words)) ∨
    ∃ column head bound, (column, head) ∈ callHeads (code line) ∧
      e = .call (.ofHead index line bound column head) := by
  have hcalls : ∀ bound, e ∈ (callsOfLine index line bound).map Event.call →
      ∃ column head bound, (column, head) ∈ callHeads (code line) ∧
        e = .call (.ofHead index line bound column head) := by
    intro bound h
    obtain ⟨c, hc, rfl⟩ := List.mem_map.1 h
    obtain ⟨p, hp, rfl⟩ := List.mem_map.1 hc
    exact ⟨p.1, p.2, _, hp, rfl⟩
  rw [eventsOfLine_eq] at h
  split at h
  · rename_i a ha
    rcases List.mem_cons.1 h with h | h
    · exact Or.inl ⟨a, ha, h⟩
    · exact Or.inr (Or.inr (hcalls _ h))
  · rcases List.mem_append.1 h with h | h
    · obtain ⟨words, hwords, rfl⟩ := List.mem_map.1 h
      exact Or.inr (Or.inl ⟨words, Option.mem_toList.1 hwords, rfl⟩)
    · exact Or.inr (Or.inr (hcalls _ h))

/-- A call of a line is that of a head. -/
theorem exists_head_of_mem_eventsOfLine {index : Nat} {line : List Char} {c : LibraryCall}
    (h : .call c ∈ eventsOfLine index line) : ∃ column head bound,
      (column, head) ∈ callHeads (code line) ∧ c = .ofHead index line bound column head := by
  rcases of_mem_eventsOfLine h with ⟨a, -, hc⟩ | ⟨words, -, hc⟩ | ⟨column, head, bound, hhead, hc⟩
  · cases hc
  · cases hc
  · exact ⟨column, head, bound, hhead, Event.call.inj hc⟩

/-- The calls of a line are those of its heads. -/
theorem exists_mem_eventsOfLine (index : Nat) {column : Nat} {line : List Char} {head : CallHead}
    (h : (column, head) ∈ callHeads (code line)) :
    ∃ bound, .call (.ofHead index line bound column head) ∈ eventsOfLine index line := by
  have hcalls : ∀ boundColumn, .call (.ofHead index line (boundColumn = some column) column head) ∈
      (callsOfLine index line boundColumn).map Event.call :=
    fun boundColumn => List.mem_map_of_mem (List.mem_map.2 ⟨(column, head), h, rfl⟩)
  rw [eventsOfLine_eq]
  split
  · exact ⟨_, List.mem_cons_of_mem _ (hcalls _)⟩
  · exact ⟨_, List.mem_append_right _ (hcalls _)⟩

/-! ## Lines one after the other -/

theorem eventsFrom_append : ∀ (index : Nat) (before after : List (List Char)),
    eventsFrom index (before ++ after) =
      eventsFrom index before ++ eventsFrom (index + before.length) after
  | index, [], after => by simp [eventsFrom]
  | index, line :: before, after => by
    rw [List.cons_append, eventsFrom, eventsFrom, eventsFrom_append (index + 1) before after,
      List.append_assoc, List.length_cons,
      show index + 1 + before.length = index + (before.length + 1) by omega]

/-- A line with a property is the first one, or it is one of the others, which are counted from
the next index on. -/
theorem exists_line_cons_iff {p : Nat → List Char → Prop} {index : Nat} {first : List Char}
    {rest : List (List Char)} :
    (∃ i line, (first :: rest)[i]? = some line ∧ p (index + i) line) ↔
      p index first ∨ ∃ i line, rest[i]? = some line ∧ p (index + 1 + i) line := by
  constructor
  · rintro ⟨i, line, hline, h⟩
    cases i with
    | zero =>
      rw [List.getElem?_cons_zero, Option.some.injEq] at hline
      exact Or.inl (hline ▸ h)
    | succ i =>
      exact Or.inr ⟨i, line, hline, by rwa [show index + 1 + i = index + (i + 1) by omega]⟩
  · rintro (h | ⟨i, line, hline, h⟩)
    · exact ⟨0, first, rfl, h⟩
    · exact ⟨i + 1, line, hline, by rwa [show index + (i + 1) = index + 1 + i by omega]⟩

/-- An event stands on one of the lines. -/
theorem mem_eventsFrom_iff {e : Event} : ∀ {index : Nat} {lines : List (List Char)},
    e ∈ eventsFrom index lines ↔
      ∃ i line, lines[i]? = some line ∧ e ∈ eventsOfLine (index + i) line
  | index, [] => by simp [eventsFrom]
  | index, first :: rest => by
    rw [eventsFrom, List.mem_append, mem_eventsFrom_iff,
      exists_line_cons_iff (p := fun i line => e ∈ eventsOfLine i line)]

/-! ## The words of a line -/

/-- The two words that the code of a line begins with stand in the line itself. -/
theorem exists_line_of_wordPair? {line : List Char} {words : WordPair}
    (h : wordPair? (code line) = some words) :
    ∃ indent gap back, line = indent ++ (words.first ++ (gap ++ (words.second ++ back))) ∧
      (∀ c ∈ indent, isBlank c = true) ∧ (∀ c ∈ gap, isBlank c = true) ∧ gap ≠ [] ∧
      isIdent words.first = true ∧ isIdent words.second = true ∧
      words.firstColumn = indent.length ∧
      words.secondColumn = (indent ++ (words.first ++ gap)).length := by
  obtain ⟨indent, gap, after, hcode, hindent, hgap, -, hfirst, hsecond, hfirstColumn,
    hsecondColumn, -, hne⟩ := of_wordPair? h
  have hplain : ∀ c ∈ indent ++ (words.first ++ (gap ++ words.second)), isQuote c = false := by
    simp only [List.mem_append]
    rintro c (hc | hc | hc | hc)
    · exact isQuote_of_isBlank (hindent c hc)
    · exact isQuote_of_isIdentRest (isIdentRest_of_mem_isIdent hfirst hc)
    · exact isQuote_of_isBlank (hgap c hc)
    · exact isQuote_of_isIdentRest (isIdentRest_of_mem_isIdent hsecond hc)
  obtain ⟨back, hline, -⟩ := exists_append_of_codeFrom_eq_plain hplain
    (show codeFrom .code line = _ ++ (after ++ words.rest) by
      rw [← code_eq_codeFrom, hcode]
      simp)
  refine ⟨indent, gap, back, by rw [hline]; simp, hindent, hgap, hne, hfirst, hsecond,
    hfirstColumn, ?_⟩
  rw [hsecondColumn]
  simp only [List.length_append]
  omega

/-! ## The value of a declaration -/

/-- A line is read as code from the value of its declaration on. -/
theorem exists_append_of_assignment? {line : List Char} {a : Assignment}
    (h : assignment? (code line) = some a) : ∃ front back, line = front ++ back ∧
      front.length = a.valueColumn ∧ Reading.code.after front = .code ∧
        codeFrom .code back = (code line).drop a.valueColumn := by
  obtain ⟨pre, value, hcode, hlength, -⟩ := exists_of_assignment? h
  obtain ⟨front, rest, rfl, hmask, hrest⟩ := exists_append_of_codeFrom_eq hcode
  obtain ⟨hreading, back, rfl, hback⟩ := eq_code_of_codeFrom_eq_cons
    (Reading.proper_after_code front) hrest (by decide) (by decide)
  have hfront : front.length + 1 = a.valueColumn := by rw [← hlength, ← hmask, length_maskFrom]
  refine ⟨front ++ ['='], back, by simp, by simpa using hfront, ?_, ?_⟩
  · rw [Reading.after_append, hreading]
    rfl
  · rw [hback, hcode, ← hlength, ← List.drop_drop, List.drop_left]
    rfl

theorem maskFrom_take_codeFrom (reading : Reading) (line : List Char) :
    maskFrom reading (line.take (codeFrom reading line).length) = codeFrom reading line := by
  obtain ⟨front, back, rfl, hmask, hback⟩ :=
    exists_append_of_codeFrom_eq (List.append_nil (codeFrom reading line)).symm
  rw [← hmask, length_maskFrom, List.take_left]

/-- The masked form of the value of a declaration is the rest of the code. -/
theorem mask_between {line : List Char} {a : Assignment} (h : assignment? (code line) = some a) :
    mask (between line a.valueColumn (code line).length) = (code line).drop a.valueColumn := by
  obtain ⟨front, back, hline, hfront, -, hback⟩ := exists_append_of_assignment? h
  have hlength : (code line).length - a.valueColumn = (codeFrom .code back).length := by
    rw [hback, List.length_drop]
  have hdrop : line.drop a.valueColumn = back := by rw [hline, ← hfront, List.drop_left]
  rw [between, hdrop, hlength]
  exact (maskFrom_take_codeFrom .code back).trans hback

end RazenLint
