import RazenLint.Proofs.Event.Match
import RazenLint.Proofs.Event.Placed
import RazenLint.Proofs.Symbol.Occurrence

/-!
# A call in the old form on a line

`OldCall` is a call in the old form with the line around it : a head that is read as
code, after a word boundary and before any comment, with a known library, and the code
behind it closes the parenthesis. `OldCall.line` is the line with this call, and
`OldCall.fixed` the line with its head in the current form. Everything else on the line
keeps its characters.

The spans on the two lines correspond (`OldCall.Moves`) : what begins before the head, or
with it, stays where it is, the function of the call is found in its new column, and what
stands behind the head moves by the blanks that are gone.
-/

namespace RazenLint

open Text

/-- The head in the current form. -/
def CallHead.modern (head : CallHead) : CallHead :=
  ⟨head.library.map Char.toLower, head.function, false, 0⟩

/-- A head in the old form of a known library that is read as code, and what stands in
front of it on its line. -/
structure OldHead where
  front : List Char
  head : CallHead
  blanks : List Char
  legacy : head.legacy = true
  fits : head.Fits blanks
  reading : Reading.code.after front = .code
  uncommented : commentSign ∉ mask front
  boundary : boundaryAfter (mask front).getLast? = true
  registered : isLibraryName (String.ofList head.library) = true

/-- A call in the old form that its line closes, with what stands behind its head. -/
structure OldCall extends OldHead where
  back : List Char
  closed : (closingDistance 1 (codeFrom .code back)).isSome = true

/-! ## Old heads in the code of a line -/

theorem CallHead.Fits.modern {head : CallHead} {blanks : List Char} (hfits : head.Fits blanks) :
    head.modern.Fits [] :=
  ⟨isIdent_map_toLower hfits.library, hfits.function, by simp, rfl⟩

/-- A head in the old form in the code of a line stands in the line itself. -/
theorem OldHead.exists_of_mem_callHeads {line : List Char} {column : Nat} {head : CallHead}
    (h : (column, head) ∈ callHeads (code line)) (hlegacy : head.legacy = true)
    (hregistered : isLibraryName (String.ofList head.library) = true) :
    ∃ (o : OldHead) (back : List Char), line = o.front ++ (o.head.written o.blanks ++ back) ∧
      o.front.length = column ∧ o.head = head := by
  obtain ⟨front, blanks, back, hline, hlength, hplaced⟩ := exists_placed_of_mem_callHeads h
  exact ⟨⟨front, head, blanks, hlegacy, hplaced.fits, hplaced.reading, hplaced.uncommented,
    hplaced.boundary, hregistered⟩, back, hline, hlength, rfl⟩

/-- A call in the old form that is closed in the code of a line stands in the line itself. -/
theorem OldCall.exists_of_mem_callHeads {line : List Char} {column : Nat} {head : CallHead}
    (h : (column, head) ∈ callHeads (code line)) (hlegacy : head.legacy = true)
    (hregistered : isLibraryName (String.ofList head.library) = true)
    (hclosed : (closingParen (code line) (column + head.openingOffset)).isSome = true) :
    ∃ o : OldCall, line = o.front ++ (o.head.written o.blanks ++ o.back) ∧
      o.front.length = column ∧ o.head = head := by
  obtain ⟨o, back, rfl, rfl, rfl⟩ := OldHead.exists_of_mem_callHeads h hlegacy hregistered
  rw [closingParen_written o.fits o.reading o.uncommented, Option.isSome_map] at hclosed
  exact ⟨{ o with back, closed := hclosed }, rfl, rfl, rfl⟩

namespace OldCall

variable (o : OldCall)

/-- The line with the call in the old form. -/
def line : List Char :=
  o.front ++ (o.head.written o.blanks ++ o.back)

/-- The line with the call in the current form. -/
def fixed : List Char :=
  o.front ++ (o.head.modern.written [] ++ o.back)

/-- The column of the call. -/
def column : Nat :=
  o.front.length

/-- The column behind the head in the current form. -/
def stop : Nat :=
  o.column + (o.head.modern.openingOffset + 1)

theorem code_line : code o.line =
    mask o.front ++ (o.head.written o.blanks ++ codeFrom .code o.back) :=
  code_written o.fits o.reading o.uncommented o.back

theorem code_fixed : code o.fixed =
    mask o.front ++ (o.head.modern.written [] ++ codeFrom .code o.back) :=
  code_written o.fits.modern o.reading o.uncommented o.back

theorem functionOffset_modern : o.head.modern.functionOffset = o.head.functionOffset + 1 := by
  simp [CallHead.functionOffset, CallHead.modern, o.legacy]

/-- A head in the current form is shorter by the blanks of the old one. -/
theorem openingOffset_eq :
    o.head.openingOffset = o.head.modern.openingOffset + o.blanks.length := by
  simp only [CallHead.openingOffset, functionOffset_modern, o.legacy, o.fits.length]
  simp [CallHead.modern]
  omega

/-- The head ends later than in the current form by the blanks. -/
theorem stop_add_blanks :
    o.column + (o.head.openingOffset + 1) = o.stop + o.blanks.length := by
  rw [stop, openingOffset_eq]
  omega

theorem length_written : (o.head.written o.blanks).length =
    o.head.modern.openingOffset + 1 + o.blanks.length := by
  rw [CallHead.length_written o.fits.length, openingOffset_eq]
  omega

theorem length_written_modern : (o.head.modern.written []).length =
    o.head.modern.openingOffset + 1 :=
  CallHead.length_written o.fits.modern.length

/-! ## Spans -/

/-- The places on the two lines that correspond, when the line has the given index. -/
inductive Moves (index : Nat) : Span → Span → Prop
  | kept {s : Span} (h : s.line ≠ index ∨ s.start ≤ o.column) : Moves index s s
  | function : Moves index
    ⟨index, o.column + o.head.functionOffset,
      o.column + o.head.functionOffset + o.head.function.length⟩
    ⟨index, o.column + o.head.modern.functionOffset,
      o.column + o.head.modern.functionOffset + o.head.function.length⟩
  | behind {start stop : Nat} (h : o.stop ≤ start) (hle : start ≤ stop) :
    Moves index (Span.advance ⟨index, start, stop⟩ o.blanks.length) ⟨index, start, stop⟩

/-- Two stretches of corresponding lines. One that ends before the call is the same. -/
structure Extends (index : Nat) (s s' : Span) : Prop where
  line : s.line = s'.line
  kept : s.line ≠ index ∨ s.stop ≤ o.column ∨ s'.stop ≤ o.column → s = s'

variable {o}

theorem functionOffset_pos : 0 < o.head.functionOffset := by
  unfold CallHead.functionOffset
  split <;> omega

theorem functionOffset_lt_stop : o.column + o.head.modern.functionOffset < o.stop := by
  unfold stop CallHead.openingOffset
  omega

theorem Moves.line {index : Nat} {s s' : Span} (h : o.Moves index s s') : s.line = s'.line := by
  cases h <;> rfl

theorem Moves.extends {index : Nat} {s s' : Span} (h : o.Moves index s s') :
    o.Extends index s s' := by
  refine ⟨h.line, fun hkept => ?_⟩
  have hoffset := o.functionOffset_modern
  have hstop := o.functionOffset_lt_stop
  cases h with
  | kept => rfl
  | function =>
    simp only [ne_eq, not_true_eq_false, false_or] at hkept
    have := o.functionOffset_pos
    omega
  | behind h hle =>
    simp only [Span.advance, ne_eq, not_true_eq_false, false_or] at hkept
    omega

/-- A place on one line has one counterpart on the other line. -/
theorem biUnique_moves (index : Nat) : Relator.BiUnique (o.Moves index) := by
  have hoffset := o.functionOffset_modern
  have hstop := o.functionOffset_lt_stop
  have hpos := o.functionOffset_pos
  constructor
  · intro s t s' hs ht
    cases hs with
    | kept h =>
      cases ht with
      | kept h' => rfl
      | function => simp at h; omega
      | behind h' hle => simp at h; omega
    | function =>
      cases ht with
      | kept h' => simp at h'; omega
      | function => rfl
      | behind h' hle => omega
    | behind h hle =>
      cases ht with
      | kept h' => simp at h'; omega
      | function => omega
      | behind h' hle' => rfl
  · intro s s' t' hs ht
    cases hs with
    | kept h =>
      cases ht with
      | kept h' => rfl
      | function => simp at h; omega
      | behind h' hle => simp [Span.advance] at h; omega
    | function =>
      generalize hs : (⟨index, _, _⟩ : Span) = s at ht
      cases ht with
      | kept h' => subst hs; simp at h'; omega
      | function => rfl
      | behind h' hle => simp [Span.advance] at hs; omega
    | behind h hle =>
      generalize hs : Span.advance _ _ = s at ht
      cases ht with
      | kept h' => subst hs; simp [Span.advance] at h'; omega
      | function => simp [Span.advance] at hs; omega
      | behind h' hle' =>
        simp only [Span.advance, Span.mk.injEq, true_and, Nat.add_right_cancel_iff] at hs
        rw [hs.1, hs.2]

end OldCall

end RazenLint
