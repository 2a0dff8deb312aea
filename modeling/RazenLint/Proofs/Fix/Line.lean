import RazenLint.Proofs.Fix.OldCall
import RazenLint.Proofs.Symbol.Match

/-!
# Fixing one call on a line

The two lines of an `OldCall` say the same, call by call : the calls in front of the
head and behind it match (`match_before`, `match_behind`), and so does a declaration
that begins the line (`match_ofAssignment`). The call itself goes from the old form to
the current one.
-/

namespace RazenLint

open Text

/-- The current form names the same library. -/
theorem CallHead.resolve?_modern (head : CallHead) :
    Library.resolve? (String.ofList head.modern.library) =
      Library.resolve? (String.ofList head.library) := by
  have hmodern : String.ofList head.modern.library = asciiLower (String.ofList head.library) := by
    rw [asciiLower, String.toList_ofList, modern]
  rw [hmodern, Library.resolve?, Library.resolve?, asciiLower_asciiLower]

/-- A value goes on when a parenthesis is still to come. -/
theorem endsAfter_eq_false {code : List Char} {column : Nat} (h : '(' ∈ code.drop column) :
    endsAfter code column = false := by
  have hmem : '(' ∈ trim (code.drop column) := mem_trim h (by decide)
  unfold endsAfter
  generalize trim (code.drop column) = rest at hmem
  have hempty : rest.isEmpty = false := by
    rw [List.isEmpty_eq_false_iff]
    exact List.ne_nil_of_mem hmem
  have hsemicolon : rest ≠ [';'] := by
    rintro rfl
    exact absurd hmem (by decide)
  simp [hempty, hsemicolon]

/-- What a line holds from a column in front of a head to the end of its code. -/
theorem between_written {front : List Char} {head : CallHead} {blanks : List Char}
    (hfits : head.Fits blanks) (hreading : Reading.code.after front = .code)
    (hsign : commentSign ∉ mask front) (back : List Char) {column : Nat}
    (h : column ≤ front.length) :
    between (front ++ (head.written blanks ++ back)) column
        (code (front ++ (head.written blanks ++ back))).length =
      front.drop column ++
        (head.written blanks ++ back.take (codeFrom .code back).length) := by
  rw [between, code_written hfits hreading hsign, List.drop_append_of_le_length h,
    List.length_append, List.length_append, length_mask]
  rw [List.take_append, List.take_of_length_le (by rw [List.length_drop]; omega), List.length_drop,
    List.take_append, List.take_of_length_le (by omega)]
  congr 3
  omega

/-- The call that a value begins with lies in the code. -/
theorem Assignment.openingOffset_lt_of_head? {a : Assignment} {code : List Char}
    {p : Nat × CallHead} (h : a.head? code = some p) : p.1 + p.2.openingOffset < code.length := by
  obtain ⟨head, hhead, rfl⟩ := Option.map_eq_some_iff.1 h
  obtain ⟨blanks, rest, hvalue, hfits⟩ := headAt?_eq_some_iff.1 hhead
  have hlength := CallHead.length_written hfits.length
  have htotal := congrArg List.length (takeWhile_append_trimStart (code.drop a.valueColumn))
  rw [hvalue] at htotal
  simp only [List.length_append, List.length_drop] at htotal
  dsimp only
  omega

namespace OldCall

variable (o : OldCall)

/-! ## Closing parentheses -/

/-- From the opening parenthesis of the call on the two lines have the same code. -/
theorem drop_code_line {n : Nat} (h : o.stop ≤ n + 1) :
    (code o.line).drop (n + o.blanks.length) = (code o.fixed).drop n := by
  have hoffset := o.openingOffset_eq
  have hstop : o.stop = o.front.length + (o.head.modern.openingOffset + 1) := rfl
  obtain ⟨m, hm⟩ := Nat.exists_eq_add_of_le h
  have hsplit : ∀ stem rest : List Char, mask o.front ++ (stem ++ ['('] ++ rest) =
      (mask o.front ++ stem) ++ '(' :: rest := fun stem rest => by simp
  have hline : n + o.blanks.length = (mask o.front ++ o.head.stem o.blanks).length + m := by
    rw [List.length_append, length_mask, CallHead.length_stem o.fits.length]
    omega
  have hfixed : n = (mask o.front ++ o.head.modern.stem []).length + m := by
    rw [List.length_append, length_mask, CallHead.length_stem o.fits.modern.length]
    omega
  rw [code_line, code_fixed, CallHead.written_eq, CallHead.written_eq, hsplit, hsplit, hline,
    List.drop_length_add_append, hfixed, List.drop_length_add_append]

theorem closingParen_behind {opening : Nat} (h : o.stop ≤ opening + 1) :
    closingParen (code o.line) (opening + o.blanks.length) =
      (closingParen (code o.fixed) opening).map (· + o.blanks.length) := by
  rw [closingParen, closingParen, o.drop_code_line h, Option.map_map]
  congr 1
  ext n
  simp only [Function.comp_apply]
  omega

/-- A parenthesis in front of the call is closed in front of it, or behind its head. -/
theorem closingParen_before {opening : Nat} (h : opening ≤ o.column) :
    (∃ n < o.column, closingParen (code o.line) opening = some n ∧
        closingParen (code o.fixed) opening = some n) ∨
      (closingParen (code o.line) opening =
          (closingParen (code o.fixed) opening).map (· + o.blanks.length) ∧
        ∀ n, closingParen (code o.fixed) opening = some n → o.stop ≤ n) := by
  have hfront : (mask o.front).length = o.column := length_mask o.front
  rw [code_line, code_fixed]
  rcases closingParen_append (show opening ≤ (mask o.front).length by omega) with
    ⟨n, hn, hfound⟩ | ⟨depth, hlater⟩
  · exact Or.inl ⟨n, by omega, hfound _, hfound _⟩
  · have hlength := o.length_written
    have hlength' := o.length_written_modern
    have hstop : o.stop = o.column + (o.head.modern.openingOffset + 1) := rfl
    refine Or.inr ⟨?_, fun n hn => ?_⟩
    · rw [hlater, hlater, o.fits.closingDistance_written, o.fits.modern.closingDistance_written,
        Option.map_map, Option.map_map, Option.map_map]
      congr 1
      ext n
      simp only [Function.comp_apply]
      omega
    · rw [hlater, o.fits.modern.closingDistance_written, Option.map_map] at hn
      obtain ⟨m, -, rfl⟩ := Option.map_eq_some_iff.1 hn
      simp only [Function.comp_apply]
      omega

/-! ## Calls -/

/-- A call in front of the head. -/
theorem match_before (index : Nat) (bound bound' : Bool) {column : Nat} {head : CallHead}
    (h : (column, head) ∈ callHeads (mask o.front)) :
    (LibraryCall.ofHead index o.line bound column head).Match (o.Moves index) (o.Extends index)
      (LibraryCall.ofHead index o.fixed bound' column head) := by
  have hmem := (le_of_mem_callHeadsFrom h).2
  have hfront : (mask o.front).length = o.column := length_mask o.front
  have hoffset : head.functionOffset ≤ head.openingOffset := by
    unfold CallHead.openingOffset
    omega
  refine ⟨rfl, rfl, rfl, .kept (Or.inr ?_), .kept (Or.inr ?_), rfl, ?_⟩
  · simp only [LibraryCall.ofHead]
    omega
  · simp only [LibraryCall.ofHead]
    omega
  · simp only [LibraryCall.ofHead, ne_eq, not_true_eq_false, false_or]
    have hopening : column + head.openingOffset ≤ o.column := by omega
    rcases o.closingParen_before hopening with ⟨n, -, hline, hfixed⟩ | ⟨hline, hlater⟩
    · rw [hline, hfixed]
      exact fun _ => rfl
    · rw [hline]
      cases hfixed : closingParen (code o.fixed) (column + head.openingOffset) with
      | none => exact fun _ => rfl
      | some n =>
        have hn := hlater n hfixed
        have hstop := o.functionOffset_lt_stop
        simp only [Option.map_some, Option.getD_some]
        omega

/-- A call behind the head. -/
theorem match_behind (index : Nat) (bound bound' : Bool) {column : Nat} (h : o.stop ≤ column)
    (head : CallHead) :
    (LibraryCall.ofHead index o.line bound (column + o.blanks.length) head).Match (o.Moves index)
      (o.Extends index) (LibraryCall.ofHead index o.fixed bound' column head) := by
  have hmoves : ∀ start length, o.stop ≤ start → o.Moves index
      ⟨index, start + o.blanks.length, start + o.blanks.length + length⟩
      ⟨index, start, start + length⟩ := by
    intro start length hstart
    rw [Nat.add_right_comm]
    exact .behind hstart (Nat.le_add_right _ _)
  have hopening : column + o.blanks.length + head.openingOffset =
      column + head.openingOffset + o.blanks.length := Nat.add_right_comm _ _ _
  have hfunction : column + o.blanks.length + head.functionOffset =
      column + head.functionOffset + o.blanks.length := Nat.add_right_comm _ _ _
  refine ⟨rfl, rfl, rfl, hmoves column _ h, ?_, rfl, ?_⟩
  · simp only [LibraryCall.ofHead, hfunction]
    exact hmoves _ _ (by omega)
  · -- both stretches end behind the head
    simp only [LibraryCall.ofHead, ne_eq, not_true_eq_false, false_or, hopening]
    have hstop := o.functionOffset_lt_stop
    rw [o.closingParen_behind (show o.stop ≤ column + head.openingOffset + 1 by omega)]
    cases hfixed : closingParen (code o.fixed) (column + head.openingOffset) with
    | none =>
      simp only [Option.map_none, Option.getD_none]
      omega
    | some n =>
      have hn := le_of_closingParen hfixed
      simp only [Option.map_some, Option.getD_some]
      omega

/-! ## The events of the line -/

theorem callHeads_line : callHeads (code o.line) = callHeads (mask o.front) ++ (o.column, o.head) ::
    (callHeadsFrom o.stop (some '(') (codeFrom .code o.back)).map
      fun p => (p.1 + o.blanks.length, p.2) := by
  have hfront : (mask o.front).length = o.column := length_mask o.front
  rw [code_line, callHeads_append o.boundary o.fits, hfront, stop_add_blanks, callHeadsFrom_add]

theorem callHeads_fixed : callHeads (code o.fixed) =
    callHeads (mask o.front) ++ (o.column, o.head.modern) ::
      callHeadsFrom o.stop (some '(') (codeFrom .code o.back) := by
  have hfront : (mask o.front).length = o.column := length_mask o.front
  rw [code_fixed, callHeads_append o.boundary o.fits.modern, hfront]
  rfl

/-- The call itself, on the line. -/
def call (index : Nat) (bound : Bool) : LibraryCall :=
  .ofHead index o.line bound o.column o.head

/-- The call itself, on the fixed line. -/
def fixedCall (index : Nat) (bound : Bool) : LibraryCall :=
  .ofHead index o.fixed bound o.column o.head.modern

/-- The calls of the two lines : some in front that match, the call itself, and some behind
that match. -/
theorem exists_callsOfLine (index : Nat) (bound bound' : Option Nat) :
    ∃ before after before' after',
      callsOfLine index o.line bound = before ++ o.call index (bound = some o.column) :: after ∧
      callsOfLine index o.fixed bound' =
        before' ++ o.fixedCall index (bound' = some o.column) :: after' ∧
      List.Forall₂ (LibraryCall.Match (o.Moves index) (o.Extends index)) before before' ∧
      List.Forall₂ (LibraryCall.Match (o.Moves index) (o.Extends index)) after after' := by
  refine ⟨_, _, _, _, by rw [callsOfLine, callHeads_line, List.map_append, List.map_cons]; rfl,
    by rw [callsOfLine, callHeads_fixed, List.map_append, List.map_cons]; rfl, ?_, ?_⟩
  · rw [List.forall₂_map_left_iff, List.forall₂_map_right_iff, List.forall₂_same]
    exact fun p hp => o.match_before index _ _ hp
  · rw [List.map_map, List.forall₂_map_left_iff, List.forall₂_map_right_iff, List.forall₂_same]
    exact fun p hp => o.match_behind index _ _ (le_of_mem_callHeadsFrom hp).1 p.2

/-! ## A declaration on the line -/

theorem endsAfter_line {n : Nat} (h : o.stop ≤ n + 1) :
    endsAfter (code o.line) (n + o.blanks.length) = endsAfter (code o.fixed) n := by
  rw [endsAfter, endsAfter, o.drop_code_line h]

/-- A call that is closed in front of the head does not end the value. -/
theorem endsAfter_before {n : Nat} (h : n ≤ o.column) :
    endsAfter (code o.line) n = false ∧ endsAfter (code o.fixed) n = false := by
  have hfront : (mask o.front).length = o.column := length_mask o.front
  rw [code_line, code_fixed]
  constructor <;> refine endsAfter_eq_false ?_ <;>
    rw [List.drop_append_of_le_length (by omega)] <;>
    simp [List.mem_of_getLast? (CallHead.getLast?_written _ _)]

/-- The call itself, as the value of a declaration. -/
theorem match_ofCall (index : Nat) : (BoundCall.ofCall o.line (o.call index true)).Match
    (BoundCall.ofCall o.fixed (o.fixedCall index true)) := by
  have hclosing : closingParen (code o.line) (o.column + o.head.openingOffset) =
      (closingParen (code o.fixed) (o.column + o.head.modern.openingOffset)).map
        (· + o.blanks.length) := by
    rw [o.openingOffset_eq, ← Nat.add_assoc]
    exact o.closingParen_behind (Nat.le_refl _)
  refine ⟨?_, rfl, ?_⟩
  · have hresolve := o.head.resolve?_modern
    simp only [BoundCall.result?, BoundCall.ofCall, call, fixedCall, LibraryCall.ofHead, hresolve]
    rfl
  · simp only [BoundCall.ofCall, call, fixedCall, LibraryCall.ofHead, hclosing]
    cases hfixed : closingParen (code o.fixed) (o.column + o.head.modern.openingOffset) with
    | none => rfl
    | some n =>
      have hn : o.column + o.head.modern.openingOffset ≤ n := le_of_closingParen hfixed
      simp only [Option.map_some, Option.getD_some, Option.isSome_some, Bool.true_and]
      rw [Nat.add_right_comm]
      exact o.endsAfter_line (by unfold stop; omega)

/-- A call in front of the head, as the beginning of the value of a declaration. -/
theorem match_ofCall_before (index : Nat) {column : Nat} {head : CallHead}
    (h : column + head.openingOffset < o.column) :
    (BoundCall.ofCall o.line (.ofHead index o.line true column head)).Match
      (BoundCall.ofCall o.fixed (.ofHead index o.fixed true column head)) := by
  refine ⟨rfl, rfl, ?_⟩
  simp only [BoundCall.ofCall, LibraryCall.ofHead]
  rcases o.closingParen_before h.le with ⟨n, hn, hline, hfixed⟩ | ⟨hline, hlater⟩
  · obtain ⟨hends, hends'⟩ := o.endsAfter_before (n := n + 1) hn
    simp only [hline, hfixed, Option.getD_some, hends, hends', Bool.and_false]
  · rw [hline]
    cases hfixed : closingParen (code o.fixed) (column + head.openingOffset) with
    | none => rfl
    | some n =>
      have hn := hlater n hfixed
      simp only [Option.map_some, Option.getD_some, Option.isSome_some, Bool.true_and]
      rw [Nat.add_right_comm]
      exact o.endsAfter_line (by omega)

theorem assignment?_line : assignment? (code o.line) = assignment? (mask o.front) := by
  rw [code_line, assignment?_append o.boundary (startsHead_written o.fits _)]

theorem assignment?_fixed : assignment? (code o.fixed) = assignment? (mask o.front) := by
  rw [code_fixed, assignment?_append o.boundary (startsHead_written o.fits.modern _)]

/-- The call that the value of a declaration begins with. -/
theorem head?_line {a : Assignment} (h : a.valueColumn ≤ o.column) :
    a.head? (code o.line) = if trimStart ((mask o.front).drop a.valueColumn) = [] then
      some (o.column, o.head) else a.head? (mask o.front) := by
  have hfront : (mask o.front).length = o.column := length_mask o.front
  rw [code_line, Assignment.head?_append (by omega) o.boundary o.fits, hfront]

theorem head?_fixed {a : Assignment} (h : a.valueColumn ≤ o.column) :
    a.head? (code o.fixed) = if trimStart ((mask o.front).drop a.valueColumn) = [] then
      some (o.column, o.head.modern) else a.head? (mask o.front) := by
  have hfront : (mask o.front).length = o.column := length_mask o.front
  rw [code_fixed, Assignment.head?_append (by omega) o.boundary o.fits.modern, hfront]

/-- The statement goes on behind the head. -/
theorem column_lt_trimEnd (head : CallHead) (blanks : List Char) :
    o.column <
      (trimEnd (mask o.front ++ (head.written blanks ++ codeFrom .code o.back))).length := by
  have hfront : (mask o.front).length = o.column := length_mask o.front
  have hlast : (mask o.front ++ head.written blanks).getLast? = some '(' := by
    rw [List.getLast?_append, head.getLast?_written]
    rfl
  have hpos := List.length_pos_of_mem (List.mem_of_getLast? (head.getLast?_written blanks))
  rw [← List.append_assoc, trimEnd_append hlast (by decide)]
  simp only [List.length_append]
  omega

/-- The shape of a value that does not begin with the call does not depend on its form. -/
theorem classify_initializer (index : Nat) {a : Assignment}
    (h : assignment? (mask o.front) = some a)
    (hvalue : trimStart ((mask o.front).drop a.valueColumn) ≠ []) :
    Shape.classify (Declaration.ofAssignment index o.line a).initializer.toList =
      Shape.classify (Declaration.ofAssignment index o.fixed a).initializer.toList := by
  have hcolumn : a.valueColumn ≤ o.front.length := by
    have := (columns_of_assignment? h).2.2
    rwa [length_mask] at this
  obtain ⟨front, back, hline, hlength, hreading, -⟩ :=
    exists_append_of_assignment? (o.assignment?_line.trans h)
  obtain ⟨value, hfront⟩ : ∃ value, o.front = front ++ value := by
    refine ⟨o.front.drop a.valueColumn, ?_⟩
    have htake := congrArg (List.take a.valueColumn) hline
    rw [line, List.take_append_of_le_length hcolumn, ← hlength, List.take_left, hlength] at htake
    rw [← htake, List.take_append_drop]
  have hdrop : o.front.drop a.valueColumn = value := by rw [hfront, ← hlength, List.drop_left]
  have hmask : (mask o.front).drop a.valueColumn = mask value := by
    rw [hfront, mask, maskFrom_append, hreading, ← hlength, ← length_maskFrom .code front,
      List.drop_left]
    rfl
  have hcode : Reading.code.after value = .code := by
    have := o.reading
    rwa [hfront, Reading.after_append, hreading] at this
  have hblank : trimStart value ≠ [] := fun hnil => hvalue <| by
    rw [hmask, trimStart_eq_nil_iff]
    exact isBlank_of_mem_maskFrom (trimStart_eq_nil_iff.1 hnil)
  simp only [Declaration.ofAssignment, String.toList_ofList]
  change Shape.classify (expressionOf _) = Shape.classify (expressionOf _)
  rw [line, fixed, between_written o.fits o.reading o.uncommented _ hcolumn,
    between_written o.fits.modern o.reading o.uncommented _ hcolumn, hdrop]
  exact Shape.classify_exchange o.fits o.fits.modern hblank hcode _

/-- A declaration that begins the line. -/
theorem match_ofAssignment (index : Nat) {a : Assignment}
    (h : assignment? (mask o.front) = some a) :
    (Declaration.ofAssignment index o.line a).Match (o.Moves index) (o.Extends index)
      (Declaration.ofAssignment index o.fixed a) := by
  have hfront : (mask o.front).length = o.column := length_mask o.front
  obtain ⟨hkeyword, hname, hvalue⟩ := columns_of_assignment? h
  rw [hfront] at hvalue
  refine ⟨rfl, rfl, rfl, .kept (Or.inr ?_), ⟨rfl, ?_⟩, ?_, ?_⟩
  · simp only [Declaration.ofAssignment]
    omega
  · -- both statements end behind the call
    have hline := o.column_lt_trimEnd o.head o.blanks
    have hfixed := o.column_lt_trimEnd o.head.modern []
    simp only [Declaration.ofAssignment, code_line, code_fixed]
    omega
  · simp only [Declaration.ofAssignment, o.head?_line hvalue, o.head?_fixed hvalue]
    split
    · exact Option.Rel.some (o.match_ofCall index)
    · cases hhead : a.head? (mask o.front) with
      | none => exact Option.Rel.none
      | some p =>
        have hlt := a.openingOffset_lt_of_head? hhead
        exact Option.Rel.some (o.match_ofCall_before index (by omega))
  · intro hnone
    refine o.classify_initializer index h fun hblank => ?_
    simp only [Declaration.ofAssignment, o.head?_line hvalue, if_pos hblank] at hnone
    exact absurd hnone (by simp)

/-- The events of the two lines match, but for the call itself. -/
theorem matchAround_eventsOfLine (index : Nat) : ∃ bound bound', Event.MatchAround (o.Moves index)
    (o.Extends index) (.call (o.call index bound)) (.call (o.fixedCall index bound'))
    (eventsOfLine index o.line) (eventsOfLine index o.fixed) := by
  have hcalls : ∀ bound bound', Event.MatchAround (o.Moves index) (o.Extends index)
      (.call (o.call index (bound = some o.column)))
      (.call (o.fixedCall index (bound' = some o.column)))
      ((callsOfLine index o.line bound).map .call)
      ((callsOfLine index o.fixed bound').map .call) := by
    intro bound bound'
    obtain ⟨before, after, before', after', hline, hfixed, hbefore, hafter⟩ :=
      o.exists_callsOfLine index bound bound'
    rw [hline, hfixed, List.map_append, List.map_append, List.map_cons, List.map_cons]
    exact .intro (List.rel_map (fun _ _ h => .call h) hbefore)
      (List.rel_map (fun _ _ h => .call h) hafter)
  have himport : importWords? (code o.line) = none ∧ importWords? (code o.fixed) = none := by
    rw [code_line, code_fixed]
    exact ⟨importWords?_eq_none, importWords?_eq_none⟩
  rw [eventsOfLine_eq, eventsOfLine_eq, assignment?_line, assignment?_fixed]
  cases h : assignment? (mask o.front) with
  | none =>
    rw [himport.1, himport.2]
    exact ⟨_, _, hcalls none none⟩
  | some a =>
    have hdeclaration := List.Forall₂.cons (Event.Match.declaration (o.match_ofAssignment index h))
      List.Forall₂.nil
    have haround := (hcalls ((a.head? (code o.line)).map (·.1))
      ((a.head? (code o.fixed)).map (·.1))).append hdeclaration List.Forall₂.nil
    rw [List.append_nil, List.append_nil] at haround
    exact ⟨_, _, haround⟩

theorem counterpart_call (index : Nat) (bound bound' : Bool) :
    (o.call index bound).Counterpart (o.Moves index) (o.fixedCall index bound') := by
  have hlength : o.head.modern.library.length = o.head.library.length := by simp [CallHead.modern]
  refine ⟨o.head.resolve?_modern.symm, ?_, ?_, .function⟩
  · have hlegacy : (o.call index bound).legacy = true := o.legacy
    have hregistered : isLibraryName (o.call index bound).library = true := o.registered
    rw [hlegacy, hregistered]
    rfl
  · simp only [call, fixedCall, LibraryCall.ofHead, hlength]
    exact .kept (Or.inr (Nat.le_refl _))

/-- The old form of the call has one finding more, about the form. -/
theorem orderedFindings_call (index : Nat) (bound bound' : Bool) : ∃ f rest,
    (o.call index bound).orderedFindings = f :: rest ∧ f.rule = .deprecatedCall ∧
      f.span = (o.call index bound).callSpan ∧ List.Forall₂ (Finding.Match (o.Extends index)) rest
        (o.fixedCall index bound').orderedFindings := by
  have hlegacy : (o.call index bound).legacy = true := o.legacy
  have hmodern : (o.fixedCall index bound').legacy = false := rfl
  have hresolve : Library.resolve? (o.fixedCall index bound').library =
      Library.resolve? (o.call index bound).library := o.head.resolve?_modern
  have hfunction : (o.fixedCall index bound').function = (o.call index bound).function := rfl
  obtain ⟨library, hlibrary⟩ := Option.isSome_iff_exists.1 o.registered
  have hcall : Library.resolve? (o.call index bound).library = some library := hlibrary
  unfold LibraryCall.orderedFindings
  rw [hresolve, hcall, hlegacy, hmodern, hfunction]
  refine ⟨_, _, rfl, rfl, rfl, ?_⟩
  simp only [Bool.false_eq_true, if_false, List.nil_append]
  split
  · exact List.Forall₂.nil
  · refine List.Forall₂.cons ⟨?_, rfl, fun _ => rfl⟩ List.Forall₂.nil
    exact (o.counterpart_call index bound bound').functionSpan.extends

/-! ## The words of the line -/

/-- A word of the line that names the library, with its place. -/
def libraryWord (index : Nat) (head : CallHead) : Occurrence :=
  ⟨String.ofList head.library, ⟨index, o.column, o.column + head.library.length⟩,
    (mask o.front).getLast? = some '.'⟩

/-- A word of the line that names the function, with its place. -/
def functionWord (index : Nat) (head : CallHead) : Occurrence :=
  ⟨String.ofList head.function, ⟨index, o.column + head.functionOffset,
    o.column + head.functionOffset + head.function.length⟩, false⟩

/-- The words of a line around those of a head. -/
theorem occurrencesFrom_front_append {head : CallHead} {blanks : List Char}
    (hfits : head.Fits blanks) (hcloser : boundaryAfter (head.closer blanks).head? = true)
    (index : Nat) (back : List Char) :
    occurrencesFrom index 0 none (mask o.front ++ (head.written blanks ++ back)) =
      occurrencesFrom index 0 none (mask o.front) ++ o.libraryWord index head ::
        o.functionWord index head ::
          occurrencesFrom index (o.column + (head.openingOffset + 1)) (some '(') back := by
  have hfront : (mask o.front).length = o.column := length_mask o.front
  have hlast : (mask o.front).getLast?.or none = (mask o.front).getLast? := by
    cases (mask o.front).getLast? <;> rfl
  rw [occurrencesFrom_append o.boundary, hfront, Nat.zero_add, hlast,
    occurrencesFrom_written_append hfits hcloser o.boundary]
  rfl

theorem occurrencesOfLine_line (index : Nat) : occurrencesOfLine index o.line =
    occurrencesFrom index 0 none (mask o.front) ++ o.libraryWord index o.head ::
      o.functionWord index o.head ::
        (occurrencesFrom index o.stop (some '(') (codeFrom .code o.back)).map
          fun w => { w with span := w.span.advance o.blanks.length } := by
  have hcloser : boundaryAfter (o.head.closer o.blanks).head? = true := by
    rw [CallHead.closer, if_pos o.legacy]
    exact (by decide : boundaryAfter (some ']') = true)
  rw [occurrencesOfLine_eq, code_line, o.occurrencesFrom_front_append o.fits hcloser,
    stop_add_blanks, occurrencesFrom_add]

theorem occurrencesOfLine_fixed (index : Nat) : occurrencesOfLine index o.fixed =
    occurrencesFrom index 0 none (mask o.front) ++ o.libraryWord index o.head.modern ::
      o.functionWord index o.head.modern ::
        occurrencesFrom index o.stop (some '(') (codeFrom .code o.back) := by
  have hcloser : boundaryAfter (o.head.modern.closer []).head? = true :=
    (by decide : boundaryAfter (some '(') = true)
  rw [occurrencesOfLine_eq, code_fixed, o.occurrencesFrom_front_append o.fits.modern hcloser]
  rfl

/-- The words of the two lines are the same up to the name of the library, which is no
reference to anything. -/
theorem match_occurrencesOfLine (index : Nat) (bound bound' : Bool) :
    List.Forall₂ (Occurrence.Match (o.Moves index) (Event.call (o.call index bound)).sites
        (Event.call (o.fixedCall index bound')).sites)
      (occurrencesOfLine index o.line) (occurrencesOfLine index o.fixed) := by
  have hfront : (mask o.front).length = o.column := length_mask o.front
  have hcall := o.counterpart_call index bound bound'
  have hsites : (Event.call (o.call index bound)).sites =
      [(o.call index bound).librarySpan, (o.call index bound).functionSpan] := by
    have hregistered : isLibraryName (o.call index bound).library = true := o.registered
    simp [Event.sites, hregistered]
  rw [occurrencesOfLine_line, occurrencesOfLine_fixed]
  refine List.rel_append ?_ (List.Forall₂.cons ?_ (List.Forall₂.cons ?_ ?_))
  · rw [List.forall₂_same]
    intro w hw
    have hspan := span_of_mem_occurrencesFrom hw
    exact ⟨.kept (Or.inr (by omega)), rfl, Or.inl rfl⟩
  · refine ⟨hcall.librarySpan, rfl, Or.inr ⟨?_, ?_⟩⟩
    · rw [hsites]
      exact List.mem_cons_self
    · exact List.mem_cons_self
  · exact ⟨hcall.functionSpan, rfl, Or.inl rfl⟩
  · rw [List.forall₂_map_left_iff, List.forall₂_same]
    intro w hw
    obtain ⟨hline, hstart, hlt, -⟩ := span_of_mem_occurrencesFrom hw
    refine ⟨?_, rfl, Or.inl rfl⟩
    dsimp only
    generalize w.span = span at *
    obtain ⟨line, start, stop⟩ := span
    dsimp only at hline hstart hlt
    subst hline
    exact .behind hstart hlt.le

end OldCall

end RazenLint
