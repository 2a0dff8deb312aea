import RazenLint.Proofs.Event.Block
import RazenLint.Proofs.Faithful
import RazenLint.Proofs.Text.Balance

/-!
# Calls in calls

The span of a call ends with the parenthesis that closes the call. Two calls of one line never
overlap in part : the first one is over where the second one begins, or the second one stands
between the parentheses of the first (`pairwise_callSpans`). The heads of the calls are apart, and
no head holds a closing parenthesis. So a call that is still open where another head begins is
open behind that head too, and then the call of that head is closed before
(`exists_closingParen_lt`).
-/

namespace RazenLint

open Text

/-! ## The arguments of a call -/

/-- The arguments of a call with their parentheses, when the line closes them. -/
def LibraryCall.argumentSpan? (c : LibraryCall) : Option Span :=
  c.arguments.map fun arguments =>
    ⟨c.callSpan.line, c.callSpan.stop - (arguments.toList.length + 2), c.callSpan.stop⟩

/-- The last part of what a span covers. -/
theorem Span.Covers.slice_suffix {span : Span} {index : Nat} {line front back : List Char}
    (h : span.Covers index line) (hslice : span.slice line = front ++ back) :
    span.stop - back.length = span.start + front.length ∧
      Span.slice ⟨span.line, span.stop - back.length, span.stop⟩ line = back := by
  have hinside := h.inside
  have hnonempty := h.nonempty
  have hlength : span.length = front.length + back.length := by
    rw [← List.length_append, ← hslice, slice, List.length_take, List.length_drop, length]
    omega
  have hstart : span.stop - back.length = span.start + front.length := by
    rw [length] at hlength
    omega
  refine ⟨hstart, ?_⟩
  calc Span.slice ⟨span.line, span.stop - back.length, span.stop⟩ line
      = (span.slice line).drop front.length := by
        rw [slice, slice, List.drop_take, List.drop_drop, length, length, hstart, Nat.sub_add_eq]
    _ = back := by rw [hslice, List.drop_left]

theorem CallHead.openingOffset_pos (head : CallHead) : 0 < head.openingOffset := by
  unfold openingOffset functionOffset
  split <;> omega

/-- The span of the arguments holds them with their parentheses, behind the head of the call. -/
theorem LibraryCall.Faithful.argumentSpan {c : LibraryCall} {index : Nat} {line : List Char}
    (h : c.Faithful index line) {span : Span} (hspan : c.argumentSpan? = some span) :
    c.callSpan.start < span.start ∧ span.stop = c.callSpan.stop ∧
      ∃ arguments, c.arguments = some arguments ∧
        span.slice line = '(' :: (arguments.toList ++ [')']) := by
  obtain ⟨arguments, harguments, rfl⟩ := Option.map_eq_some_iff.1 hspan
  obtain ⟨blanks, -, htext⟩ := h.text
  let head : CallHead := ⟨c.library.toList, c.function.toList, c.legacy, blanks.length⟩
  have hslice : c.callSpan.slice line =
      head.stem blanks ++ '(' :: (arguments.toList ++ [')']) := by
    rw [htext, harguments]
    simp only [written, CallHead.written_eq, List.append_assoc, List.singleton_append, head]
  obtain ⟨hstart, hsuffix⟩ := h.callSpan.slice_suffix hslice
  have hpos : 0 < (head.stem blanks).length := by
    rw [CallHead.length_stem rfl]
    exact head.openingOffset_pos
  have hlength : ('(' :: (arguments.toList ++ [')'])).length = arguments.toList.length + 2 := by
    simp
  rw [hlength] at hstart hsuffix
  exact ⟨by simp only; omega, rfl, arguments, harguments, hsuffix⟩

/-! ## Parentheses and heads -/

section

variable {line : List Char} {column : Nat} {head : CallHead}

theorem getElem?_opening (h : (column, head) ∈ callHeads (code line)) :
    (code line)[column + head.openingOffset]? = some '(' := by
  obtain ⟨front, blanks, rest, hcode, rfl, -, hfits⟩ := mem_callHeads_iff.1 h
  rw [hcode, CallHead.written_eq, ← CallHead.length_stem hfits.length]
  simp

/-- A closing parenthesis that does not stand in front of a head stands behind it. -/
theorem opening_lt_of_getElem? (h : (column, head) ∈ callHeads (code line)) {n : Nat}
    (hn : column ≤ n) (hparen : (code line)[n]? = some ')') : column + head.openingOffset < n := by
  obtain ⟨front, blanks, rest, hcode, rfl, -, hfits⟩ := mem_callHeads_iff.1 h
  have hlength := CallHead.length_written hfits.length
  have hnone : ')' ∉ head.written blanks := by
    refine hfits.notMem_written rfl (by decide) fun hmem => ?_
    exact absurd (hfits.blank _ hmem) (by decide)
  by_contra hbefore
  rw [hcode, List.getElem?_append_right hn, List.getElem?_append_left (by omega)] at hparen
  exact hnone (List.mem_of_getElem? hparen)

/-- The span of the arguments runs from the opening parenthesis to the closing one. -/
theorem argumentSpan?_ofHead (index : Nat) (bound : Bool)
    (h : (column, head) ∈ callHeads (code line)) :
    (LibraryCall.ofHead index line bound column head).argumentSpan? =
      (closingParen (code line) (column + head.openingOffset)).map fun n =>
        ⟨index, column + head.openingOffset, n + 1⟩ := by
  simp only [LibraryCall.argumentSpan?, LibraryCall.ofHead, Option.map_map]
  cases hclosing : closingParen (code line) (column + head.openingOffset) with
  | none => rfl
  | some n =>
    have hfound := ((closingParen_eq_some_iff (getElem?_opening h)).1 hclosing).1
    have hle := hfound.later
    have hlength : (between line (column + head.openingOffset + 1) n).length =
        n - (column + head.openingOffset + 1) := by
      have := hfound.inside
      have := length_code_le line
      rw [between, List.length_take, List.length_drop]
      omega
    simp only [Option.map_some, Function.comp_apply, Option.getD_some, String.toList_ofList,
      hlength, Option.some.injEq, Span.mk.injEq, true_and, and_true]
    omega

end

/-! ## Two calls of one line -/

/-- A span that lies in another one and reaches neither of its ends. -/
structure Span.StrictlyInside (span other : Span) : Prop where
  line : span.line = other.line
  start : other.start < span.start
  stop : span.stop < other.stop

/-- Of two calls on one line, the first is over where the second begins, or the second stands
between the parentheses of the first. -/
def LibraryCall.ApartOrNested (c d : LibraryCall) : Prop :=
  c.callSpan.line = d.callSpan.line → c.callSpan.stop ≤ d.callSpan.start ∨
    ∃ span, c.argumentSpan? = some span ∧ d.callSpan.StrictlyInside span

theorem apartOrNested_ofHead {line : List Char} {p q : Nat × CallHead}
    (hp : p ∈ callHeads (code line)) (hq : q ∈ callHeads (code line))
    (hapart : p.1 + p.2.openingOffset < q.1) (index : Nat) (bound bound' : Bool) :
    (LibraryCall.ofHead index line bound p.1 p.2).ApartOrNested
      (.ofHead index line bound' q.1 q.2) := by
  intro _
  rw [argumentSpan?_ofHead index bound hp]
  simp only [LibraryCall.ofHead]
  cases hclosing : closingParen (code line) (p.1 + p.2.openingOffset) with
  | none => exact Or.inl hapart
  | some n =>
    rcases Nat.lt_or_ge n q.1 with hbefore | hbehind
    · exact Or.inl hbefore
    · -- the first call is open at the second head, so it is closed behind that call
      have hopen := opening_lt_of_getElem? hq hbehind (getElem?_closingParen hclosing)
      obtain ⟨m, hm, hinner⟩ := exists_closingParen_lt (getElem?_opening hp) (getElem?_opening hq)
        (by omega) hclosing hopen
      refine Or.inr ⟨_, rfl, rfl, hapart, ?_⟩
      rw [hinner]
      exact Nat.succ_lt_succ hm

theorem pairwise_callsOfLine (index : Nat) (line : List Char) (bound : Option Nat) :
    (callsOfLine index line bound).Pairwise LibraryCall.ApartOrNested := by
  rw [callsOfLine, List.pairwise_map]
  exact (pairwise_callHeads_apart (code line)).imp_of_mem fun hp hq hapart =>
    apartOrNested_ofHead hp hq hapart index _ _

theorem line_of_mem_callsOfLine {index : Nat} {line : List Char} {bound : Option Nat}
    {c : LibraryCall} (h : c ∈ callsOfLine index line bound) : c.callSpan.line = index := by
  obtain ⟨p, -, rfl⟩ := List.mem_map.1 h
  rfl

theorem le_line_of_mem_calls {c : LibraryCall} : ∀ {index : Nat} {lines : List (List Char)},
    c ∈ (eventsFrom index lines).filterMap Event.call? → index ≤ c.callSpan.line
  | _, [], h => absurd h List.not_mem_nil
  | index, line :: rest, h => by
    rw [eventsFrom, List.filterMap_append] at h
    rcases List.mem_append.1 h with h | h
    · obtain ⟨bound, hcalls⟩ := exists_filterMap_eventsOfLine index line
      rw [hcalls] at h
      exact (line_of_mem_callsOfLine h).ge
    · exact Nat.le_of_succ_le (le_line_of_mem_calls h)

theorem pairwise_calls_eventsFrom : ∀ (index : Nat) (lines : List (List Char)),
    ((eventsFrom index lines).filterMap Event.call?).Pairwise LibraryCall.ApartOrNested
  | _, [] => List.Pairwise.nil
  | index, line :: rest => by
    obtain ⟨bound, hcalls⟩ := exists_filterMap_eventsOfLine index line
    rw [eventsFrom, List.filterMap_append, hcalls]
    refine List.pairwise_append.2 ⟨pairwise_callsOfLine index line bound,
      pairwise_calls_eventsFrom (index + 1) rest, fun c hc d hd hline => ?_⟩
    have hc := line_of_mem_callsOfLine hc
    have hd := le_line_of_mem_calls hd
    omega

/-- The parenthesis that closes an open one is the first behind which as many are closed as are
opened, from that one on, and none is found where there is no such column. So two calls of one
line are apart, or the later one stands between the parentheses of the other, where the arguments
of the other one are. -/
theorem closingParen_isLeast_and_callSpans_nested :
    (∀ masked opening, masked[opening]? = some '(' →
      (∀ n, closingParen masked opening = some n ↔
        IsLeast {column | ClosesAt masked opening column} n) ∧
      (closingParen masked opening = none ↔ ∀ column, ¬ClosesAt masked opening column)) ∧
    ∀ text, ((events text).filterMap Event.call?).Pairwise LibraryCall.ApartOrNested ∧
      ∀ c ∈ (events text).filterMap Event.call?, ∃ line,
        (lines text)[c.callSpan.line]? = some line ∧
        ∀ span, c.argumentSpan? = some span →
          c.callSpan.start < span.start ∧ span.stop = c.callSpan.stop ∧
          ∃ arguments, c.arguments = some arguments ∧
            span.slice line = '(' :: (arguments.toList ++ [')']) := by
  refine ⟨fun masked opening h => ⟨fun n => closingParen_eq_some_iff h,
    closingParen_eq_none_iff h⟩, fun text => ⟨pairwise_calls_eventsFrom 0 _, fun c hc => ?_⟩⟩
  obtain ⟨e, he, hcall⟩ := List.mem_filterMap.1 hc
  obtain ⟨index, line, hline, hfaithful⟩ := faithful_of_mem_events he
  cases e with
  | declaration d => cases hcall
  | imported i => cases hcall
  | call c' =>
    obtain rfl := Option.some.inj hcall
    have hfaithful : c'.Faithful index line := hfaithful
    rw [hfaithful.callSpan.onLine]
    exact ⟨line, hline, fun span hspan => hfaithful.argumentSpan hspan⟩

/-- Two calls in an open one, of which the second stands between the parentheses of the first. -/
theorem closingParen_isLeast_and_callSpans_nested_open :
    closingParen "p::q(a::b(c::d(1))".toList 4 = none ∧
      closingParen "p::q(a::b(c::d(1))".toList 9 = some 17 ∧
      ∃ span, LibraryCall.argumentSpan?
          ⟨"a", "b", ⟨0, 5, 6⟩, ⟨0, 8, 9⟩, ⟨0, 5, 18⟩, some "c::d(1)", false, false⟩ = some span ∧
        Span.StrictlyInside ⟨0, 10, 17⟩ span := by
  have hopen : ∀ column < 18, ¬ClosesAt "p::q(a::b(c::d(1))".toList 4 column := by decide +kernel
  have hleast : ∀ column < 18, ClosesAt "p::q(a::b(c::d(1))".toList 9 column → 17 ≤ column := by
    decide +kernel
  have hcalls : (events "p::q(a::b(c::d(1))".toList).filterMap Event.call? =
      [⟨"p", "q", ⟨0, 0, 1⟩, ⟨0, 3, 4⟩, ⟨0, 0, 5⟩, none, false, false⟩,
        ⟨"a", "b", ⟨0, 5, 6⟩, ⟨0, 8, 9⟩, ⟨0, 5, 18⟩, some "c::d(1)", false, false⟩,
        ⟨"c", "d", ⟨0, 10, 11⟩, ⟨0, 13, 14⟩, ⟨0, 10, 17⟩, some "1", false, false⟩] := by
    decide +kernel
  have hnested := (closingParen_isLeast_and_callSpans_nested.2 "p::q(a::b(c::d(1))".toList).1
  rw [hcalls] at hnested
  have hpair := List.pairwise_pair.1 (List.pairwise_cons.1 hnested).2
  have hinner := (hpair rfl).resolve_left (by decide)
  exact ⟨(closingParen_isLeast_and_callSpans_nested.1 _ _ (by decide +kernel)).2.2
      fun column hcolumn => hopen column hcolumn.inside hcolumn,
    ((closingParen_isLeast_and_callSpans_nested.1 _ _ (by decide +kernel)).1 17).2
      ⟨by decide +kernel, fun column hcolumn => hleast column hcolumn.inside hcolumn⟩, hinner⟩

end RazenLint
