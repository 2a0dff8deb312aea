import RazenLint.Proofs.Event.Bytes
import RazenLint.Proofs.Locality

/-!
# What events say about the text

An event is faithful to its line (`Event.Faithful`) : every span in it covers characters
of the line, at the span of a name the line holds this name, and at the span of a call it
holds the call as it is written. `faithful_of_mem_events` : each event of a text is
faithful to one of its lines. A name and a head are read in code, where the line and its
masked form agree (`exists_placed_of_mem_callHeads`), and the arguments of a call are cut
out of the line itself (`exists_append_of_closingDistance`).

So the range of a diagnostic covers characters of one line (`covers_of_mem_diagnose`).
-/

namespace RazenLint

open Text

/-! ## Faithful events -/

/-- A span that covers characters of a line with the given index. -/
structure Span.Covers (span : Span) (index : Nat) (line : List Char) : Prop where
  onLine : span.line = index
  nonempty : span.start < span.stop
  inside : span.stop ≤ line.length

/-- The span of a name covers the name, and the statement stands on the line. -/
structure Declaration.Faithful (d : Declaration) (index : Nat) (line : List Char) : Prop where
  nameSpan : d.nameSpan.Covers index line
  name : d.nameSpan.slice line = d.name.toList
  statementSpan : d.statementSpan.Covers index line

structure Import.Faithful (i : Import) (index : Nat) (line : List Char) : Prop where
  span : i.span.Covers index line
  name : i.span.slice line = i.name.toList

/-- A call from its library to its opening parenthesis, with the given blanks in front of
the parenthesis. -/
def LibraryCall.written (c : LibraryCall) (blanks : List Char) : List Char :=
  CallHead.written ⟨c.library.toList, c.function.toList, c.legacy, blanks.length⟩ blanks

/-- The spans cover the library, the function and the call, and the call is its head and
then its arguments with the closing parenthesis, or the head alone. -/
structure LibraryCall.Faithful (c : LibraryCall) (index : Nat) (line : List Char) : Prop where
  librarySpan : c.librarySpan.Covers index line
  functionSpan : c.functionSpan.Covers index line
  callSpan : c.callSpan.Covers index line
  library : c.librarySpan.slice line = c.library.toList
  function : c.functionSpan.slice line = c.function.toList
  start : c.callSpan.start = c.librarySpan.start
  contains : c.callSpan.start ≤ c.functionSpan.start ∧ c.functionSpan.stop ≤ c.callSpan.stop
  text : ∃ blanks, (∀ b ∈ blanks, isBlank b = true) ∧ c.callSpan.slice line =
    match c.arguments with
    | some arguments => c.written blanks ++ (arguments.toList ++ [')'])
    | none => c.written blanks

def Event.Faithful (index : Nat) (line : List Char) : Event → Prop
  | declaration d => d.Faithful index line
  | imported i => i.Faithful index line
  | call c => c.Faithful index line

/-! ## Spans of parts of a line -/

section

variable (index : Nat) (front part back : List Char)

theorem Span.slice_append :
    Span.slice ⟨index, front.length, front.length + part.length⟩ (front ++ (part ++ back)) =
      part := by
  rw [slice, length, Nat.add_sub_cancel_left, List.drop_left, List.take_left]

theorem Span.covers_append (h : part ≠ []) :
    Span.Covers ⟨index, front.length, front.length + part.length⟩ index
      (front ++ (part ++ back)) := by
  have hpos := List.length_pos_iff.2 h
  refine ⟨rfl, ?_, ?_⟩
  · change front.length < front.length + part.length
    omega
  · simp only [List.length_append]
    omega

end

/-! ## Words -/

variable (index : Nat) {line : List Char}

/-- The span of the second word. -/
theorem covers_second {words : WordPair} (h : wordPair? (code line) = some words) :
    let span : Span := ⟨index, words.secondColumn, words.secondColumn + words.second.length⟩
    span.Covers index line ∧ span.slice line = words.second := by
  obtain ⟨indent, gap, back, hline, -, -, -, -, hsecond, -, hcolumn⟩ := exists_line_of_wordPair? h
  have hline : line = (indent ++ (words.first ++ gap)) ++ (words.second ++ back) := by
    rw [hline]
    simp
  rw [hcolumn, hline]
  exact ⟨Span.covers_append _ _ _ _ (ne_nil_of_isIdent hsecond), Span.slice_append _ _ _ _⟩

theorem Declaration.faithful_ofAssignment {a : Assignment}
    (h : assignment? (code line) = some a) :
    (Declaration.ofAssignment index line a).Faithful index line := by
  obtain ⟨words, value, hwords, -, -, -, hkeywordColumn, -, hname, hnameColumn, -⟩ :=
    of_assignment? h
  have hsecond := covers_second index hwords
  have htrim : (trimEnd (code line)).length ≤ line.length :=
    ((trimEnd_sublist (code line)).length_le).trans (length_code_le line)
  obtain ⟨indent, gap, after, hcode, -, -, -, hfirst, -, hfirstColumn, -⟩ := of_wordPair? hwords
  obtain ⟨c, cs, hcs, hc⟩ := exists_cons_of_isIdent hfirst
  have hstart : (code line)[indent.length]? = some c := by
    rw [hcode, hcs]
    simp
  have hnonempty := lt_length_trimEnd hstart (isBlank_of_isIdentStart hc)
  rw [← hname, ← hnameColumn] at hsecond
  refine ⟨hsecond.1, ?_, rfl, ?_, htrim⟩
  · rw [ofAssignment, String.toList_ofList]
    exact hsecond.2
  · rw [ofAssignment, hkeywordColumn, hfirstColumn]
    exact hnonempty

theorem Import.faithful_ofWords {words : WordPair} (h : importWords? (code line) = some words) :
    (Import.ofWords index words).Faithful index line := by
  obtain ⟨words, hwords, h⟩ := Option.bind_eq_some_iff.1 h
  obtain ⟨-, h⟩ := Option.ite_none_right_eq_some.1 h
  cases h
  have hsecond := covers_second index hwords
  refine ⟨hsecond.1, ?_⟩
  rw [ofWords, String.toList_ofList]
  exact hsecond.2

/-! ## Calls -/

/-- A head is written in its call as it is written in the line. -/
theorem LibraryCall.written_ofHead {head : CallHead} {blanks : List Char}
    (hfits : head.Fits blanks) (bound : Bool) (column : Nat) :
    (LibraryCall.ofHead index line bound column head).written blanks = head.written blanks := by
  simp only [written, ofHead, String.toList_ofList, hfits.length]

/-- The span of a call covers the head, and the arguments with their parenthesis when the
line closes them. -/
theorem LibraryCall.exists_callSpan_ofHead {front blanks : List Char} {head : CallHead}
    (hplaced : head.Placed front blanks) (bound : Bool) (back : List Char) :
    let line := front ++ (head.written blanks ++ back)
    let c := LibraryCall.ofHead index line bound front.length head
    ∃ part back', part ≠ [] ∧ line = front ++ (part ++ back') ∧
      c.callSpan = ⟨index, front.length, front.length + part.length⟩ ∧
      (head.written blanks).length ≤ part.length ∧
      part = match c.arguments with
        | some arguments => c.written blanks ++ (arguments.toList ++ [')'])
        | none => c.written blanks := by
  intro line c
  have hfits := hplaced.fits
  have hlength := CallHead.length_written hfits.length
  have hwritten : c.written blanks = head.written blanks := written_ofHead _ hfits bound _
  have hne : head.written blanks ≠ [] := fun hnil => by simp [hnil] at hlength
  have hclosing := closingParen_written hfits hplaced.reading hplaced.uncommented back
  rw [hwritten]
  cases hclosed : closingDistance 1 (codeFrom .code back) with
  | none =>
    rw [hclosed, Option.map_none] at hclosing
    refine ⟨head.written blanks, back, hne, rfl, ?_, le_rfl, ?_⟩
    · simp only [c, line, ofHead, hclosing, hlength]
      rfl
    · simp only [c, line, ofHead, hclosing]
      rfl
  | some n =>
    obtain ⟨arguments, tail, hback, rfl, -⟩ := exists_append_of_closingDistance hclosed
    rw [hclosed, Option.map_some] at hclosing
    have hslice : between line (front.length + head.openingOffset + 1)
        (arguments.length + (front.length + (head.openingOffset + 1))) = arguments := by
      have hsplit : line = (front ++ head.written blanks) ++ (arguments ++ ')' :: tail) := by
        simp only [line, hback, List.append_assoc]
      have hstart : front.length + head.openingOffset + 1 =
          (front ++ head.written blanks).length := by
        rw [List.length_append, hlength]
        rfl
      rw [between, hsplit, hstart, List.drop_left, List.length_append, hlength,
        Nat.add_sub_cancel, List.take_left]
    refine ⟨head.written blanks ++ (arguments ++ [')']), tail, by simp, ?_, ?_, by simp, ?_⟩
    · simp [line, hback]
    · simp only [c, ofHead]
      rw [hclosing]
      simp only [Option.getD_some, List.length_append, List.length_singleton, hlength,
        Span.mk.injEq, true_and]
      omega
    · simp only [c, ofHead]
      rw [hclosing]
      simp only [Option.map_some, hslice, String.toList_ofList]

/-- A call is faithful to the line in which its head is found. -/
theorem LibraryCall.faithful_ofHead (bound : Bool) {column : Nat} {head : CallHead}
    (h : (column, head) ∈ callHeads (code line)) :
    (LibraryCall.ofHead index line bound column head).Faithful index line := by
  obtain ⟨front, blanks, back, rfl, rfl, hplaced⟩ := exists_placed_of_mem_callHeads h
  have hfits := hplaced.fits
  have hlength := CallHead.length_written hfits.length
  obtain ⟨part, back', hne, hline, hspan, hle, hpart⟩ :=
    exists_callSpan_ofHead index hplaced bound back
  have hlibrary : front ++ (head.written blanks ++ back) =
      front ++ (head.library ++ (head.opener ++ (head.function ++ (head.closer blanks ++ back)))) :=
    congrArg (front ++ ·) (head.written_append blanks back)
  have hfunction : front ++ (head.written blanks ++ back) =
      (front ++ (head.library ++ head.opener)) ++
        (head.function ++ (head.closer blanks ++ back)) := by
    rw [hlibrary]
    simp
  have hcolumn : front.length + head.functionOffset =
      (front ++ (head.library ++ head.opener)).length := by
    rw [List.length_append, List.length_append, CallHead.length_opener]
  refine ⟨?_, ?_, ?_, ?_, ?_, rfl, ⟨?_, ?_⟩, blanks, hfits.blank, ?_⟩
  · rw [hlibrary]
    exact Span.covers_append _ _ _ _ (ne_nil_of_isIdent hfits.library)
  · simp only [ofHead]
    rw [hcolumn, hfunction]
    exact Span.covers_append _ _ _ _ (ne_nil_of_isIdent hfits.function)
  · rw [hspan, hline]
    exact Span.covers_append _ _ _ _ hne
  · simp only [ofHead, String.toList_ofList]
    rw [hlibrary]
    exact Span.slice_append _ _ _ _
  · simp only [ofHead, String.toList_ofList]
    rw [hcolumn, hfunction]
    exact Span.slice_append _ _ _ _
  · exact Nat.le_add_right _ _
  · rw [hspan]
    simp only [ofHead]
    have : head.functionOffset + head.function.length ≤ head.openingOffset := by
      unfold CallHead.openingOffset
      omega
    omega
  · rw [← hpart, hspan]
    conv_lhs => rw [hline]
    exact Span.slice_append _ _ _ _

/-! ## Events of a text -/

theorem faithful_of_mem_eventsOfLine {e : Event} (h : e ∈ eventsOfLine index line) :
    e.Faithful index line := by
  rcases of_mem_eventsOfLine h with ⟨a, ha, rfl⟩ | ⟨words, hwords, rfl⟩ |
    ⟨column, head, bound, hhead, rfl⟩
  · exact Declaration.faithful_ofAssignment index ha
  · exact Import.faithful_ofWords index hwords
  · exact LibraryCall.faithful_ofHead index bound hhead

/-- An event of a text is faithful to one of its lines. -/
theorem faithful_of_mem_events {text : List Char} {e : Event} (h : e ∈ events text) :
    ∃ index line, (lines text)[index]? = some line ∧ e.Faithful index line := by
  obtain ⟨i, line, hline, he⟩ := mem_eventsFrom_iff.1 h
  rw [Nat.zero_add] at he
  exact ⟨i, line, hline, faithful_of_mem_eventsOfLine i he⟩

/-- What is found about a faithful event is found on its line. -/
theorem Event.Faithful.covers {index : Nat} {e : Event} (he : e.Faithful index line) {f : Finding}
    (hf : f ∈ e.orderedFindings) : f.span.Covers index line := by
  cases e with
  | declaration d =>
    rw [Declaration.span_of_mem_findings hf]
    exact he.statementSpan
  | imported i =>
    rw [Import.span_of_mem_findings hf]
    exact he.span
  | call c =>
    rcases LibraryCall.span_of_mem_orderedFindings hf with h | h | h <;> rw [h]
    · exact he.librarySpan
    · exact he.functionSpan
    · exact he.callSpan

/-- The range of a diagnostic covers characters of one line. -/
theorem covers_of_mem_diagnose {text : List Char} {d : Diagnostic} (h : d ∈ diagnose text) :
    ∃ line, (lines text)[d.range.start.line]? = some line ∧
      d.range.stop.line = d.range.start.line ∧
      d.range.start.character < d.range.stop.character ∧
      d.range.stop.character ≤ line.length := by
  obtain ⟨i, line, hline, e, he, f, hf, rfl⟩ := exists_line_of_mem_diagnose h
  have hcovers := (faithful_of_mem_eventsOfLine i he).covers hf
  have hi : i = f.diagnostic.range.start.line := hcovers.onLine.symm
  rw [hi] at hline
  exact ⟨line, hline, rfl, hcovers.nonempty, hcovers.inside⟩

/-- Extraction in byte offsets never leaves a line and never cuts a character, and finds
the events of the text. Each of these is faithful to a line of the text, and so the range of
every diagnostic covers characters of one line. -/
theorem extraction_faithful (text : String) :
    eventsInBytes? text.toList = some (events text.toList) ∧
    (∀ e ∈ events text.toList, ∃ index line,
      (lines text.toList)[index]? = some line ∧ e.Faithful index line) ∧
    ∀ document, ∀ d ∈ (analyze document text).diagnostics, ∃ line,
      (lines text.toList)[d.range.start.line]? = some line ∧
      d.range.stop.line = d.range.start.line ∧
      d.range.start.character < d.range.stop.character ∧
      d.range.stop.character ≤ line.length :=
  ⟨eventsInBytes?_eq text.toList, fun _ he => faithful_of_mem_events he,
    fun _ _ hd => covers_of_mem_diagnose hd⟩

/-- A character of two bytes in a literal in front of a call counts as one column. -/
example : (eventsInBytes? "show \"é\", strlib::trim(x)".toList).map
    (·.filterMap fun e => e.call?.map (·.librarySpan)) = some [⟨0, 10, 16⟩] := by
  decide +kernel

end RazenLint
