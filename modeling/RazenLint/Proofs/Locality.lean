import RazenLint.Analysis
import RazenLint.Proofs.Event.Shift

/-!
# Diagnostics and their lines

A diagnostic is about one line of a text and depends on nothing else in it. Behind
complete lines a text has the diagnostics that it has by itself, further down
(`diagnose_append`), and what is written on one line does not matter to the diagnostics
of the other lines (`exists_filter_diagnose`). `analyze_append` says both of an analysis.
-/

namespace RazenLint

open Text

/-! ## Diagnostics further down -/

/-- The same characters on lines further down. -/
def Range.shift (range : Range) (lines : Nat) : Range :=
  ⟨{ range.start with line := range.start.line + lines },
    { range.stop with line := range.stop.line + lines }⟩

/-- A diagnostic that says the same on a line further down. -/
def Diagnostic.shift (d : Diagnostic) (lines : Nat) : Diagnostic :=
  { d with range := d.range.shift lines }

theorem Finding.diagnostic_mapSpan (f : Finding) (lines : Nat) :
    (f.mapSpan (·.shift lines)).diagnostic = f.diagnostic.shift lines := by
  cases f <;> rfl

/-- The diagnostics of a text behind complete lines. -/
theorem diagnose_append {front : List Char} (h : EndsLine front) (back : List Char) :
    diagnose (front ++ back) =
      diagnose front ++ (diagnose back).map (·.shift (lines front).length) := by
  have hfindings : ∀ (lines : Nat) (es : List Event),
      (((es.map (Event.mapSpans (·.shift lines))).flatMap Event.orderedFindings).map
        Finding.diagnostic) =
      ((es.flatMap Event.orderedFindings).map Finding.diagnostic).map (·.shift lines) := by
    intro lines es
    rw [List.flatMap_map, List.map_map, List.map_flatMap, List.map_flatMap]
    congr 1
    ext1 e
    rw [Event.orderedFindings_mapSpans, List.map_map]
    exact List.map_congr_left fun f _ => f.diagnostic_mapSpan lines
  rw [diagnose_eq, diagnose_eq, diagnose_eq, events_append h, List.flatMap_append,
    List.map_append, hfindings]

/-! ## The line of a diagnostic -/

/-- A diagnostic is made from a finding of an event on one of the lines. -/
theorem exists_line_of_mem_diagnose {text : List Char} {d : Diagnostic} (h : d ∈ diagnose text) :
    ∃ i line, (lines text)[i]? = some line ∧
      ∃ e ∈ eventsOfLine i line, ∃ f ∈ e.orderedFindings, d = f.diagnostic := by
  rw [diagnose_eq] at h
  obtain ⟨f, hf, rfl⟩ := List.mem_map.1 h
  obtain ⟨e, he, hf⟩ := List.mem_flatMap.1 hf
  obtain ⟨i, line, hline, he⟩ := mem_eventsFrom_iff.1 he
  rw [Nat.zero_add] at he
  exact ⟨i, line, hline, e, he, f, hf, rfl⟩

theorem line_lt_of_mem_diagnose {text : List Char} {d : Diagnostic} (h : d ∈ diagnose text) :
    d.range.start.line < (lines text).length := by
  obtain ⟨i, line, hline, e, he, f, hf, rfl⟩ := exists_line_of_mem_diagnose h
  have hi : i < (lines text).length := (List.getElem?_eq_some_iff.1 hline).1
  have hspan : f.span.line = i := line_of_mem_orderedFindings (List.mem_flatMap.2 ⟨e, he, hf⟩)
  rwa [← hspan] at hi

/-- Complete lines keep their diagnostics, and those behind them begin below. -/
theorem filter_diagnose_append {front : List Char} (h : EndsLine front) (back : List Char) :
    (diagnose (front ++ back)).filter (·.range.start.line ≠ (lines front).length) =
      diagnose front ++ ((diagnose back).filter (·.range.start.line ≠ 0)).map
        (·.shift (lines front).length) := by
  have hfront : (diagnose front).filter (·.range.start.line ≠ (lines front).length) =
      diagnose front := by
    refine List.filter_eq_self.2 fun d hd => ?_
    simpa using Nat.ne_of_lt (line_lt_of_mem_diagnose hd)
  have hback : (diagnose back).filter
      ((fun d : Diagnostic => decide (d.range.start.line ≠ (lines front).length)) ∘
        (·.shift (lines front).length)) = (diagnose back).filter (·.range.start.line ≠ 0) := by
    refine List.filter_congr fun d _ => ?_
    simp [Diagnostic.shift, Range.shift]
  rw [diagnose_append h, List.filter_append, hfront, List.filter_map, hback]

/-- A single line has no diagnostics below it. -/
theorem filter_diagnose_eq_nil {text : List Char} (h : (lines text).length ≤ 1) :
    (diagnose text).filter (·.range.start.line ≠ 0) = [] := by
  refine List.filter_eq_nil_iff.2 fun d hd => ?_
  have := line_lt_of_mem_diagnose hd
  simp
  omega

/-- The diagnostics of the other lines are the same, whatever is written on the line
behind complete lines. -/
theorem exists_filter_diagnose {front rest : List Char} (h : EndsLine front)
    (hrest : rest = [] ∨ rest.head? = some '\n') : ∃ others, ∀ line : List Char, '\n' ∉ line →
      (diagnose (front ++ (line ++ rest))).filter (·.range.start.line ≠ (lines front).length) =
        others := by
  rcases hrest with rfl | hrest
  · refine ⟨diagnose front, fun line hline => ?_⟩
    rw [List.append_nil, filter_diagnose_append h,
      filter_diagnose_eq_nil (length_lines_le_one hline)]
    exact List.append_nil _
  · obtain ⟨below, rfl⟩ := List.head?_eq_some_iff.1 hrest
    refine ⟨diagnose front ++ ((diagnose below).map (·.shift 1)).map
      (·.shift (lines front).length), fun line hline => ?_⟩
    have hone : (lines (line ++ ['\n'])).length = 1 := by
      rw [lines_concat_newline hline]
      rfl
    have hbelow : ((diagnose below).map (·.shift 1)).filter (·.range.start.line ≠ 0) =
        (diagnose below).map (·.shift 1) := by
      refine List.filter_eq_self.2 fun d hd => ?_
      obtain ⟨d, -, rfl⟩ := List.mem_map.1 hd
      simp [Diagnostic.shift, Range.shift]
    have hsplit : line ++ '\n' :: below = (line ++ ['\n']) ++ below := by simp
    rw [filter_diagnose_append h, hsplit, diagnose_append (endsLine_concat line),
      List.filter_append, filter_diagnose_eq_nil hone.le, List.nil_append, hone, hbelow]

/-- The diagnostics of a text that is put behind complete lines are those of the lines
and then those of the text, further down and otherwise the same. So editing one line
changes no diagnostic of another line. -/
theorem analyze_append (document : String) {a : String} (h : EndsLine a.toList) :
    (∀ b : String, (analyze document (a ++ b)).diagnostics =
      (analyze document a).diagnostics ++
        (analyze document b).diagnostics.map (·.shift (lines a.toList).length)) ∧
    ∀ old new rest : String, '\n' ∉ old.toList → '\n' ∉ new.toList →
      (rest = "" ∨ rest.toList.head? = some '\n') →
      (analyze document (a ++ (old ++ rest))).diagnostics.filter
          (·.range.start.line ≠ (lines a.toList).length) =
        (analyze document (a ++ (new ++ rest))).diagnostics.filter
          (·.range.start.line ≠ (lines a.toList).length) := by
  constructor
  · intro b
    simp only [analyze, String.toList_append]
    exact diagnose_append h b.toList
  · intro old new rest hold hnew hrest
    have hrest : rest.toList = [] ∨ rest.toList.head? = some '\n' :=
      hrest.imp_left fun hempty => by rw [hempty]; rfl
    obtain ⟨others, hothers⟩ := exists_filter_diagnose h hrest
    simp only [analyze, String.toList_append]
    rw [hothers old.toList hold, hothers new.toList hnew]

/-- Two lines with carriage returns, and the second one edited. -/
theorem analyze_append_returns :
    EndsLine "let n = \"one\"\r\n".toList ∧
      (analyze "" ("let n = \"one\"\r\n" ++ "lib nope\r\nnope::run()")).diagnostics =
        (analyze "" "let n = \"one\"\r\n").diagnostics ++
          (analyze "" "lib nope\r\nnope::run()").diagnostics.map
            (·.shift (lines "let n = \"one\"\r\n".toList).length) ∧
      (analyze "" ("let n = \"one\"\r\n" ++ ("lib nope\r" ++ "\nnope::run()"))).diagnostics.filter
          (·.range.start.line ≠ (lines "let n = \"one\"\r\n".toList).length) =
        (analyze "" ("let n = \"one\"\r\n" ++ ("lib os" ++ "\nnope::run()"))).diagnostics.filter
          (·.range.start.line ≠ (lines "let n = \"one\"\r\n".toList).length) :=
  have h : EndsLine "let n = \"one\"\r\n".toList := by decide
  ⟨h, (analyze_append "" h).1 _,
    (analyze_append "" h).2 "lib nope\r" "lib os" "\nnope::run()" (by decide) (by decide)
      (Or.inr (by decide))⟩

end RazenLint
