import RazenLint.Proofs.Fix.Announced

/-!
# Actions for ranges that a client names

A client can ask for actions with diagnostics of its own, or with old ones, so their ranges
are any ranges. A range leads to an action when it holds a text in the form of a call
(`LegacyCall.StandsIn`), whatever the text around it says. Such a range is one that the
analysis itself reports exactly when the call is one of the code of its line
(`LegacyCall.InCode`) : its library is known, its names are identifiers, it begins at a word
boundary outside literals and comments, and its last character is the parenthesis that
closes the first one (`exists_reported_iff`). Indexing, text in a literal and two calls in
one range have the form of a call and are not reported.
-/

namespace RazenLint

open Text

namespace LegacyCall

/-- A call that a range of a text holds from end to end, with what stands around it on its
line. -/
structure StandsIn (call : LegacyCall) (text : List Char) (range : Range)
    (front blanks back : List Char) : Prop where
  fits : call.Fits blanks
  line : (lines text)[range.start.line]? = some (front ++ (call.written blanks ++ back))
  range_eq : range =
    .ofSpan ⟨range.start.line, front.length, front.length + (call.written blanks).length⟩

/-- The head of a call with the given blanks. -/
def head (call : LegacyCall) (blanks : List Char) : CallHead :=
  ⟨call.library, call.function, true, blanks.length⟩

/-- A call of the code of a line, with a known library. -/
structure InCode (call : LegacyCall) (front blanks back : List Char) : Prop where
  registered : isLibraryName (String.ofList call.library) = true
  placed : (call.head blanks).Placed front blanks
  /-- The last parenthesis closes the one behind the head. -/
  closes : closingDistance 1 (codeFrom .code (call.arguments ++ ')' :: back)) =
    some call.arguments.length

variable {call : LegacyCall} {text : List Char} {range : Range} {front blanks back : List Char}

theorem StandsIn.slice (h : call.StandsIn text range front blanks back) :
    sliceRange? text range = some (call.written blanks) :=
  sliceRange?_eq_some_iff.2 ⟨front, back, h.line, h.range_eq⟩

/-- A call as its head with its arguments. -/
theorem written_append (call : LegacyCall) (blanks back : List Char) :
    call.written blanks ++ back =
      (call.head blanks).written blanks ++ (call.arguments ++ ')' :: back) := by
  rw [CallHead.written_append_of_legacy rfl]
  simp [written, head]

end LegacyCall

/-- A diagnostic leads to an action exactly when its range holds a call. -/
theorem exists_propose?_iff (document : String) {text : List Char} {d : Diagnostic} :
    (∃ a, propose? document text d = some a) ↔ d.fixCode = some .deprecatedCallForm ∧
      ∃ call front blanks back, LegacyCall.StandsIn call text d.range front blanks back := by
  constructor
  · rintro ⟨a, ha⟩
    obtain ⟨hcode, call, blanks, hfits, hslice, -⟩ := propose?_eq_some_iff.1 ha
    obtain ⟨front, back, hline, hrange⟩ := sliceRange?_eq_some_iff.1 hslice
    exact ⟨hcode, call, front, blanks, back, hfits, hline, hrange⟩
  · rintro ⟨hcode, call, front, blanks, back, h⟩
    exact ⟨_, propose?_eq_some_iff.2 ⟨hcode, call, blanks, h.fits, h.slice, rfl⟩⟩

/-! ## Ranges that are reported -/

/-- The ranges that are reported are those of the announced calls. -/
theorem exists_reported_iff_deprecatedCalls {text : List Char} {range : Range} :
    (∃ r ∈ diagnose text, r.rule = .deprecatedCall ∧ r.range = range) ↔
      ∃ p ∈ deprecatedCalls text, .ofSpan p.call.callSpan = range := by
  constructor
  · rintro ⟨r, hr, hrule, rfl⟩
    have hmem : r ∈ (diagnose text).filter (·.rule = .deprecatedCall) :=
      List.mem_filter.2 ⟨hr, by simpa using hrule⟩
    rw [filter_diagnose] at hmem
    obtain ⟨p, hp, rfl⟩ := List.mem_map.1 hmem
    exact ⟨p, hp, rfl⟩
  · rintro ⟨p, hp, rfl⟩
    have hmem : p.finding.diagnostic ∈ (diagnose text).filter (·.rule = .deprecatedCall) := by
      rw [filter_diagnose]
      exact List.mem_map_of_mem hp
    exact ⟨_, (List.mem_filter.1 hmem).1, rfl, rfl⟩

namespace LegacyCall

variable {call : LegacyCall} {text : List Char} {range : Range} {front blanks back : List Char}

/-- A call of the code is announced, with its range. -/
theorem InCode.exists_deprecatedCall (h : call.InCode front blanks back)
    (hstands : call.StandsIn text range front blanks back) :
    ∃ p ∈ deprecatedCalls text, .ofSpan p.call.callSpan = range := by
  have hline := hstands.line
  rw [written_append] at hline
  obtain ⟨p, hp, bound, hcall⟩ := exists_deprecatedCall_of_placed hline h.placed rfl h.registered
  obtain ⟨part, -, -, -, hspan, -, hpart⟩ := LibraryCall.exists_callSpan_ofHead range.start.line
    h.placed bound (call.arguments ++ ')' :: back)
  have harguments := LibraryCall.arguments_ofHead range.start.line h.placed bound
    (call.arguments ++ ')' :: back)
  rw [h.closes, Option.map_some, List.take_left] at harguments
  rw [harguments, LibraryCall.written_ofHead _ h.placed.fits] at hpart
  dsimp only at hpart
  rw [String.toList_ofList, written_of_legacy rfl] at hpart
  refine ⟨p, hp, ?_⟩
  rw [hcall, hspan, hpart]
  exact hstands.range_eq.symm

/-- A call that is announced is one of the code. -/
theorem StandsIn.inCode (h : call.StandsIn text range front blanks back) {p : DeprecatedCall}
    (hp : p ∈ deprecatedCalls text) (hrange : .ofSpan p.call.callSpan = range) :
    call.InCode front blanks back := by
  obtain ⟨front', blanks', back', hstands⟩ := exists_stands_of_mem_deprecatedCalls hp
  obtain ⟨-, hlegacy, hlibrary⟩ := mem_deprecatedCalls_iff.1 hp
  have hslice := hstands.slice
  change sliceRange? text (.ofSpan p.call.callSpan) = _ at hslice
  rw [hrange, h.slice, Option.some.injEq] at hslice
  cases harguments : p.call.arguments with
  | none =>
    rw [harguments] at hslice
    exact absurd hslice (call.written_ne_head blanks _ blanks')
  | some arguments =>
    rw [harguments] at hslice
    dsimp only at hslice
    rw [LibraryCall.written, hlegacy, written_of_legacy rfl] at hslice
    obtain ⟨rfl, rfl⟩ := written_inj h.fits (fits_of_head hstands.placed.fits _) hslice
    -- both readers have the same line and begin in the same column
    have hline := hstands.line
    have hspan : p.call.callSpan.line = range.start.line := congrArg (·.start.line) hrange
    rw [hspan, h.line, Option.some.injEq] at hline
    have hstart : front.length = front'.length := by
      rw [← hstands.start]
      exact (congrArg (·.start.character) (hrange.trans h.range_eq)).symm
    obtain ⟨rfl, hrest⟩ := List.append_inj hline hstart
    rw [written_append, LibraryCall.written, hlegacy] at hrest
    obtain rfl := List.append_cancel_left hrest
    refine ⟨?_, hstands.placed, ?_⟩
    · rw [String.ofList_toList, isLibraryName, hlibrary]
      rfl
    · have hcloses := hstands.arguments
      rw [harguments] at hcloses
      obtain ⟨n, hn, htake⟩ := Option.map_eq_some_iff.1 hcloses.symm
      obtain ⟨inner, tail, hback, rfl, -⟩ := exists_append_of_closingDistance hn
      rw [hn, ← htake, hback, List.take_left, String.toList_ofList]

end LegacyCall

/-- A range that holds a call is reported exactly when the call is one of the code. -/
theorem exists_reported_iff {call : LegacyCall} {text : List Char} {range : Range}
    {front blanks back : List Char} (h : call.StandsIn text range front blanks back) :
    (∃ r ∈ diagnose text, r.rule = .deprecatedCall ∧ r.range = range) ↔
      call.InCode front blanks back := by
  rw [exists_reported_iff_deprecatedCalls]
  constructor
  · rintro ⟨p, hp, hrange⟩
    exact h.inCode hp hrange
  · exact fun hcode => hcode.exists_deprecatedCall h

/-- Two calls in one range have the form of a call, whose last parenthesis does not close
the first one. -/
example : LegacyCall.ofText? "MathLib[abs](1) + MathLib[abs](2)".toList =
      some ⟨"MathLib".toList, "abs".toList, "1) + MathLib[abs](2".toList⟩ ∧
    closingDistance 1 (codeFrom .code "1) + MathLib[abs](2)".toList) = some 1 := by
  decide +kernel

/-! ## The actions for diagnostics of a client -/

/-- Whatever diagnostics a client names, an action stands in the range of one of them, which
has a fix code and holds a call from end to end, and such a diagnostic always has its
action. The analysis reports the range itself exactly when the call is one of the code. -/
theorem codeActions_ranges (document text : String) (diagnostics : List Diagnostic) :
    (∀ a ∈ codeActions document text.toList diagnostics, ∃ d ∈ diagnostics,
      a.diagnostics = [d] ∧ a.edit.range = d.range ∧ d.fixCode = some .deprecatedCallForm ∧
      ∃ call front blanks back, LegacyCall.StandsIn call text.toList d.range front blanks back ∧
        a = .replace document d call.modern ∧
        ((∃ r ∈ (analyze document text).diagnostics,
          r.rule = .deprecatedCall ∧ r.range = a.edit.range) ↔ call.InCode front blanks back)) ∧
    ∀ d ∈ diagnostics, (∃ a ∈ codeActions document text.toList diagnostics, a.diagnostics = [d]) ↔
      d.fixCode = some .deprecatedCallForm ∧ ∃ call front blanks back,
        LegacyCall.StandsIn call text.toList d.range front blanks back := by
  constructor
  · intro a ha
    obtain ⟨d, hd, ha⟩ := List.mem_filterMap.1 ha
    obtain ⟨hcode, call, blanks, hfits, hslice, rfl⟩ := propose?_eq_some_iff.1 ha
    obtain ⟨front, back, hline, hrange⟩ := sliceRange?_eq_some_iff.1 hslice
    exact ⟨d, hd, rfl, rfl, hcode, call, front, blanks, back, ⟨hfits, hline, hrange⟩, rfl,
      exists_reported_iff ⟨hfits, hline, hrange⟩⟩
  · intro d hd
    rw [← exists_propose?_iff document]
    constructor
    · rintro ⟨a, ha, hdiagnostics⟩
      obtain ⟨d', -, ha⟩ := List.mem_filterMap.1 ha
      obtain ⟨-, call, blanks, -, -, rfl⟩ := propose?_eq_some_iff.1 ha
      obtain rfl := List.singleton_inj.1 hdiagnostics
      exact ⟨_, ha⟩
    · rintro ⟨a, ha⟩
      obtain ⟨-, call, blanks, -, -, rfl⟩ := propose?_eq_some_iff.1 ha
      exact ⟨_, List.mem_filterMap.2 ⟨d, hd, ha⟩, rfl⟩

/-- Indexing has the form of a call, so a client gets an action for a range that the
analysis does not report. -/
theorem exists_codeAction_unreported :
    ∃ a ∈ codeActions "" "items[i](x)".toList [.ofRange ⟨⟨0, 0⟩, ⟨0, 11⟩⟩],
      a.edit = ⟨⟨⟨0, 0⟩, ⟨0, 11⟩⟩, "items::i(x)"⟩ ∧
      ∀ r ∈ (analyze "" "items[i](x)").diagnostics,
        ¬(r.rule = .deprecatedCall ∧ r.range = a.edit.range) := by
  have hdiagnostics : (analyze "" "items[i](x)").diagnostics = [] := by
    change diagnose "items[i](x)".toList = []
    rw [diagnose_eq]
    decide +kernel
  refine ⟨.replace "" (.ofRange ⟨⟨0, 0⟩, ⟨0, 11⟩⟩) "items::i(x)", by decide +kernel, rfl, ?_⟩
  simp [hdiagnostics]

end RazenLint
