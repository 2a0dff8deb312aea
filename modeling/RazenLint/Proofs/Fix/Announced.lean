import RazenLint.Proofs.Faithful
import RazenLint.Proofs.Fix.Range

/-!
# The fixes that are announced

A diagnostic about the form of a call announces the current form in its message, with the
library's own name and with arguments that were cut out of the line between parentheses that
match. The action for the diagnostic reads the call again by itself, from the text in the
range. `DeprecatedCall` is a call that is announced, and `codeActions_announced` says that
both sides agree on all of them : the actions are those of the announced calls that are
closed on their line, one for each and in the order of the diagnostics, and each puts the
announced text in place of the call.
-/

namespace RazenLint

open Text

/-! ## Calls that are announced -/

/-- A call in the old form into a known library. -/
structure DeprecatedCall where
  call : LibraryCall
  library : Library

namespace DeprecatedCall

/-- The current form that is announced for a call. -/
def replacement (p : DeprecatedCall) : String :=
  currentForm p.library.name p.call.function p.call.arguments

/-- The finding that announces it. -/
def finding (p : DeprecatedCall) : Finding :=
  .deprecatedCall p.call.library p.call.function p.replacement p.call.callSpan

/-- Whether the line of a call closes its parenthesis. -/
def isClosed (p : DeprecatedCall) : Bool :=
  p.call.arguments.isSome

/-- The action that does what is announced, in the range of the diagnostic. -/
def action (document : String) (p : DeprecatedCall) : CodeAction :=
  .replace document p.finding.diagnostic p.replacement

end DeprecatedCall

/-- A call as one that is announced. -/
def LibraryCall.deprecated? (c : LibraryCall) : Option DeprecatedCall :=
  if c.legacy then (Library.resolve? c.library).map (⟨c, ·⟩) else none

def Event.deprecated? (e : Event) : Option DeprecatedCall :=
  e.call?.bind LibraryCall.deprecated?

/-- The calls of a text that are announced, in text order. -/
def deprecatedCalls (text : List Char) : List DeprecatedCall :=
  (events text).filterMap Event.deprecated?

theorem Event.deprecated?_eq_some_iff {e : Event} {p : DeprecatedCall} :
    e.deprecated? = some p ↔ e = .call p.call ∧ p.call.legacy = true ∧
      Library.resolve? p.call.library = some p.library := by
  constructor
  · intro hp
    obtain ⟨c, hc, hp⟩ := Option.bind_eq_some_iff.1 hp
    obtain ⟨hlegacy, hp⟩ := Option.ite_none_right_eq_some.1 hp
    obtain ⟨library, hlibrary, rfl⟩ := Option.map_eq_some_iff.1 hp
    cases e with
    | declaration d => cases hc
    | imported i => cases hc
    | call c' =>
      cases hc
      exact ⟨rfl, hlegacy, hlibrary⟩
  · rintro ⟨rfl, hlegacy, hlibrary⟩
    rw [Event.deprecated?, Event.call?, Option.bind_some, LibraryCall.deprecated?, if_pos hlegacy,
      hlibrary]
    rfl

/-- An announced call is a call of the text in the old form into a known library. -/
theorem mem_deprecatedCalls_iff {text : List Char} {p : DeprecatedCall} :
    p ∈ deprecatedCalls text ↔ .call p.call ∈ events text ∧ p.call.legacy = true ∧
      Library.resolve? p.call.library = some p.library := by
  simp only [deprecatedCalls, List.mem_filterMap, Event.deprecated?_eq_some_iff]
  constructor
  · rintro ⟨_, he, rfl, h⟩
    exact ⟨he, h⟩
  · rintro ⟨he, h⟩
    exact ⟨_, he, rfl, h⟩

/-! ## Findings about announced calls -/

theorem Declaration.rule_ne_deprecatedCall {d : Declaration} {f : Finding} (h : f ∈ d.findings) :
    f.rule ≠ .deprecatedCall := by
  rcases cases_of_mem_findings h with ⟨_, -, rfl⟩ | ⟨_, _, _, -, -, -, rfl⟩ <;>
    simp [Finding.rule]

theorem Import.rule_ne_deprecatedCall {i : Import} {f : Finding} (h : f ∈ i.findings) :
    f.rule ≠ .deprecatedCall := by
  unfold findings at h
  split at h
  · exact absurd h List.not_mem_nil
  · rw [List.mem_singleton.1 h]
    simp [Finding.rule]

/-- The findings of an event about the form of a call. -/
theorem Event.filter_findings (e : Event) :
    e.findings.filter (·.rule = .deprecatedCall) =
      e.deprecated?.toList.map DeprecatedCall.finding := by
  cases e with
  | declaration d =>
    exact List.filter_eq_nil_iff.2 fun f hf => by simpa using Declaration.rule_ne_deprecatedCall hf
  | imported i =>
    exact List.filter_eq_nil_iff.2 fun f hf => by simpa using Import.rule_ne_deprecatedCall hf
  | call c =>
    change c.findings.filter _ = c.deprecated?.toList.map _
    unfold LibraryCall.findings LibraryCall.deprecated?
    cases Library.resolve? c.library with
    | none => cases c.legacy <;> rfl
    | some library =>
      cases c.legacy <;> cases library.hasFunction c.function <;>
        simp [Finding.rule, DeprecatedCall.finding, DeprecatedCall.replacement]

/-- The same findings from left to right. -/
theorem Event.filter_orderedFindings (e : Event) :
    e.orderedFindings.filter (·.rule = .deprecatedCall) =
      e.deprecated?.toList.map DeprecatedCall.finding := by
  have hperm := e.perm_orderedFindings.symm.filter (·.rule = .deprecatedCall)
  rw [e.filter_findings] at hperm
  cases hp : e.deprecated? with
  | none =>
    rw [hp] at hperm
    exact hperm.eq_nil
  | some p =>
    rw [hp] at hperm
    exact List.perm_singleton.1 hperm

/-- What each event of a text adds, put together. -/
theorem filter_flatMap_eq {find : Event → List Finding}
    (h : ∀ e, (find e).filter (·.rule = .deprecatedCall) =
      e.deprecated?.toList.map DeprecatedCall.finding) (es : List Event) :
    (es.flatMap find).filter (·.rule = .deprecatedCall) =
      (es.filterMap Event.deprecated?).map DeprecatedCall.finding := by
  induction es with
  | nil => rfl
  | cons e es ih =>
    rw [List.flatMap_cons, List.filter_append, h, ih, List.filterMap_cons]
    cases e.deprecated? <;> rfl

/-! ## Where they stand -/

/-- The arguments of a call are cut out of the line behind its head. -/
theorem LibraryCall.arguments_ofHead (index : Nat) {front blanks : List Char} {head : CallHead}
    (hplaced : head.Placed front blanks) (bound : Bool) (back : List Char) :
    (LibraryCall.ofHead index (front ++ (head.written blanks ++ back)) bound front.length
      head).arguments =
        (closingDistance 1 (codeFrom .code back)).map fun n => String.ofList (back.take n) := by
  have hlength := CallHead.length_written hplaced.fits.length
  have hopening : front.length + (head.openingOffset + 1) =
      (front ++ head.written blanks).length := by
    rw [List.length_append, hlength]
  simp only [ofHead, closingParen_written hplaced.fits hplaced.reading hplaced.uncommented,
    Option.map_map]
  congr 1
  ext1 n
  rw [Function.comp_apply, between, Nat.add_assoc, Nat.add_sub_cancel, hopening,
    ← List.append_assoc, List.drop_left]

/-- A library has the name that stands for it, in lower case. -/
theorem Library.name_of_resolve? {name : String} {library : Library}
    (h : Library.resolve? name = some library) : library.name = asciiLower name := by
  simpa using List.find?_some h

/-- An announced call and its place : what stands in front of it on its line, the blanks in
front of its parenthesis, and what stands behind the parenthesis. -/
structure DeprecatedCall.Stands (p : DeprecatedCall) (text front blanks back : List Char) :
    Prop where
  line : (lines text)[p.call.callSpan.line]? = some (front ++ (p.call.written blanks ++ back))
  start : p.call.callSpan.start = front.length
  placed : CallHead.Placed ⟨p.call.library.toList, p.call.function.toList, true, blanks.length⟩
    front blanks
  legacy : p.call.legacy = true
  library : p.library.name = asciiLower p.call.library
  /-- The arguments go up to the parenthesis that closes the call in the code behind it. -/
  arguments : p.call.arguments =
    (closingDistance 1 (codeFrom .code back)).map fun n => String.ofList (back.take n)
  /-- The range of the diagnostic holds the call, or its head when it is not closed. -/
  slice : sliceRange? text p.finding.diagnostic.range = some (match p.call.arguments with
    | some arguments => p.call.written blanks ++ (arguments.toList ++ [')'])
    | none => p.call.written blanks)

theorem exists_stands_of_mem_deprecatedCalls {text : List Char} {p : DeprecatedCall}
    (h : p ∈ deprecatedCalls text) : ∃ front blanks back, p.Stands text front blanks back := by
  obtain ⟨c, library⟩ := p
  obtain ⟨hc, hlegacy, hlibrary⟩ := mem_deprecatedCalls_iff.1 h
  dsimp only at hc hlegacy hlibrary
  obtain ⟨index, line, hline, hc⟩ := mem_eventsFrom_iff.1 hc
  rw [Nat.zero_add] at hc
  obtain ⟨column, head, bound, hhead, rfl⟩ := exists_head_of_mem_eventsOfLine hc
  obtain ⟨front, blanks, back, rfl, rfl, hplaced⟩ := exists_placed_of_mem_callHeads hhead
  obtain ⟨part, back', -, hparts, hspan, -, hpart⟩ :=
    LibraryCall.exists_callSpan_ofHead index hplaced bound back
  refine ⟨front, blanks, back, ?_, rfl, ?_, hlegacy, Library.name_of_resolve? hlibrary,
    LibraryCall.arguments_ofHead index hplaced bound back, ?_⟩
  · rw [LibraryCall.written_ofHead index hplaced.fits]
    exact hline
  · have hlegacy : head.legacy = true := hlegacy
    simpa [LibraryCall.ofHead, hplaced.fits.length, ← hlegacy] using hplaced
  · rw [hparts] at hline
    have hslice := sliceRange?_of_line hline
    rw [← hspan] at hslice
    exact hslice.trans (congrArg some hpart)

/-- A head in the old form in the code of a line is that of an announced call. -/
theorem exists_deprecatedCall_of_placed {text front blanks back : List Char} {index : Nat}
    {head : CallHead} (hline : (lines text)[index]? = some (front ++ (head.written blanks ++ back)))
    (hplaced : head.Placed front blanks) (hlegacy : head.legacy = true)
    (hregistered : isLibraryName (String.ofList head.library) = true) :
    ∃ p ∈ deprecatedCalls text, ∃ bound, p.call =
      .ofHead index (front ++ (head.written blanks ++ back)) bound front.length head := by
  have hhead : (front.length, head) ∈ callHeads (code (front ++ (head.written blanks ++ back))) :=
    mem_callHeads_iff.2 ⟨mask front, blanks, codeFrom .code back,
      code_written hplaced.fits hplaced.reading hplaced.uncommented back, length_mask front,
      hplaced.boundary, hplaced.fits⟩
  obtain ⟨library, hlibrary⟩ := Option.isSome_iff_exists.1 hregistered
  obtain ⟨bound, hcall⟩ := exists_mem_eventsOfLine index hhead
  have hevent : .call (.ofHead index (front ++ (head.written blanks ++ back)) bound front.length
      head) ∈ events text :=
    mem_eventsFrom_iff.2 ⟨index, _, hline, by rwa [Nat.zero_add]⟩
  exact ⟨⟨_, library⟩, mem_deprecatedCalls_iff.2 ⟨hevent, hlegacy, hlibrary⟩, bound, rfl⟩

/-! ## The action for an announced call -/

/-- The announced text for a closed call, in words that stand in the text. -/
theorem DeprecatedCall.Stands.replacement_eq {p : DeprecatedCall}
    {text front blanks back : List Char} (h : p.Stands text front blanks back) {arguments : String}
    (harguments : p.call.arguments = some arguments) :
    p.replacement = currentForm p.call.library p.call.function (some arguments) := by
  rw [replacement, h.library, harguments, currentForm, asciiLower_asciiLower, currentForm]

/-- An announced call leads to the action for it when its line closes it, and to none
otherwise. -/
theorem propose?_announced (document : String) {text : List Char} {p : DeprecatedCall}
    (h : p ∈ deprecatedCalls text) : propose? document text p.finding.diagnostic =
      if p.isClosed then some (p.action document) else none := by
  obtain ⟨front, blanks, back, hstands⟩ := exists_stands_of_mem_deprecatedCalls h
  have hslice := hstands.slice
  rw [LibraryCall.written, hstands.legacy] at hslice
  unfold DeprecatedCall.isClosed
  cases harguments : p.call.arguments with
  | none =>
    rw [harguments] at hslice
    -- the range ends with the opening parenthesis
    rw [Option.isSome_none, if_neg (by simp), Option.eq_none_iff_forall_ne_some]
    intro a ha
    obtain ⟨-, call, blanks', -, hcall, -⟩ := propose?_eq_some_iff.1 ha
    exact call.written_ne_head blanks' _ _ (Option.some.inj (hcall.symm.trans hslice))
  | some arguments =>
    rw [harguments] at hslice
    dsimp only at hslice
    rw [LegacyCall.written_of_legacy rfl] at hslice
    have hreplacement : p.replacement = LegacyCall.modern
        ⟨p.call.library.toList, p.call.function.toList, arguments.toList⟩ := by
      rw [hstands.replacement_eq harguments, LegacyCall.modern, String.ofList_toList,
        String.ofList_toList, String.ofList_toList]
    rw [Option.isSome_some, if_pos rfl, propose?_eq_some_iff]
    exact ⟨rfl, _, blanks, LegacyCall.fits_of_head hstands.placed.fits _, hslice,
      congrArg (CodeAction.replace document p.finding.diagnostic) hreplacement⟩

/-- A diagnostic of another rule leads to no action. -/
theorem propose?_of_rule_ne (document : String) (text : List Char) {f : Finding}
    (h : f.rule ≠ .deprecatedCall) : propose? document text f.diagnostic = none := by
  have hcode : f.diagnostic.fixCode = none := by
    change f.rule.fixCode = none
    cases hrule : f.rule <;> first | rfl | exact absurd hrule h
  rw [propose?, hcode]
  rfl

/-- The diagnostics of a text about the form of a call are those of the announced calls. -/
theorem filter_diagnose (text : List Char) :
    (diagnose text).filter (·.rule = .deprecatedCall) =
      (deprecatedCalls text).map (·.finding.diagnostic) := by
  rw [diagnose_eq, List.filter_map]
  change (((events text).flatMap Event.orderedFindings).filter
    (·.rule = .deprecatedCall)).map Finding.diagnostic = _
  rw [filter_flatMap_eq Event.filter_orderedFindings, List.map_map]
  rfl

/-- The actions for the diagnostics of a text are those for the announced calls that are
closed. -/
theorem codeActions_diagnose (document : String) (text : List Char) :
    codeActions document text (diagnose text) =
      ((deprecatedCalls text).filter (·.isClosed)).map (·.action document) := by
  have hkept : ∀ f : Finding, propose? document text f.diagnostic =
      if f.rule = .deprecatedCall then propose? document text f.diagnostic else none := by
    intro f
    split
    · rfl
    · rename_i hrule
      exact propose?_of_rule_ne document text hrule
  calc codeActions document text (diagnose text)
    _ = ((events text).flatMap Event.orderedFindings).filterMap
          fun f => propose? document text f.diagnostic := by
        rw [codeActions, diagnose_eq, List.filterMap_map]
        rfl
    _ = (((events text).flatMap Event.orderedFindings).filter
          (·.rule = .deprecatedCall)).filterMap
            fun f => propose? document text f.diagnostic := by
        rw [List.filterMap_filter]
        simp only [decide_eq_true_eq, ← hkept]
    _ = (deprecatedCalls text).filterMap
          fun p => propose? document text p.finding.diagnostic := by
        rw [filter_flatMap_eq Event.filter_orderedFindings, List.filterMap_map]
        rfl
    _ = (deprecatedCalls text).filterMap
          fun p => if p.isClosed then some (p.action document) else none :=
        List.filterMap_congr fun p hp => propose?_announced document hp
    _ = ((deprecatedCalls text).filter (·.isClosed)).map (·.action document) := by
        rw [← List.filterMap_eq_map, List.filterMap_filter]
        rfl

/-- What is announced is what is proposed : the diagnostics about the form of a call are
those of the announced calls, and the actions for the diagnostics of a text are those of
the announced calls that are closed, in the same order. Each call stands on its line as it
is announced, the message ends in the text that is put in its place, and this text is the
call in the current form with the arguments as they stand. -/
theorem codeActions_announced (document text : String) :
    (findings (events text.toList)).filter (·.rule = .deprecatedCall) =
        (deprecatedCalls text.toList).map DeprecatedCall.finding ∧
      (analyze document text).diagnostics.filter (·.rule = .deprecatedCall) =
        (deprecatedCalls text.toList).map (·.finding.diagnostic) ∧
      codeActions document text.toList (analyze document text).diagnostics =
        ((deprecatedCalls text.toList).filter (·.isClosed)).map (·.action document) ∧
      ∀ p ∈ deprecatedCalls text.toList,
        (∃ front blanks back, p.Stands text.toList front blanks back) ∧
        p.finding.diagnostic.message = "'" ++ p.call.library ++ "[" ++ p.call.function ++
          "](...)' is a deprecated call form; use '" ++ p.replacement ++ "'" ∧
        ∀ arguments, p.call.arguments = some arguments →
          p.replacement = asciiLower p.call.library ++ "::" ++ p.call.function ++ "(" ++
            (arguments ++ ")") := by
  refine ⟨filter_flatMap_eq Event.filter_findings _, filter_diagnose text.toList,
    codeActions_diagnose document text.toList, fun p hp => ?_⟩
  obtain ⟨front, blanks, back, hstands⟩ := exists_stands_of_mem_deprecatedCalls hp
  exact ⟨⟨front, blanks, back, hstands⟩, rfl, fun arguments h => hstands.replacement_eq h⟩

/-- The outer call is not closed, since its parenthesis stands in a literal, and the inner
one is put in the current form. -/
example : (deprecatedCalls "MathLib[max](ARRLib[len] (a, \"(\"), \")\"".toList).map
    (fun p => (p.isClosed, p.replacement)) =
      [(false, "mathlib::max("), (true, "arrlib::len(a, \"(\")")] := by
  decide +kernel

end RazenLint
