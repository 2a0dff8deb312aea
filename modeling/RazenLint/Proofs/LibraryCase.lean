import RazenLint.Analysis
import RazenLint.Proofs.Event.Recased

/-!
# The case of library names

Libraries go by their names in any case. When the letters of library names change their case,
in imports, in calls and in calls in the old form of registered libraries, the events of a
text stay what they are but for these names (`recased_eventsFrom`), and a word that changes
is the name of a library at a site, which is a use of no variable
(`AgreeUpToLibraryCase.match_occurrencesOfLine`). So nothing changes in the analysis but the
messages that quote the names (`analyze_agreeUpToLibraryCase`).
-/

namespace RazenLint

open Text

/-! ## Words -/

/-- A word in small letters. -/
def Occurrence.lower (o : Occurrence) : Occurrence :=
  { o with word := asciiLower o.word }

theorem Occurrence.of_lower_eq {o o' : Occurrence} (h : o.lower = o'.lower) :
    asciiLower o.word = asciiLower o'.word ∧ o.span = o'.span ∧ o.isMember = o'.isMember := by
  simpa only [lower, mk.injEq] using h

theorem occurrenceFrom_lower (line column : Nat) (previous : Option Char) (cs : List Char) :
    occurrenceFrom line column (previous.map Char.toLower) (lower cs) =
      (occurrenceFrom line column previous cs).map Occurrence.lower := by
  have hpoint : previous.map Char.toLower = some '.' ↔ previous = some '.' := by
    cases previous with
    | none => simp
    | some c => simp [toLower_eq_iff (show isIdentStart '.' = false from rfl)]
  unfold occurrenceFrom
  rw [boundaryAfter_map_toLower, takeIdent?_lower]
  split
  · cases takeIdent? cs with
    | none => rfl
    | some split =>
      obtain ⟨word, rest⟩ := split
      have hnext : boundaryAfter (lower rest).head? = boundaryAfter rest.head? := by
        rw [lower, List.head?_map, boundaryAfter_map_toLower]
      simp only [Option.map_some, hnext, length_lower, hpoint]
      split
      · simp [Occurrence.lower, asciiLower, lower]
      · rfl
  · rfl

theorem occurrencesFrom_lower (line : Nat) (code : List Char) :
    occurrencesFrom line 0 none (lower code) =
      (occurrencesFrom line 0 none code).map Occurrence.lower := by
  rw [occurrencesFrom_eq_scanFrom, occurrencesFrom_eq_scanFrom]
  exact scanFrom_lower (occurrenceFrom_lower line) 0 none code

namespace AgreeUpToLibraryCase

variable {line line' : List Char}

theorem sites_eq (h : AgreeUpToLibraryCase line line') (index : Nat) :
    (eventsOfLine index line).flatMap Event.sites =
      (eventsOfLine index line').flatMap Event.sites :=
  eq_of_forall₂ (fun _ _ hs => hs)
    (forall₂_sites ((h.recased_eventsOfLine index).imp fun _ _ he => he.counterpart))

/-- A word that is not the same in both lines is the name of a library. -/
theorem match_occurrencesOfLine (h : AgreeUpToLibraryCase line line') (index : Nat) :
    List.Forall₂ (Occurrence.Match Eq ((eventsOfLine index line).flatMap Event.sites)
      ((eventsOfLine index line').flatMap Event.sites)) (occurrencesOfLine index line)
      (occurrencesOfLine index line') := by
  have hmap := occurrencesFrom_lower index (code line)
  rw [h.lower_code, occurrencesFrom_lower] at hmap
  rw [occurrencesOfLine_eq, occurrencesOfLine_eq]
  refine (forall₂_and_mem (forall₂_of_map_eq hmap.symm)).imp ?_
  rintro o o' ⟨hlower, ho, ho'⟩
  obtain ⟨hline, hword, hstop, -⟩ := mem_occurrencesFrom_iff.1 ho
  obtain ⟨-, hword', -⟩ := mem_occurrencesFrom_iff.1 ho'
  obtain ⟨hlowerWord, hspan, hmember⟩ := Occurrence.of_lower_eq hlower
  refine ⟨hspan, hmember, ?_⟩
  by_cases hlibrary : LibraryWord (code line) o.word.toList o.span.start
  · have hsite : o.span ∈ (eventsOfLine index line).flatMap Event.sites := by
      have hmem := hlibrary.mem_sites index
      rw [← hstop] at hmem
      subst hline
      exact hmem
    exact Or.inr ⟨hsite, hspan ▸ h.sites_eq index ▸ hsite⟩
  · refine Or.inl (String.toList_inj.1 (h.word_eq hword (hspan ▸ hword') ?_ hlibrary))
    exact String.ofList_injective hlowerWord

end AgreeUpToLibraryCase

/-! ## Texts -/

theorem recased_eventsFrom {lines lines' : List (List Char)}
    (h : List.Forall₂ AgreeUpToLibraryCase lines lines') (index : Nat) :
    List.Forall₂ Event.Recased (eventsFrom index lines) (eventsFrom index lines') := by
  induction h generalizing index with
  | nil => exact List.Forall₂.nil
  | cons h _ ih => exact List.rel_append (h.recased_eventsOfLine index) (ih (index + 1))

theorem match_occurrencesOfLines {lines lines' : List (List Char)}
    (h : List.Forall₂ AgreeUpToLibraryCase lines lines') (index : Nat) :
    List.Forall₂ (Occurrence.Match Eq ((eventsFrom index lines).flatMap Event.sites)
      ((eventsFrom index lines').flatMap Event.sites)) (occurrencesOfLines index lines)
      (occurrencesOfLines index lines') := by
  induction h generalizing index with
  | nil => exact List.Forall₂.nil
  | cons h _ ih =>
    simp only [eventsFrom, List.flatMap_append, occurrencesOfLines]
    refine List.rel_append ((h.match_occurrencesOfLine index).imp ?_) ((ih (index + 1)).imp ?_)
    · exact fun _ _ ho =>
        ho.mono (List.subset_append_left _ _) (List.subset_append_left _ _)
    · exact fun _ _ ho =>
        ho.mono (List.subset_append_right _ _) (List.subset_append_right _ _)

/-- What a diagnostic says apart from its message : where, how severe, by which rule, and
with which fix. -/
def Diagnostic.heading (d : Diagnostic) : Range × Severity × Rule × Option FixCode :=
  (d.range, d.severity, d.rule, d.fixCode)

theorem map_heading_diagnose {text text' : List Char}
    (h : List.Forall₂ Event.Recased (events text) (events text')) :
    (diagnose text).map Diagnostic.heading = (diagnose text').map Diagnostic.heading := by
  have hfindings : ((events text).flatMap Event.orderedFindings).map (fun f => (f.span, f.rule)) =
      ((events text').flatMap Event.orderedFindings).map fun f => (f.span, f.rule) := by
    rw [List.map_flatMap, List.map_flatMap]
    exact eq_of_forall₂ (fun _ _ hf => hf) (List.rel_flatMap h fun e e' he => by
      rw [he.map_orderedFindings, List.forall₂_same]
      exact fun _ _ => rfl)
  have hheading : ∀ fs : List Finding, (fs.map Finding.diagnostic).map Diagnostic.heading =
      (fs.map fun f => (f.span, f.rule)).map fun p =>
        (Range.ofSpan p.1, p.2.severity, p.2, p.2.fixCode) := fun fs => by
    rw [List.map_map, List.map_map]
    rfl
  rw [diagnose_eq, diagnose_eq, hheading, hheading, hfindings]

/-- The case of library names does not matter : texts whose lines differ at most in the case
of the letters of library names have the same diagnostics up to the messages, the same
tokens, and the same variables and libraries with the same references. -/
theorem analyze_agreeUpToLibraryCase (document : String) {text text' : String}
    (h : List.Forall₂ AgreeUpToLibraryCase (lines text.toList) (lines text'.toList)) :
    (analyze document text).diagnostics.map Diagnostic.heading =
        (analyze document text').diagnostics.map Diagnostic.heading ∧
      (analyze document text).tokens = (analyze document text').tokens ∧
      symbols text.toList = symbols text'.toList := by
  have hevents := recased_eventsFrom h 0
  have hsymbols : symbols text.toList = symbols text'.toList :=
    symbols_eq_of_counterparts (hevents.imp fun _ _ he => he.counterpart)
      (match_occurrencesOfLines h 0)
  exact ⟨map_heading_diagnose hevents, congrArg SymbolTable.tokens hsymbols, hsymbols⟩

/-- A registered library in an import and in an old call, and one that nobody knows. -/
def spelledSmall : String :=
  "use strlib;\nlet Foo = 1\nlet n = 2 + strlib[size](foo::f(Foo))"

/-- The same libraries in other cases, the unknown one now spelled like the variable. -/
def spelledMixed : String :=
  "use StrLib;\nlet Foo = 1\nlet n = 2 + STRLIB[size](Foo::f(Foo))"

theorem analyze_agreeUpToLibraryCase_spelled :
    List.Forall₂ AgreeUpToLibraryCase (lines spelledSmall.toList) (lines spelledMixed.toList) ∧
      (analyze "" spelledSmall).diagnostics.map Diagnostic.heading =
        (analyze "" spelledMixed).diagnostics.map Diagnostic.heading ∧
      (analyze "" spelledSmall).tokens = (analyze "" spelledMixed).tokens ∧
      symbols spelledSmall.toList = symbols spelledMixed.toList :=
  ⟨by decide +kernel, analyze_agreeUpToLibraryCase "" (by decide +kernel)⟩

end RazenLint
