import Mathlib.Data.List.Pairwise
import RazenLint.Proofs.Diagnostic
import RazenLint.Proofs.Symbol.Word

/-!
# Names that events tell of

A declaration and an import tell of one name, a call of its library and its function
(`Event.nameSpans`). These names are words of the text (`namesWords_of_mem_events`), and each
of them ends before the next one begins (`pairwise_nameSpans`) : the name of a declaration
stands in front of the heads of its line, an import has no heads on its line, and a head
ends before the next one.
-/

namespace RazenLint

open Text

/-- The places of the names in an event. -/
def Event.nameSpans : Event → List Span
  | declaration d => [d.nameSpan]
  | imported i => [i.span]
  | call c => [c.librarySpan, c.functionSpan]

/-- The names in an event are words of a text. -/
def Event.NamesWords (text : List Char) : Event → Prop
  | declaration d => WordAt text d.name d.nameSpan
  | imported i => WordAt text i.name i.span
  | call c => WordAt text c.library c.librarySpan ∧ WordAt text c.function c.functionSpan

/-! ## Names are words -/

section

variable {text line : List Char} {index : Nat}

/-- A word of the code of a line is a word of the text. -/
theorem WordIn.wordAt {word : List Char} {column : Nat} (h : WordIn (Text.code line) word column)
    (hline : (lines text)[index]? = some line) :
    WordAt text (String.ofList word) ⟨index, column, column + word.length⟩ := by
  refine ⟨line, hline, h.isCommentLine_eq_false, ?_, ?_⟩ <;> rw [String.toList_ofList]
  exact h

theorem namesWords_of_mem_eventsOfLine (hline : (lines text)[index]? = some line) {e : Event}
    (he : e ∈ eventsOfLine index line) : e.NamesWords text := by
  rcases of_mem_eventsOfLine he with ⟨a, ha, rfl⟩ | ⟨words, hwords, rfl⟩ |
    ⟨column, head, bound, hhead, rfl⟩
  · exact (wordIn_name ha).wordAt hline
  · exact (wordIn_imported hwords).wordAt hline
  · obtain ⟨hlibrary, hfunction⟩ := wordIn_head hhead
    exact ⟨hlibrary.wordAt hline, hfunction.wordAt hline⟩

theorem namesWords_of_mem_events {e : Event} (he : e ∈ events text) : e.NamesWords text := by
  obtain ⟨i, line, hline, he⟩ := mem_eventsFrom_iff.1 he
  rw [Nat.zero_add] at he
  exact namesWords_of_mem_eventsOfLine hline he

theorem Event.NamesWords.start_lt_stop {e : Event} (h : e.NamesWords text) {s : Span}
    (hs : s ∈ e.nameSpans) : s.start < s.stop := by
  cases e with
  | declaration d =>
    rw [List.mem_singleton.1 hs]
    exact WordAt.start_lt_stop h
  | imported i =>
    rw [List.mem_singleton.1 hs]
    exact WordAt.start_lt_stop h
  | call c =>
    rcases List.mem_cons.1 hs with rfl | hs
    · exact h.1.start_lt_stop
    · rw [List.mem_singleton.1 hs]
      exact h.2.start_lt_stop

end

/-! ## Names come one after the other -/

/-- The names of a call stand in its head. -/
theorem of_mem_nameSpans_ofHead {index column : Nat} {line : List Char} {bound : Bool}
    {head : CallHead} {s : Span}
    (h : s ∈ (Event.call (.ofHead index line bound column head)).nameSpans) :
    s.line = index ∧ column ≤ s.start ∧ s.stop ≤ column + head.openingOffset := by
  simp only [Event.nameSpans, List.mem_cons, List.not_mem_nil, or_false] at h
  rcases h with rfl | rfl
  · refine ⟨rfl, le_rfl, ?_⟩
    simp only [LibraryCall.ofHead, CallHead.openingOffset, CallHead.functionOffset]
    omega
  · refine ⟨rfl, Nat.le_add_right _ _, ?_⟩
    simp only [LibraryCall.ofHead, CallHead.openingOffset]
    omega

theorem line_of_mem_nameSpans {index : Nat} {line : List Char} {e : Event}
    (he : e ∈ eventsOfLine index line) {s : Span} (hs : s ∈ e.nameSpans) : s.line = index := by
  rcases of_mem_eventsOfLine he with ⟨a, -, rfl⟩ | ⟨words, -, rfl⟩ | ⟨column, head, bound, -, rfl⟩
  · rw [List.mem_singleton.1 hs]
    rfl
  · rw [List.mem_singleton.1 hs]
    rfl
  · exact (of_mem_nameSpans_ofHead hs).1

theorem pairwise_nameSpans_callsOfLine (index : Nat) (line : List Char) (bound : Option Nat) :
    (((callsOfLine index line bound).map Event.call).flatMap Event.nameSpans).Pairwise
      Span.Before := by
  rw [callsOfLine, List.map_map, List.flatMap_map, List.pairwise_flatMap]
  refine ⟨fun p _ => ?_, (pairwise_callHeads_apart (code line)).imp fun {p q} hpq s hs t ht => ?_⟩
  · refine List.pairwise_pair.2 (Or.inr ⟨rfl, ?_⟩)
    simp only [LibraryCall.ofHead, CallHead.functionOffset]
    omega
  · obtain ⟨hs, -, hstop⟩ := of_mem_nameSpans_ofHead hs
    obtain ⟨ht, hstart, -⟩ := of_mem_nameSpans_ofHead ht
    exact Or.inr ⟨hs.trans ht.symm, by omega⟩

theorem pairwise_nameSpans_line (index : Nat) (line : List Char) :
    ((eventsOfLine index line).flatMap Event.nameSpans).Pairwise Span.Before := by
  rw [eventsOfLine_eq]
  split
  · rename_i a ha
    rw [List.flatMap_cons]
    refine List.pairwise_append.2 ⟨List.pairwise_singleton _ _,
      pairwise_nameSpans_callsOfLine _ _ _, fun s hs t ht => ?_⟩
    -- the name stands in front of the value, and the heads do not
    obtain ⟨e, he, ht⟩ := List.mem_flatMap.1 ht
    obtain ⟨c, hc, rfl⟩ := List.mem_map.1 he
    obtain ⟨p, hp, rfl⟩ := List.mem_map.1 hc
    obtain ⟨htline, htstart, -⟩ := of_mem_nameSpans_ofHead ht
    have hvalue := valueColumn_le_of_mem_callHeads ha hp
    have hname := (columns_of_assignment? ha).2.1
    rw [List.mem_singleton.1 hs]
    exact Or.inr ⟨htline.symm, by simp only [Declaration.ofAssignment]; omega⟩
  · cases hwords : importWords? (code line) with
    | none => exact pairwise_nameSpans_callsOfLine _ _ _
    | some words =>
      rw [callsOfLine, callHeads_of_importWords? hwords]
      exact List.pairwise_singleton _ _

theorem pairwise_nameSpans_eventsFrom : ∀ (index : Nat) (lines : List (List Char)),
    ((eventsFrom index lines).flatMap Event.nameSpans).Pairwise Span.Before
  | _, [] => List.Pairwise.nil
  | index, line :: rest => by
    rw [eventsFrom, List.flatMap_append]
    refine List.pairwise_append.2 ⟨pairwise_nameSpans_line index line,
      pairwise_nameSpans_eventsFrom (index + 1) rest, fun s hs t ht => Or.inl ?_⟩
    obtain ⟨e, he, hs⟩ := List.mem_flatMap.1 hs
    obtain ⟨e', he', ht⟩ := List.mem_flatMap.1 ht
    obtain ⟨i, line', -, he'⟩ := mem_eventsFrom_iff.1 he'
    rw [line_of_mem_nameSpans he hs, line_of_mem_nameSpans he' ht]
    omega

/-- Each name that an event tells of ends before the next one begins. -/
theorem pairwise_nameSpans (text : List Char) :
    ((events text).flatMap Event.nameSpans).Pairwise Span.Before :=
  pairwise_nameSpans_eventsFrom 0 (lines text)

/-- Two events tell of names in different places. -/
theorem eq_of_mem_nameSpans {text : List Char} {e e' : Event} (he : e ∈ events text)
    (he' : e' ∈ events text) {s : Span} (hs : s ∈ e.nameSpans) (hs' : s ∈ e'.nameSpans) :
    e = e' := by
  by_contra hne
  have hsymm : Std.Symm fun e e' : Event => ∀ s ∈ e.nameSpans, s ∉ e'.nameSpans :=
    ⟨fun e e' h s hs hs' => h s hs' hs⟩
  have happart : (events text).Pairwise fun e e' => ∀ s ∈ e.nameSpans, s ∉ e'.nameSpans :=
    (List.pairwise_flatMap.1 (pairwise_nameSpans text)).2.imp_of_mem fun {e e'} he he' h s hs hs' =>
      (h s hs s hs').ne ((namesWords_of_mem_events he).start_lt_stop hs) rfl
  exact happart.forall he he' hne s hs hs'

end RazenLint
