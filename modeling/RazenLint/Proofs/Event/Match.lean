import Mathlib.Data.List.Forall2
import RazenLint.Proofs.Diagnostic
import RazenLint.Proofs.Event.Reading

/-!
# Events that say the same

Two events match when they say the same about two texts, at places that correspond
(`Event.Match`) : `N` relates the places of names, `E` the places of statements and
calls. What a declaration or a call holds as text, its initializer or its arguments,
may differ, as far as the shape of the initializer is the same. Matching events have
matching findings (`Event.Match.orderedFindings`) : of one rule, at corresponding
places, and with one message, except for the messages that quote arguments.

`Event.Counterpart` says less, and is what the symbol table asks for : the calls may
be written in different forms, and libraries may go by different spellings.
-/

namespace RazenLint

open Text

variable {N E : Span → Span → Prop}

/-- Two calls that a declaration is held against in one way. -/
structure BoundCall.Match (b b' : BoundCall) : Prop where
  result : b.result? = b'.result?
  function : b.function = b'.function
  spansInitializer : b.spansInitializer = b'.spansInitializer

/-- Two declarations of one variable. -/
structure Declaration.Match (N E : Span → Span → Prop) (d d' : Declaration) : Prop where
  keyword : d.keyword = d'.keyword
  kind : d.kind = d'.kind
  name : d.name = d'.name
  nameSpan : N d.nameSpan d'.nameSpan
  statementSpan : E d.statementSpan d'.statementSpan
  call : Option.Rel BoundCall.Match d.call d'.call
  /-- The initializers have one shape, where the shape is looked at. -/
  shape : d.call = none →
    Shape.classify d.initializer.toList = Shape.classify d'.initializer.toList

structure Import.Match (N : Span → Span → Prop) (i i' : Import) : Prop where
  name : i.name = i'.name
  span : N i.span i'.span

/-- Two calls in one form of one function. -/
structure LibraryCall.Match (N E : Span → Span → Prop) (c c' : LibraryCall) : Prop where
  library : c.library = c'.library
  function : c.function = c'.function
  legacy : c.legacy = c'.legacy
  librarySpan : N c.librarySpan c'.librarySpan
  functionSpan : N c.functionSpan c'.functionSpan
  callSpan : E c.callSpan c'.callSpan

/-- Two events that say the same. -/
inductive Event.Match (N E : Span → Span → Prop) : Event → Event → Prop
  | declaration {d d' : Declaration} (h : d.Match N E d') :
    Event.Match N E (.declaration d) (.declaration d')
  | imported {i i' : Import} (h : i.Match N i') : Event.Match N E (.imported i) (.imported i')
  | call {c c' : LibraryCall} (h : c.Match N E c') : Event.Match N E (.call c) (.call c')

/-- Two findings that say the same, at corresponding places. A message about a deprecated
call quotes its arguments and may differ. -/
structure Finding.Match (E : Span → Span → Prop) (f f' : Finding) : Prop where
  span : E f.span f'.span
  rule : f.rule = f'.rule
  message : f.rule ≠ .deprecatedCall → f.message = f'.message

/-- Two diagnostics that say the same, in ranges that correspond. -/
structure Diagnostic.Match (R : Range → Range → Prop) (d d' : Diagnostic) : Prop where
  range : R d.range d'.range
  severity : d.severity = d'.severity
  rule : d.rule = d'.rule
  fixCode : d.fixCode = d'.fixCode
  message : d.rule ≠ .deprecatedCall → d.message = d'.message

theorem Finding.Match.diagnostic {R : Range → Range → Prop}
    (hER : ∀ {s s'}, E s s' → R (.ofSpan s) (.ofSpan s')) {f f' : Finding} (h : f.Match E f') :
    Diagnostic.Match R f.diagnostic f'.diagnostic :=
  ⟨hER h.span, congrArg Rule.severity h.rule, h.rule, congrArg Rule.fixCode h.rule, h.message⟩

theorem Declaration.Match.findings {d d' : Declaration} (h : d.Match N E d') :
    List.Forall₂ (Finding.Match E) d.findings d'.findings := by
  obtain ⟨keyword, kind, name, -, span, hcall, hshape⟩ := h
  unfold Declaration.findings
  cases hd : d.call with
  | none =>
    cases hd' : d'.call with
    | some b' =>
      rw [hd, hd'] at hcall
      cases hcall
    | none =>
      dsimp only
      rw [← hshape hd, ← kind, ← name, ← keyword]
      split
      · exact List.Forall₂.cons ⟨span, rfl, fun _ => rfl⟩ List.Forall₂.nil
      · exact List.Forall₂.nil
  | some b =>
    cases hd' : d'.call with
    | none =>
      rw [hd, hd'] at hcall
      cases hcall
    | some b' =>
      rw [hd, hd'] at hcall
      obtain ⟨hresult, hfunction, hspans⟩ : b.Match b' := by
        cases hcall with
        | some hb => exact hb
      dsimp only
      rw [← hspans, ← hresult, ← hfunction, ← kind, ← name, ← keyword]
      split
      · exact List.Forall₂.nil
      · split
        · exact List.Forall₂.nil
        · split
          · exact List.Forall₂.nil
          · exact List.Forall₂.cons ⟨span, rfl, fun _ => rfl⟩ List.Forall₂.nil

theorem Import.Match.findings (hNE : ∀ {s s'}, N s s' → E s s') {i i' : Import} (h : i.Match N i') :
    List.Forall₂ (Finding.Match E) i.findings i'.findings := by
  unfold Import.findings
  rw [← h.name]
  split
  · exact List.Forall₂.nil
  · exact List.Forall₂.cons ⟨hNE h.span, rfl, fun _ => rfl⟩ List.Forall₂.nil

/-- Of two calls with the same arguments all messages are the same. -/
theorem LibraryCall.Match.orderedFindings_of_arguments (hNE : ∀ {s s'}, N s s' → E s s')
    {c c' : LibraryCall} (h : c.Match N E c') :
    List.Forall₂
      (fun f f' => Finding.Match E f f' ∧ (c.arguments = c'.arguments → f.message = f'.message))
      c.orderedFindings c'.orderedFindings := by
  unfold LibraryCall.orderedFindings
  rw [← h.library, ← h.function, ← h.legacy]
  cases Library.resolve? c.library with
  | none =>
    dsimp only
    split
    · exact List.Forall₂.nil
    · exact List.Forall₂.cons ⟨⟨hNE h.librarySpan, rfl, fun _ => rfl⟩, fun _ => rfl⟩
        List.Forall₂.nil
  | some library =>
    refine List.rel_append ?_ ?_
    · split
      · refine List.Forall₂.cons ⟨⟨h.callSpan, rfl, fun hrule => absurd rfl hrule⟩, ?_⟩
          List.Forall₂.nil
        intro harguments
        rw [harguments]
        rfl
      · exact List.Forall₂.nil
    · split
      · exact List.Forall₂.nil
      · exact List.Forall₂.cons ⟨⟨hNE h.functionSpan, rfl, fun _ => rfl⟩, fun _ => rfl⟩
          List.Forall₂.nil

theorem LibraryCall.Match.orderedFindings (hNE : ∀ {s s'}, N s s' → E s s') {c c' : LibraryCall}
    (h : c.Match N E c') :
    List.Forall₂ (Finding.Match E) c.orderedFindings c'.orderedFindings :=
  (h.orderedFindings_of_arguments hNE).imp fun _ _ hf => hf.1

theorem Event.Match.orderedFindings (hNE : ∀ {s s'}, N s s' → E s s') {e e' : Event}
    (h : Event.Match N E e e') :
    List.Forall₂ (Finding.Match E) e.orderedFindings e'.orderedFindings := by
  cases h with
  | declaration h => exact h.findings
  | imported h => exact h.findings hNE
  | call h => exact h.orderedFindings hNE

/-! ## Events that are kept -/

theorem LibraryCall.match_self {index : Nat} (hN : ∀ {s : Span}, s.line = index → N s s)
    (hE : ∀ {s : Span}, s.line = index → E s s) (line : List Char) (bound : Bool) (column : Nat)
    (head : CallHead) : (LibraryCall.ofHead index line bound column head).Match N E
      (LibraryCall.ofHead index line bound column head) :=
  ⟨rfl, rfl, rfl, hN rfl, hN rfl, hE rfl⟩

/-- An event of a line whose places are kept says what it said. -/
theorem Event.match_self {index : Nat} (hN : ∀ {s : Span}, s.line = index → N s s)
    (hE : ∀ {s : Span}, s.line = index → E s s) {line : List Char} {e : Event}
    (h : e ∈ eventsOfLine index line) : Event.Match N E e e := by
  rcases of_mem_eventsOfLine h with ⟨a, -, rfl⟩ | ⟨words, -, rfl⟩ | ⟨column, head, bound, -, rfl⟩
  · refine .declaration ⟨rfl, rfl, rfl, hN rfl, hE rfl, ?_, fun _ => rfl⟩
    cases (Declaration.ofAssignment index line a).call with
    | none => exact Option.Rel.none
    | some b => exact Option.Rel.some ⟨rfl, rfl, rfl⟩
  · exact .imported ⟨rfl, hN rfl⟩
  · exact .call (LibraryCall.match_self hN hE line bound column head)

/-- The same for all lines but one. -/
theorem Event.forall₂_match_self {index : Nat} (hN : ∀ {s : Span}, s.line ≠ index → N s s)
    (hE : ∀ {s : Span}, s.line ≠ index → E s s) {first : Nat} {lines : List (List Char)}
    (h : index < first ∨ first + lines.length ≤ index) :
    List.Forall₂ (Event.Match N E) (eventsFrom first lines) (eventsFrom first lines) := by
  rw [List.forall₂_same]
  intro e he
  obtain ⟨i, line, hline, he⟩ := mem_eventsFrom_iff.1 he
  have hi : i < lines.length := (List.getElem?_eq_some_iff.1 hline).1
  refine Event.match_self (fun hs => hN ?_) (fun hs => hE ?_) he <;> omega

/-! ## Counterparts -/

/-- Two imports of one library, perhaps under different spellings of its name. -/
structure Import.Counterpart (N : Span → Span → Prop) (i i' : Import) : Prop where
  library : Library.resolve? i.name = Library.resolve? i'.name
  span : N i.span i'.span

/-- Two calls of one function, perhaps in different forms. -/
structure LibraryCall.Counterpart (N : Span → Span → Prop) (c c' : LibraryCall) : Prop where
  library : Library.resolve? c.library = Library.resolve? c'.library
  /-- Both are taken for calls, or both for indexing. -/
  site : (!c.legacy || isLibraryName c.library) = (!c'.legacy || isLibraryName c'.library)
  librarySpan : N c.librarySpan c'.librarySpan
  functionSpan : N c.functionSpan c'.functionSpan

/-- Two events that the symbol table takes for the same. -/
inductive Event.Counterpart (N E : Span → Span → Prop) : Event → Event → Prop
  | declaration {d d' : Declaration} (h : d.Match N E d') :
    Event.Counterpart N E (.declaration d) (.declaration d')
  | imported {i i' : Import} (h : i.Counterpart N i') :
    Event.Counterpart N E (.imported i) (.imported i')
  | call {c c' : LibraryCall} (h : c.Counterpart N c') :
    Event.Counterpart N E (.call c) (.call c')

theorem Event.Match.counterpart {e e' : Event} (h : Event.Match N E e e') :
    Event.Counterpart N E e e' := by
  cases h with
  | declaration h => exact .declaration h
  | imported h => exact .imported ⟨by rw [h.name], h.span⟩
  | call h =>
    exact .call ⟨by rw [h.library], by rw [h.library, h.legacy], h.librarySpan, h.functionSpan⟩

/-! ## One event changed -/

/-- Two lists of events that match, but for one event of each. -/
inductive Event.MatchAround (N E : Span → Span → Prop) (e e' : Event) :
    List Event → List Event → Prop
  | intro {before before' after after' : List Event}
    (hbefore : List.Forall₂ (Event.Match N E) before before')
    (hafter : List.Forall₂ (Event.Match N E) after after') :
    Event.MatchAround N E e e' (before ++ e :: after) (before' ++ e' :: after')

namespace Event.MatchAround

variable {e e' : Event} {es es' front front' back back' : List Event}

/-- Matching events can stand on both sides. -/
theorem append (h : Event.MatchAround N E e e' es es')
    (hfront : List.Forall₂ (Event.Match N E) front front')
    (hback : List.Forall₂ (Event.Match N E) back back') :
    Event.MatchAround N E e e' (front ++ (es ++ back)) (front' ++ (es' ++ back')) := by
  obtain ⟨hbefore, hafter⟩ := h
  have h : Event.MatchAround N E e e' _ _ :=
    MatchAround.intro (List.rel_append hfront hbefore) (List.rel_append hafter hback)
  simpa using h

theorem counterpart (h : Event.MatchAround N E e e' es es') (he : Event.Counterpart N E e e') :
    List.Forall₂ (Event.Counterpart N E) es es' := by
  obtain ⟨hbefore, hafter⟩ := h
  exact List.rel_append (hbefore.imp fun _ _ h => h.counterpart)
    (List.Forall₂.cons he (hafter.imp fun _ _ h => h.counterpart))

/-- The findings around those of the event match. -/
theorem orderedFindings (hNE : ∀ {s s'}, N s s' → E s s')
    (h : Event.MatchAround N E e e' es es') : ∃ before after before' after',
      es.flatMap Event.orderedFindings = before ++ (e.orderedFindings ++ after) ∧
      es'.flatMap Event.orderedFindings = before' ++ (e'.orderedFindings ++ after') ∧
      List.Forall₂ (Finding.Match E) before before' ∧
      List.Forall₂ (Finding.Match E) after after' := by
  obtain ⟨hbefore, hafter⟩ := h
  refine ⟨_, _, _, _, by rw [List.flatMap_append, List.flatMap_cons],
    by rw [List.flatMap_append, List.flatMap_cons], ?_, ?_⟩
  · exact List.rel_flatMap hbefore fun _ _ he => he.orderedFindings hNE
  · exact List.rel_flatMap hafter fun _ _ he => he.orderedFindings hNE

end Event.MatchAround

end RazenLint
