import RazenLint.Proofs.Fix.Line

/-!
# Fixing one call in a text

Two texts whose lines are the same but for an `OldCall` on one of them : the events
match but for the call (`matchAround_events`), and the symbol tables have the same
names with the same references (`match_symbols`). The findings of the first text are
those of the second one and the one about the form of the call
(`exists_orderedFindings`).
-/

namespace RazenLint

open Text

/-- The findings of a text, from the first place to the last. -/
def orderedFindings (text : List Char) : List Finding :=
  (events text).flatMap Event.orderedFindings

namespace OldCall

variable {o : OldCall} {text text' : List Char} {before after : List (List Char)}

theorem matchAround_events (h : lines text = before ++ o.line :: after)
    (h' : lines text' = before ++ o.fixed :: after) : ∃ bound bound', Event.MatchAround
      (o.Moves before.length) (o.Extends before.length) (.call (o.call before.length bound))
      (.call (o.fixedCall before.length bound')) (events text) (events text') := by
  have hkept : ∀ {s : Span}, s.line ≠ before.length → o.Moves before.length s s :=
    fun hs => .kept (Or.inl hs)
  have hextends : ∀ {s : Span}, s.line ≠ before.length → o.Extends before.length s s :=
    fun hs => (hkept hs).extends
  obtain ⟨bound, bound', haround⟩ := o.matchAround_eventsOfLine before.length
  refine ⟨bound, bound', ?_⟩
  unfold events
  rw [h, h', eventsFrom_append, eventsFrom_append, eventsFrom, eventsFrom, Nat.zero_add]
  exact haround.append (Event.forall₂_match_self hkept hextends (Or.inr (by omega)))
    (Event.forall₂_match_self hkept hextends (Or.inl (by omega)))

theorem match_occurrences (h : lines text = before ++ o.line :: after)
    (h' : lines text' = before ++ o.fixed :: after) :
    List.Forall₂ (Occurrence.Match (o.Moves before.length) ((events text).flatMap Event.sites)
      ((events text').flatMap Event.sites)) (occurrences text) (occurrences text') := by
  obtain ⟨bound, bound', haround⟩ := matchAround_events h h'
  have hself : ∀ {first : Nat} {lines : List (List Char)} {sites sites' : List Span},
      before.length < first ∨ first + lines.length ≤ before.length →
        List.Forall₂ (Occurrence.Match (o.Moves before.length) sites sites')
          (occurrencesOfLines first lines) (occurrencesOfLines first lines) := by
    intro first lines sites sites' hlines
    rw [List.forall₂_same]
    intro w hw
    obtain ⟨i, line, hline, hw⟩ := mem_occurrencesOfLines_iff.1 hw
    have hi : i < lines.length := (List.getElem?_eq_some_iff.1 hline).1
    rw [occurrencesOfLine_eq] at hw
    have hspan := (span_of_mem_occurrencesFrom hw).1
    exact ⟨.kept (Or.inl (by omega)), rfl, Or.inl rfl⟩
  have hmem : (Event.call (o.call before.length bound)).sites ⊆ (events text).flatMap Event.sites ∧
      (Event.call (o.fixedCall before.length bound')).sites ⊆
        (events text').flatMap Event.sites := by
    generalize events text = es, events text' = es' at haround
    obtain ⟨-, -⟩ := haround
    simp
  unfold occurrences
  rw [h, h', occurrencesOfLines_append, occurrencesOfLines_append, occurrencesOfLines,
    occurrencesOfLines, Nat.zero_add]
  refine List.rel_append (hself (Or.inr (by omega)))
    (List.rel_append ?_ (hself (Or.inl (by omega))))
  exact (o.match_occurrencesOfLine before.length bound bound').imp
    fun _ _ hw => hw.mono hmem.1 hmem.2

/-- The symbol tables of the two texts say the same. -/
theorem match_symbols (h : lines text = before ++ o.line :: after)
    (h' : lines text' = before ++ o.fixed :: after) :
    SymbolTable.Match (o.Moves before.length) (o.Extends before.length) (symbols text)
      (symbols text') := by
  obtain ⟨bound, bound', haround⟩ := matchAround_events h h'
  have hcall := o.counterpart_call before.length bound bound'
  refine SymbolTable.ofEvents_match (biUnique_moves before.length)
    (haround.counterpart (.call hcall)) (match_occurrences h h') ?_
  intro w hw w' hw' hspan d d' hd hd' hstatement
  rw [isPast_statementSpan hw hd, isPast_statementSpan hw' hd', hspan.line, hstatement.line]

/-- The findings of the two texts match but for the one about the form of the call. -/
theorem exists_orderedFindings (h : lines text = before ++ o.line :: after)
    (h' : lines text' = before ++ o.fixed :: after) : ∃ f front front' back back',
      orderedFindings text = front ++ f :: back ∧ orderedFindings text' = front' ++ back' ∧
      f.rule = .deprecatedCall ∧ f.span = (o.call before.length true).callSpan ∧
      List.Forall₂ (Finding.Match (o.Extends before.length)) front front' ∧
      List.Forall₂ (Finding.Match (o.Extends before.length)) back back' := by
  obtain ⟨bound, bound', haround⟩ := matchAround_events h h'
  obtain ⟨front, back, front', back', hfindings, hfindings', hfront, hback⟩ :=
    haround.orderedFindings fun hs => hs.extends
  obtain ⟨f, rest, hcall, hrule, hspan, hrest⟩ :=
    o.orderedFindings_call before.length bound bound'
  refine ⟨f, front, front', rest ++ back, _, ?_, hfindings', hrule, hspan, hfront,
    List.rel_append hrest hback⟩
  rw [orderedFindings, hfindings]
  change front ++ ((o.call before.length bound).orderedFindings ++ back) = _
  rw [hcall]
  rfl

end OldCall

end RazenLint
