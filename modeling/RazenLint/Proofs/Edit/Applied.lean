import RazenLint.Proofs.Edit.Bytes

/-!
# Which edits are applied

Of a list of edits some are applied and the others are not, and the edited text is
the original one with the ranges of the applied edits replaced at once. `Applied`
says what the applied edits are : a sublist of the edits, apart from each other,
such that every other edit that resolves overlaps one of them.

`applyEdits_at_once` puts it together. Edits are counted with repetition, so of two
equal edits of one range one is applied and the other one overlaps it.
-/

namespace RazenLint

open Text

/-- Two edits whose ranges in a text share a character, or of which one inserts
inside the other. -/
def TextEdit.Overlaps (text : List Char) (a b : TextEdit) : Prop :=
  ∃ r q, a.resolve? text = some r ∧ b.resolve? text = some q ∧ ¬r.Apart q

/-- Of the given edits of a text exactly `applied` are applied. -/
structure Applied (text : List Char) (edits applied : List TextEdit) : Prop where
  sublist : applied.Sublist edits
  resolves : ∀ e ∈ applied, ∃ r, e.resolve? text = some r ∧
    e.resolveBytes? text = some (r.toBytes text) ∧
    (r.toBytes text).start ≤ (r.toBytes text).stop ∧ (r.toBytes text).stop ≤ byteLength text
  apart : applied.Pairwise fun a b => ¬a.Overlaps text b
  /-- The ranges of the applied edits, from left to right, are replaced at once. -/
  rewritten : ∃ places, places.Perm (applied.filterMap (·.resolve? text)) ∧
    Replacement.InOrder 0 text.length places ∧
    (applyEdits text edits).1 = Replacement.rewrite text places
  count : (applyEdits text edits).2 = applied.length
  /-- Every other edit that resolves overlaps an applied one. -/
  overlaps : ∃ others, edits.Perm (applied ++ others) ∧
    ∀ e ∈ others, (e.resolve? text).isSome → ∃ a ∈ applied, a.Overlaps text e

/-- A part of what a list resolves to comes from a sublist of resolving edits. -/
theorem exists_sublist_of_subperm {text : List Char} {edits : List TextEdit}
    {kept dropped : List Replacement}
    (h : (edits.filterMap (·.resolve? text)).Perm (kept ++ dropped)) :
    ∃ applied others, applied.Sublist edits ∧ edits.Perm (applied ++ others) ∧
      (∀ e ∈ applied, (e.resolve? text).isSome) ∧
      (applied.filterMap (·.resolve? text)).Perm kept ∧
      (others.filterMap (·.resolve? text)).Perm dropped := by
  obtain ⟨kept', hkept', hsub'⟩ :=
    List.exists_perm_sublist (List.sublist_append_left kept dropped) h.symm
  obtain ⟨chosen, hchosen, rfl⟩ := List.sublist_filterMap_iff.1 hsub'
  -- an edit that does not resolve may stand in `chosen`, and it is not applied
  have happlied : (chosen.filter fun e => (e.resolve? text).isSome).filterMap (·.resolve? text) =
      chosen.filterMap (·.resolve? text) := by
    rw [List.filterMap_filter]
    congr 1
    ext1 e
    cases e.resolve? text <;> rfl
  have hsublist : (chosen.filter fun e => (e.resolve? text).isSome).Sublist edits :=
    (List.filter_sublist).trans hchosen
  obtain ⟨others, hothers⟩ := hsublist.exists_perm_append
  refine ⟨_, others, hsublist, hothers, fun e he => (List.mem_filter.1 he).2, ?_, ?_⟩
  · rw [happlied]
    exact hkept'
  · have hall := (hothers.filterMap (·.resolve? text)).symm.trans h
    rw [List.filterMap_append, happlied] at hall
    exact (List.perm_append_left_iff kept).1 ((hkept'.symm.append_right _).trans hall)

/-- The chosen replacements are those of the applied edits. -/
theorem exists_applied (text : List Char) (edits : List TextEdit) : ∃ applied,
    Applied text edits applied ∧
      (applied.filterMap (·.resolve? text)).Perm (chosenReplacements text edits) := by
  set sorted := (edits.filterMap (·.resolve? text)).mergeSort Replacement.comesFirst with hsorted
  have hle : ∀ r ∈ sorted, r.start ≤ r.stop ∧ r.stop ≤ text.length := by
    intro r hr
    obtain ⟨e, -, he⟩ := List.mem_filterMap.1 (List.mem_mergeSort.1 hr)
    exact ⟨(TextEdit.of_resolve? he).2.2.1, (TextEdit.of_resolve? he).2.2.2.1⟩
  have hchosen : chosenReplacements text edits = Replacement.choose text.length sorted := rfl
  have hperm : (edits.filterMap (·.resolve? text)).Perm
      (Replacement.choose text.length sorted ++ Replacement.leaveOut text.length sorted) :=
    (List.mergeSort_perm _ Replacement.comesFirst).symm.trans
      (Replacement.perm_choose_append_leaveOut text.length sorted)
  obtain ⟨applied, others, hsub, hothers, hsome, hkept, hdropped⟩ := exists_sublist_of_subperm hperm
  have hpair : (Replacement.choose text.length sorted).Pairwise fun a b => b.stop ≤ a.start :=
    Replacement.pairwise_choose fun r hr => (hle r hr).1
  have hinorder : Replacement.InOrder 0 text.length (chosenReplacements text edits).reverse :=
    Replacement.inOrder_reverse
      (fun r hr => hle r ((Replacement.choose_sublist _ _).subset hr)) hpair
  refine ⟨applied, ⟨hsub, ?_, ?_, ?_, ?_, others, hothers, ?_⟩, hkept⟩
  · intro e he
    obtain ⟨r, hr⟩ := Option.isSome_iff_exists.1 (hsome e he)
    obtain ⟨-, -, h1, h2, -⟩ := TextEdit.of_resolve? hr
    refine ⟨r, hr, by rw [TextEdit.resolveBytes?_eq, hr]; rfl, ?_, ?_⟩
    · exact (byteLength_take_le_iff (h1.trans h2) h2).2 h1
    · have := (byteLength_take_le_iff h2 le_rfl).2 h2
      rwa [List.take_length] at this
  · have hapart : (applied.filterMap (·.resolve? text)).Pairwise Replacement.Apart :=
      (hpair.imp fun h => Or.inr h).perm hkept.symm fun h => h.symm
    rw [List.pairwise_filterMap] at hapart
    refine hapart.imp fun h => ?_
    rintro ⟨r, q, hr, hq, hrq⟩
    exact hrq (h r hr q hq)
  · exact ⟨_, (List.reverse_perm _).trans hkept.symm, hinorder,
      Replacement.foldl_apply_choose fun r hr => (hle r hr).1⟩
  · rw [applyEdits, hchosen, ← hkept.length_eq, List.length_filterMap_eq_countP,
      List.countP_eq_length.2 hsome]
  · intro e he hsome'
    obtain ⟨q, hq⟩ := Option.isSome_iff_exists.1 hsome'
    have hmem : q ∈ Replacement.leaveOut text.length sorted :=
      hdropped.mem_iff.1 (List.mem_filterMap.2 ⟨e, he, hq⟩)
    obtain ⟨r, hr, hrq⟩ := Replacement.exists_not_apart_of_mem_leaveOut hle
      (Replacement.pairwise_mergeSort_comesFirst _) hmem
    obtain ⟨a, ha, har⟩ := List.mem_filterMap.1 (hkept.mem_iff.2 hr)
    exact ⟨a, ha, r, q, har, hq, hrq⟩

/-- Applying edits rewrites the text at once in the ranges of the applied edits and
nowhere else, and never cuts a character. When all ranges differ the order of the
list does not matter. -/
theorem applyEdits_at_once (text : List Char) (edits : List TextEdit) :
    applyEditsInBytes? text edits = some (applyEdits text edits) ∧
      (∃ applied, Applied text edits applied) ∧
      (((edits.filterMap (·.resolve? text)).map fun r => (r.start, r.stop)).Nodup →
        ∀ edits' : List TextEdit, edits'.Perm edits →
          applyEdits text edits' = applyEdits text edits) := by
  refine ⟨applyEditsInBytes?_eq text edits, ?_, ?_⟩
  · obtain ⟨applied, happlied, -⟩ := exists_applied text edits
    exact ⟨applied, happlied⟩
  · intro hranges edits' hperm
    have hsorted := Replacement.mergeSort_comesFirst_congr
      (hperm.symm.filterMap (·.resolve? text)) hranges
    rw [applyEdits, applyEdits, chosenReplacements, chosenReplacements, hsorted]

/-- An insertion and a longer edit with one start, in both orders. -/
theorem applyEdits_at_once_swap :
    ((([⟨⟨⟨0, 1⟩, ⟨0, 1⟩⟩, "+"⟩, ⟨⟨⟨0, 1⟩, ⟨0, 3⟩⟩, "-"⟩] : List TextEdit).filterMap
        (·.resolve? ['a', 'b', 'c'])).map fun r => (r.start, r.stop)).Nodup ∧
      applyEdits ['a', 'b', 'c'] [⟨⟨⟨0, 1⟩, ⟨0, 3⟩⟩, "-"⟩, ⟨⟨⟨0, 1⟩, ⟨0, 1⟩⟩, "+"⟩] =
        applyEdits ['a', 'b', 'c'] [⟨⟨⟨0, 1⟩, ⟨0, 1⟩⟩, "+"⟩, ⟨⟨⟨0, 1⟩, ⟨0, 3⟩⟩, "-"⟩] :=
  ⟨by decide, (applyEdits_at_once _ _).2.2 (by decide) _ (List.Perm.swap _ _ [])⟩

end RazenLint
