import RazenLint.Proofs.Fix.Range

/-!
# An edit inside a line

An edit that replaces a part of one line changes this line and no other
(`exists_applyEdits_line`). Something has to follow the part on its line and end in no
carriage return : the line then ends as it did, whatever stands in place of the part.
-/

namespace RazenLint

open Text

/-- A column of a line that is not behind its carriage return has its place in the text. -/
theorem offset?_of_segments (front upTo : List Char) {text ending : List Char}
    {before more : List (List Char)} {c : Char}
    (hs : segments text = before ++ (front ++ upTo ++ ending) :: more)
    (hlast : (front ++ upTo).getLast? = some c) (hc : c ≠ '\r') :
    offset? text ⟨before.length, front.length⟩ =
      some (before.flatMap (· ++ ['\n']) ++ front).length := by
  rw [offset?, hs, offsetInSegments?_append ?_ before, List.length_append]
  rw [dropReturn_append_of_getLast? hlast hc]
  simp

/-- The replacement that an edit inside a line makes. -/
theorem resolve?_of_segments {text front part anchor ending : List Char}
    {before more : List (List Char)} {c : Char}
    (hs : segments text = before ++ (front ++ (part ++ anchor) ++ ending) :: more)
    (hlast : anchor.getLast? = some c) (hc : c ≠ '\r') (newText : String) :
    TextEdit.resolve? text
        ⟨.ofSpan ⟨before.length, front.length, front.length + part.length⟩, newText⟩ =
      some ⟨(before.flatMap (· ++ ['\n']) ++ front).length,
        (before.flatMap (· ++ ['\n']) ++ (front ++ part)).length, newText.toList⟩ := by
  have hupTo : (front ++ (part ++ anchor)).getLast? = some c := by
    rw [← List.append_assoc, List.getLast?_append, hlast]
    rfl
  have hlength : (front ++ part).length = front.length + part.length := List.length_append
  have hstart := offset?_of_segments front (part ++ anchor) hs hupTo hc
  have hstop := offset?_of_segments (front ++ part) anchor (by simpa using hs)
    (by simpa using hupTo) hc
  rw [hlength] at hstop
  rw [TextEdit.resolve?, Range.ofSpan, hstart, hstop]
  exact if_pos (by simp)

/-- A part of a line replaced by an edit. The text is the same around the part, and its lines
are the same but for this one. -/
theorem exists_applyEdits_line {text front part anchor back : List Char} {index : Nat} {c : Char}
    (hline : (lines text)[index]? = some (front ++ (part ++ (anchor ++ back))))
    (hlast : anchor.getLast? = some c) (hc : c ≠ '\r') (newText : String)
    (hnew : '\n' ∉ newText.toList) : ∃ above below before after,
      text = above ++ (part ++ below) ∧
      applyEdits text [⟨.ofSpan ⟨index, front.length, front.length + part.length⟩, newText⟩] =
        (above ++ (newText.toList ++ below), 1) ∧
      before.length = index ∧
      lines text = before ++ (front ++ (part ++ (anchor ++ back))) :: after ∧
      lines (above ++ (newText.toList ++ below)) =
        before ++ (front ++ (newText.toList ++ (anchor ++ back))) :: after := by
  obtain ⟨before, piece, more, hs, rfl, hpiece, -⟩ := exists_segment_of_line hline
  obtain ⟨ending, hending⟩ := exists_lineOfSegment_append piece more
  rw [← hpiece] at hending
  have hending : piece = front ++ (part ++ anchor) ++ (back ++ ending) := by
    rw [hending]
    simp
  have hpieces : ∀ p ∈ before ++ piece :: more, '\n' ∉ p :=
    fun p hp => newline_notMem_segments (show p ∈ segments text from hs ▸ hp)
  have hbefore : ∀ p ∈ before, '\n' ∉ p := fun p hp => hpieces p (List.mem_append_left _ hp)
  have hnewline : '\n' ∉ front ∧ '\n' ∉ part ∧ '\n' ∉ anchor := by
    have hmem := hpieces piece (by simp)
    rw [hending] at hmem
    simp only [List.mem_append, not_or] at hmem
    exact ⟨hmem.1.1, hmem.1.2⟩
  obtain ⟨lead, hlead⟩ : ∃ lead, lead = before.flatMap (· ++ ['\n']) := ⟨_, rfl⟩
  obtain ⟨rest, hrest⟩ : ∃ rest, rest = back ++ ending ++ more.flatMap ('\n' :: ·) := ⟨_, rfl⟩
  have htext : text = lead ++ ((front ++ (part ++ anchor)) ++ rest) := by
    have hjoin := joinSegments_append_cons more piece before
    rw [← hs, joinSegments_segments, hending, ← hlead] at hjoin
    rw [hjoin, hrest]
    simp
  obtain ⟨tail, after, hlines⟩ := exists_lines_append hc rest
  have hwith : ∀ cs : List Char, '\n' ∉ cs → lines (lead ++ ((front ++ (cs ++ anchor)) ++ rest)) =
      before.map dropReturn ++ (front ++ (cs ++ anchor) ++ tail) :: after := by
    intro cs hcs
    rw [hlead]
    refine hlines hbefore ?_ ?_
    · simp [hnewline, hcs]
    · rw [← List.append_assoc, List.getLast?_append, hlast]
      rfl
  have hold := hwith part hnewline.2.1
  rw [← htext] at hold
  -- the line is known, so what follows the anchor on it is
  obtain rfl : tail = back := by
    rw [hold, List.getElem?_append_right (by simp)] at hline
    simpa using hline
  have hresolve := resolve?_of_segments (hending ▸ hs) hlast hc newText
  rw [← hlead] at hresolve
  refine ⟨lead ++ front, anchor ++ rest, before.map dropReturn, after, by rw [htext]; simp, ?_,
    by simp, by rw [hold]; simp, ?_⟩
  · have htake : text = (lead ++ front) ++ (part ++ (anchor ++ rest)) := by rw [htext]; simp
    have hdrop : text = (lead ++ (front ++ part)) ++ (anchor ++ rest) := by rw [htext]; simp
    rw [applyEdits_singleton hresolve, Replacement.apply]
    dsimp only
    conv_lhs => rw [htake, List.take_left, ← htake, hdrop, List.drop_left]
    simp
  · simpa using hwith newText.toList hnew

end RazenLint
