import RazenLint.Proofs.Fix.LegacyCall
import RazenLint.Proofs.Text.MaskBytes

/-!
# The range of a fix

A position is turned into an offset in two ways. The proposer counts in the lines of the
text (`offsetInLines?`), where the last line keeps a carriage return and an empty last
line does not count. An edit is resolved in the pieces between newlines
(`offsetInPieces?`), where no line has a place behind its carriage return. They differ at
the end of the text only, and a call ends in a parenthesis, so both ends of the range of a
call are the same for both (`Range.exists_covers`, `Range.Covers.inPieces`).

The range of an action therefore covers the call that the proposer has read, and its edit
replaces this call and nothing else (`propose?_replaces`).
-/

namespace RazenLint

open Text

/-! ## Reading a range -/

/-- A range of one line is read when the line reaches to its end. -/
theorem sliceRange?_eq_some_iff {text slice : List Char} {range : Range} :
    sliceRange? text range = some slice ↔ ∃ front back,
      (lines text)[range.start.line]? = some (front ++ (slice ++ back)) ∧
        range = .ofSpan ⟨range.start.line, front.length, front.length + slice.length⟩ := by
  obtain ⟨⟨i, m⟩, ⟨j, n⟩⟩ := range
  simp only [sliceRange?, Range.ofSpan, Range.mk.injEq, Position.mk.injEq, true_and]
  constructor
  · intro h
    split at h
    · simp at h
    · rename_i hrange
      obtain ⟨line, hline, h⟩ := Option.bind_eq_some_iff.1 h
      split at h
      · rename_i hn
        cases h
        rw [not_or, not_not, Nat.not_lt] at hrange
        have hback : (line.drop m).drop (n - m) = line.drop n := by
          rw [List.drop_drop, Nat.add_sub_cancel' hrange.2]
        have hm : (line.take m).length = m := List.length_take_of_le (hrange.2.trans hn)
        have hslice : ((line.drop m).take (n - m)).length = n - m :=
          List.length_take_of_le (by rw [List.length_drop]; omega)
        refine ⟨line.take m, line.drop n, ?_, hm.symm, hrange.1.symm, ?_⟩
        · rw [hline, ← hback, List.take_append_drop, List.take_append_drop]
        · rw [hm, hslice, Nat.add_sub_cancel' hrange.2]
      · simp at h
  · rintro ⟨front, back, hline, rfl, rfl, rfl⟩
    simp [hline]

/-- The text between two columns of a line. -/
theorem sliceRange?_of_line {text front middle back : List Char} {i : Nat}
    (h : (lines text)[i]? = some (front ++ (middle ++ back))) :
    sliceRange? text (.ofSpan ⟨i, front.length, front.length + middle.length⟩) = some middle :=
  sliceRange?_eq_some_iff.2 ⟨front, back, h, rfl⟩

/-- The text in a range of one line, which is cut at byte offsets. There is no result at
all when an offset is behind the line or inside a character, or when the second one is in
front of the first one. -/
def sliceRangeInBytes? (text : List Char) (range : Range) : Option (Option (List Char)) :=
  if range.start.line ≠ range.stop.line ∨ range.stop.character < range.start.character then
    some none
  else
    match (lines text)[range.start.line]? with
    | none => some none
    | some line =>
      match byteOffset? line range.start.character, byteOffset? line range.stop.character with
      | some start, some stop => (sliceBytes? line start stop).map some
      | _, _ => some none

/-- A range is never cut outside its line or inside a character. -/
theorem sliceRangeInBytes?_eq (text : List Char) (range : Range) :
    sliceRangeInBytes? text range = some (sliceRange? text range) := by
  unfold sliceRangeInBytes? sliceRange?
  split
  · rfl
  · rename_i hrange
    rw [not_or, Nat.not_lt] at hrange
    cases (lines text)[range.start.line]? with
    | none => rfl
    | some line =>
      simp only [byteOffset?_eq, Option.bind_eq_bind, Option.bind_some]
      by_cases hstop : range.stop.character ≤ line.length
      · simp [hstop, hrange.2.trans hstop, sliceBytes?_take hrange.2]
      · by_cases hstart : range.start.character ≤ line.length <;> simp [hstop, hstart]

/-! ## Two ways to an offset -/

/-- Number of bytes of a text in front of the line with the given index. -/
def Text.lineStart : List Char → Nat → Nat
  | _, 0 => 0
  | [], _ + 1 => 0
  | c :: cs, line + 1 => lineStart cs (if c = '\n' then line else line + 1) + c.utf8Size

/-- Byte offset of a position, found on the line that a reader has. -/
def offsetInLines? (text : List Char) (position : Position) : Option Nat := do
  let line ← (lines text)[position.line]?
  let offset ← byteOffset? line position.character
  return lineStart text position.line + offset

/-- Byte offset of a position, found in the piece between two newlines. -/
def offsetInPieces? (text : List Char) (position : Position) : Option Nat :=
  byteOffsetInSegments? (segments text) position.line position.character

theorem Text.lineStart_append_newline : ∀ {piece : List Char}, '\n' ∉ piece →
    ∀ (rest : List Char) (line : Nat), lineStart (piece ++ '\n' :: rest) (line + 1) =
      byteLength (piece ++ ['\n']) + lineStart rest line
  | [], _, rest, line => by
    rw [List.nil_append, lineStart, if_pos rfl, List.nil_append, byteLength, byteLength,
      Nat.add_comm, Nat.add_zero]
  | c :: piece, h, rest, line => by
    rw [List.mem_cons, not_or] at h
    rw [List.cons_append, lineStart, if_neg (Ne.symm h.1), lineStart_append_newline h.2,
      List.cons_append, byteLength]
    omega

/-- The line behind some pieces starts where they end. -/
theorem Text.lineStart_append : ∀ {before : List (List Char)}, (∀ piece ∈ before, '\n' ∉ piece) →
    ∀ rest : List Char, lineStart (before.flatMap (· ++ ['\n']) ++ rest) before.length =
      byteLength (before.flatMap (· ++ ['\n']))
  | [], _, rest => by simp [lineStart, byteLength]
  | piece :: before, h, rest => by
    rw [List.forall_mem_cons] at h
    rw [List.flatMap_cons, List.length_cons, List.append_assoc, List.append_assoc,
      List.singleton_append, lineStart_append_newline h.1, lineStart_append h.2,
      ← byteLength_append, List.append_assoc]

/-- A position on a line, not behind its carriage return, has one offset. -/
theorem offset_of_line (front back : List Char) {text ending : List Char}
    {before after : List (List Char)}
    (hs : segments text = before ++ (front ++ back ++ ending) :: after)
    (hline : (lines text)[before.length]? = some (front ++ back))
    (hlength : front.length ≤ (dropReturn (front ++ back ++ ending)).length) :
    offset? text ⟨before.length, front.length⟩ =
        some (before.flatMap (· ++ ['\n']) ++ front).length ∧
      offsetInLines? text ⟨before.length, front.length⟩ =
        some (byteLength (before.flatMap (· ++ ['\n']) ++ front)) := by
  have htext := joinSegments_append_cons after (front ++ back ++ ending) before
  rw [← hs, joinSegments_segments] at htext
  have hpieces : ∀ piece ∈ before, '\n' ∉ piece := fun piece hpiece =>
    newline_notMem_segments (show piece ∈ segments text from hs ▸ List.mem_append_left _ hpiece)
  constructor
  · rw [offset?, hs, offsetInSegments?_append hlength before, List.length_append]
  · have hcolumn : byteOffset? (front ++ back) front.length = some (byteLength front) := by
      rw [byteOffset?_eq, if_pos (by simp), List.take_left]
    have hstart : lineStart text before.length = byteLength (before.flatMap (· ++ ['\n'])) := by
      rw [htext]
      exact lineStart_append hpieces _
    simp only [offsetInLines?, hline, hcolumn, hstart, byteLength_append, Option.bind_eq_bind,
      Option.bind_some, Option.pure_def]

/-- At the end of a text the two ways differ : a last line has a place behind its carriage
return, and an empty last line has none. -/
example : offsetInLines? ['a', '\r'] ⟨0, 2⟩ = some 2 ∧ offsetInPieces? ['a', '\r'] ⟨0, 2⟩ = none ∧
    offsetInLines? ['\n'] ⟨1, 0⟩ = none ∧ offsetInPieces? ['\n'] ⟨1, 0⟩ = some 1 := by
  decide

/-- A range that covers a part of a text, with the given text in front of it and behind it.
The ends of the part are the ends of the range, in either way. -/
structure Range.Covers (range : Range) (text front slice back : List Char) : Prop where
  parts : text = front ++ (slice ++ back)
  start : offset? text range.start = some front.length
  stop : offset? text range.stop = some (front ++ slice).length
  startInLines : offsetInLines? text range.start = some (byteLength front)
  stopInLines : offsetInLines? text range.stop = some (byteLength (front ++ slice))

/-- What is read in a range and ends in no carriage return is covered by the range. -/
theorem Range.exists_covers {text slice : List Char} {range : Range} {c : Char}
    (h : sliceRange? text range = some slice) (hlast : slice.getLast? = some c) (hc : c ≠ '\r') :
    ∃ front back, range.Covers text front slice back := by
  obtain ⟨front, back, hline, hrange⟩ := sliceRange?_eq_some_iff.1 h
  obtain ⟨before, piece, after, hs, hindex, hpiece, -⟩ := exists_segment_of_line hline
  obtain ⟨ending, hending⟩ := exists_lineOfSegment_append piece after
  rw [← hpiece] at hending
  have hupTo : (front ++ slice).getLast? = some c := by
    rw [List.getLast?_append, hlast]
    rfl
  have hlength : (front ++ slice).length ≤ (dropReturn piece).length := by
    have hsplit : piece = front ++ slice ++ (back ++ ending) := by rw [hending]; simp
    rw [hsplit, dropReturn_append_of_getLast? hupTo hc]
    simp
  have htext := joinSegments_append_cons after piece before
  rw [← hs, joinSegments_segments] at htext
  rw [← hindex] at hline hrange
  rw [hrange]
  subst hending
  have hstart := offset_of_line front (slice ++ back) hs hline (le_trans (by simp) hlength)
  have hstop := offset_of_line (front ++ slice) back (by simpa using hs) (by simpa using hline)
    (by simpa using hlength)
  have hstopColumn : (front ++ slice).length = front.length + slice.length := List.length_append
  rw [hstopColumn, ← List.append_assoc] at hstop
  refine ⟨before.flatMap (· ++ ['\n']) ++ front, back ++ ending ++ after.flatMap ('\n' :: ·),
    ?_, hstart.1, hstop.1, hstart.2, hstop.2⟩
  rw [htext]
  simp

namespace Range.Covers

variable {range : Range} {text front slice back : List Char}

/-- The ends in the pieces between newlines. -/
theorem inPieces (h : range.Covers text front slice back) :
    offsetInPieces? text range.start = some (byteLength front) ∧
      offsetInPieces? text range.stop = some (byteLength (front ++ slice)) := by
  have hstart := h.start
  have hstop := h.stop
  unfold offset? at hstart hstop
  have hparts : text = (front ++ slice) ++ back := by rw [h.parts, List.append_assoc]
  constructor
  · rw [offsetInPieces?, byteOffsetInSegments?_eq, joinSegments_segments, hstart, Option.map_some]
    conv_lhs => rw [h.parts, List.take_left]
  · rw [offsetInPieces?, byteOffsetInSegments?_eq, joinSegments_segments, hstop, Option.map_some]
    conv_lhs => rw [hparts, List.take_left]

end Range.Covers

/-! ## One edit -/

/-- An edit that resolves is made when it is the only one. -/
theorem applyEdits_singleton {text : List Char} {edit : TextEdit} {r : Replacement}
    (h : edit.resolve? text = some r) : applyEdits text [edit] = (r.apply text, 1) := by
  have hstop := (TextEdit.of_resolve? h).2.2.2.1
  have hchosen : chosenReplacements text [edit] = [r] := by
    simp [chosenReplacements, h, Replacement.choose, hstop]
  rw [applyEdits, hchosen]
  rfl

/-- The edit of a range that covers a part replaces this part. -/
theorem Range.Covers.applyEdits_eq {range : Range} {text front slice back : List Char}
    (h : range.Covers text front slice back) (newText : String) :
    applyEdits text [⟨range, newText⟩] = (front ++ (newText.toList ++ back), 1) := by
  have hle : front.length ≤ (front ++ slice).length := by simp
  have hresolve : TextEdit.resolve? text ⟨range, newText⟩ =
      some ⟨front.length, (front ++ slice).length, newText.toList⟩ := by
    rw [TextEdit.resolve?, h.start, h.stop]
    exact if_pos hle
  have hparts : text = (front ++ slice) ++ back := by rw [h.parts, List.append_assoc]
  rw [applyEdits_singleton hresolve, Replacement.apply]
  dsimp only
  conv_lhs => rw [h.parts, List.take_left, ← List.append_assoc front slice, List.drop_left]
  rw [List.append_assoc]

/-! ## The action -/

/-- The action that settles a diagnostic with a text in place of its range. -/
def CodeAction.replace (document : String) (d : Diagnostic) (newText : String) : CodeAction where
  title := "Replace with '" ++ newText ++ "'"
  kind := quickfixKind
  document
  diagnostics := [d]
  edit := ⟨d.range, newText⟩

/-- An action replaces the call that the range of its diagnostic holds. -/
theorem propose?_eq_some_iff {document : String} {text : List Char} {d : Diagnostic}
    {a : CodeAction} : propose? document text d = some a ↔
      d.fixCode = some .deprecatedCallForm ∧ ∃ call blanks, LegacyCall.Fits call blanks ∧
        sliceRange? text d.range = some (call.written blanks) ∧
          a = .replace document d call.modern := by
  constructor
  · intro h
    obtain ⟨code, hcode, h⟩ := Option.bind_eq_some_iff.1 h
    cases code
    obtain ⟨slice, hslice, h⟩ := Option.bind_eq_some_iff.1 h
    obtain ⟨call, hcall, haction⟩ := Option.bind_eq_some_iff.1 h
    obtain ⟨blanks, hfits, hwritten⟩ := LegacyCall.ofText?_eq_some_iff.1 hcall
    exact ⟨hcode, call, blanks, hfits, hwritten ▸ hslice, (Option.some.inj haction).symm⟩
  · rintro ⟨hcode, call, blanks, hfits, hslice, rfl⟩
    simp only [propose?, hcode, hslice, LegacyCall.ofText?_of_fits hfits, Option.bind_eq_bind,
      Option.bind_some]
    rfl

/-- The action for a diagnostic, where the range is cut at byte offsets. There is no
result at all when the cut is. -/
def proposeInBytes? (document : String) (text : List Char) (d : Diagnostic) :
    Option (Option CodeAction) :=
  match d.fixCode with
  | none => some none
  | some .deprecatedCallForm => do
    let slice ← sliceRangeInBytes? text d.range
    return (slice.bind LegacyCall.ofText?).map fun call => .replace document d call.modern

theorem proposeInBytes?_eq (document : String) (text : List Char) (d : Diagnostic) :
    proposeInBytes? document text d = some (propose? document text d) := by
  unfold proposeInBytes? propose?
  cases d.fixCode with
  | none => rfl
  | some code =>
    cases code
    rw [sliceRangeInBytes?_eq]
    cases sliceRange? text d.range with
    | none => rfl
    | some slice =>
      change some ((LegacyCall.ofText? slice).map _) = some ((LegacyCall.ofText? slice).bind _)
      cases LegacyCall.ofText? slice <;> rfl

/-- For any diagnostic the range is cut in bounds, and an action replaces exactly the call
that has been read : its edit is the one edit made, the call in the current form stands in
its place, all bytes around it are kept, and both ends of the range have the byte offsets
of the call, in the lines of the text as well as in the pieces between newlines. -/
theorem propose?_replaces (document : String) (text : List Char) (d : Diagnostic) :
    proposeInBytes? document text d = some (propose? document text d) ∧
      ∀ a, propose? document text d = some a → ∃ call blanks front back,
        LegacyCall.Fits call blanks ∧
        sliceRange? text a.edit.range = some (call.written blanks) ∧
        a.edit.newText.toList = call.library.map Char.toLower ++
          ':' :: ':' :: (call.function ++ '(' :: (call.arguments ++ [')'])) ∧
        a.edit.range.Covers text front (call.written blanks) back ∧
        applyEdits text [a.edit] = (front ++ (a.edit.newText.toList ++ back), 1) ∧
        applyEditsInBytes? text [a.edit] = some (front ++ (a.edit.newText.toList ++ back), 1) ∧
        offsetInPieces? text a.edit.range.start = offsetInLines? text a.edit.range.start ∧
        offsetInPieces? text a.edit.range.stop = offsetInLines? text a.edit.range.stop := by
  refine ⟨proposeInBytes?_eq document text d, fun a ha => ?_⟩
  obtain ⟨-, call, blanks, hfits, hslice, rfl⟩ := propose?_eq_some_iff.1 ha
  obtain ⟨front, back, hcovers⟩ :=
    Range.exists_covers hslice (call.getLast?_written blanks) (by decide)
  have happly := hcovers.applyEdits_eq call.modern
  refine ⟨call, blanks, front, back, hfits, hslice, call.toList_modern, hcovers, happly, ?_,
    hcovers.inPieces.1.trans hcovers.startInLines.symm,
    hcovers.inPieces.2.trans hcovers.stopInLines.symm⟩
  rw [applyEditsInBytes?_eq]
  exact congrArg some happly

/-- A diagnostic about the form of a call, as a client can make it for any range. -/
def Diagnostic.ofRange (range : Range) : Diagnostic where
  range
  severity := .warning
  message := ""
  source := sourceName
  rule := .deprecatedCall
  fixCode := some .deprecatedCallForm

/-- A call of no known library between characters of two bytes, on a last line that ends
in a carriage return. -/
theorem propose?_replaces_last_line : ∃ a call blanks front back,
    propose? "" "é\né+x[y] (z)ü\r".toList (.ofRange ⟨⟨1, 2⟩, ⟨1, 10⟩⟩) = some a ∧
      LegacyCall.written call blanks = "x[y] (z)".toList ∧
      applyEdits "é\né+x[y] (z)ü\r".toList [a.edit] =
        (front ++ (a.edit.newText.toList ++ back), 1) := by
  have hread : sliceRange? "é\né+x[y] (z)ü\r".toList ⟨⟨1, 2⟩, ⟨1, 10⟩⟩ =
      some "x[y] (z)".toList := by decide
  have hpropose : propose? "" "é\né+x[y] (z)ü\r".toList (.ofRange ⟨⟨1, 2⟩, ⟨1, 10⟩⟩) =
      some (.replace "" (.ofRange ⟨⟨1, 2⟩, ⟨1, 10⟩⟩) "x::y(z)") := by decide
  obtain ⟨call, blanks, front, back, -, hslice, -, -, happly, -⟩ :=
    (propose?_replaces "" _ _).2 _ hpropose
  exact ⟨_, call, blanks, front, back, hpropose, Option.some.inj (hslice.symm.trans hread), happly⟩

end RazenLint
