import Mathlib.Data.List.Nodup
import Mathlib.Order.Nat
import RazenLint.Text.Line

/-!
# A text and its segments

`joinSegments` puts the segments of a text together again, with a newline
between two of them. Cutting and joining undo each other
(`joinSegments_segments`, `segments_joinSegments`), so a text with one segment
changed has the other segments it had, and its lines are those of the segments
(`linesOfSegments_append_cons`).
-/

namespace RazenLint.Text

/-- The text with the given segments. -/
def joinSegments : List (List Char) → List Char
  | [] => []
  | [last] => last
  | piece :: next :: rest => piece ++ '\n' :: joinSegments (next :: rest)

theorem joinSegments_cons {rest : List (List Char)} (piece : List Char) (h : rest ≠ []) :
    joinSegments (piece :: rest) = piece ++ '\n' :: joinSegments rest := by
  cases rest with
  | nil => exact absurd rfl h
  | cons next rest => rfl

theorem joinSegments_consFirst (c : Char) {pieces : List (List Char)} (h : pieces ≠ []) :
    joinSegments (consFirst c pieces) = c :: joinSegments pieces := by
  cases pieces with
  | nil => exact absurd rfl h
  | cons first rest => cases rest <;> simp [consFirst, joinSegments]

@[simp] theorem joinSegments_segments : ∀ text : List Char, joinSegments (segments text) = text
  | [] => rfl
  | c :: cs => by
    rw [segments]
    split
    · rename_i h
      rw [joinSegments_cons [] (segments_ne_nil cs), joinSegments_segments cs, h]
      rfl
    · rw [joinSegments_consFirst c (segments_ne_nil cs), joinSegments_segments cs]

/-- A text without a newline is one segment. -/
theorem segments_of_notMem : ∀ {text : List Char}, '\n' ∉ text → segments text = [text]
  | [], _ => rfl
  | c :: cs, h => by
    rw [List.mem_cons, not_or] at h
    rw [segments, if_neg (Ne.symm h.1), segments_of_notMem h.2]
    rfl

/-- What stands before a newline is cut by itself. -/
theorem segments_newline_append : ∀ front back : List Char,
    segments (front ++ '\n' :: back) = segments front ++ segments back
  | [], back => by simp [segments]
  | c :: cs, back => by
    rw [List.cons_append, segments, segments, segments_newline_append cs back]
    split
    · rfl
    · cases hs : segments cs with
      | nil => exact absurd hs (segments_ne_nil cs)
      | cons first rest => rfl

theorem segments_append_newline (piece text : List Char) (h : '\n' ∉ piece) :
    segments (piece ++ '\n' :: text) = piece :: segments text := by
  rw [segments_newline_append, segments_of_notMem h]
  rfl

/-- Segments without newlines are found again. -/
theorem segments_joinSegments : ∀ {pieces : List (List Char)}, pieces ≠ [] →
    (∀ piece ∈ pieces, '\n' ∉ piece) → segments (joinSegments pieces) = pieces
  | [last], _, h => segments_of_notMem (h last List.mem_cons_self)
  | piece :: next :: rest, _, h => by
    rw [joinSegments, segments_append_newline piece _ (h piece List.mem_cons_self),
      segments_joinSegments (List.cons_ne_nil next rest)
        fun q hq => h q (List.mem_cons_of_mem _ hq)]

theorem newline_notMem_segments {piece : List Char} :
    ∀ {text : List Char}, piece ∈ segments text → '\n' ∉ piece
  | [], h => by
    rw [List.mem_singleton.1 h]
    exact List.not_mem_nil
  | c :: cs, h => by
    rw [segments] at h
    split at h
    · rcases List.mem_cons.1 h with rfl | h
      · exact List.not_mem_nil
      · exact newline_notMem_segments h
    · rename_i hc
      cases hs : segments cs with
      | nil => exact absurd hs (segments_ne_nil cs)
      | cons first rest =>
        rw [hs, consFirst] at h
        rcases List.mem_cons.1 h with rfl | h
        · have hfirst : '\n' ∉ first := newline_notMem_segments (hs ▸ List.mem_cons_self)
          simp [Ne.symm hc, hfirst]
        · exact newline_notMem_segments (hs ▸ List.mem_cons_of_mem _ h)

/-- A text around one of its segments. -/
theorem joinSegments_append_cons (after : List (List Char)) (piece : List Char) :
    ∀ before : List (List Char), joinSegments (before ++ piece :: after) =
      before.flatMap (· ++ ['\n']) ++ (piece ++ after.flatMap ('\n' :: ·))
  | [] => by
    induction after generalizing piece with
    | nil => simp [joinSegments]
    | cons next rest ih =>
      have hnext := ih next
      rw [List.nil_append, List.flatMap_nil, List.nil_append] at hnext
      simp [joinSegments, hnext]
  | first :: before => by
    rw [List.cons_append, joinSegments_cons first (by simp),
      joinSegments_append_cons after piece before]
    simp

/-! ## Lines -/

theorem dropReturn_append {front back : List Char} (h : back ≠ []) :
    dropReturn (front ++ back) = front ++ dropReturn back := by
  unfold dropReturn
  rw [List.getLast?_append_of_ne_nil front h, List.dropLast_append_of_ne_nil h]
  split <;> rfl

theorem length_dropReturn_le (line : List Char) : (dropReturn line).length ≤ line.length := by
  unfold dropReturn
  split <;> simp

theorem linesOfSegments_append {after : List (List Char)} (h : after ≠ []) :
    ∀ before : List (List Char),
      linesOfSegments (before ++ after) = before.map dropReturn ++ linesOfSegments after
  | [] => rfl
  | first :: before => by
    have ih := linesOfSegments_append h before
    cases hb : before ++ after with
    | nil => exact absurd (List.append_eq_nil_iff.1 hb).2 h
    | cons next rest =>
      rw [hb] at ih
      simp [hb, linesOfSegments, ih]

/-- A segment as a line. The last one has no newline after it and is read as it is. -/
def lineOfSegment (piece : List Char) (after : List (List Char)) : List Char :=
  if after = [] then piece else dropReturn piece

/-- The lines around the line of one segment. -/
theorem linesOfSegments_append_cons {piece : List Char} (hpiece : piece ≠ [])
    (before after : List (List Char)) :
    linesOfSegments (before ++ piece :: after) =
      before.map dropReturn ++ lineOfSegment piece after :: linesOfSegments after := by
  rw [linesOfSegments_append (List.cons_ne_nil piece after)]
  cases after with
  | nil => simp [linesOfSegments, lineOfSegment, hpiece]
  | cons next rest => simp [linesOfSegments, lineOfSegment]

/-- A segment is its line and at most a carriage return. -/
theorem exists_lineOfSegment_append (piece : List Char) (after : List (List Char)) :
    ∃ back, piece = lineOfSegment piece after ++ back := by
  unfold lineOfSegment dropReturn
  split
  · exact ⟨[], (List.append_nil piece).symm⟩
  · split
    · exact ⟨piece.drop (piece.length - 1), by rw [List.dropLast_eq_take, List.take_append_drop]⟩
    · exact ⟨[], (List.append_nil piece).symm⟩

/-- A piece that ends in no carriage return is kept. -/
theorem dropReturn_append_of_getLast? {front : List Char} {c : Char}
    (hlast : front.getLast? = some c) (hc : c ≠ '\r') (back : List Char) :
    dropReturn (front ++ back) = front ++ dropReturn back := by
  by_cases hback : back = []
  · subst hback
    have hne : some c ≠ some '\r' := by simpa using hc
    rw [List.append_nil, dropReturn, hlast, if_neg hne]
    exact (List.append_nil front).symm
  · exact dropReturn_append hback

theorem lineOfSegment_append {front : List Char} {c : Char} (hlast : front.getLast? = some c)
    (hc : c ≠ '\r') (back : List Char) (after : List (List Char)) :
    lineOfSegment (front ++ back) after = front ++ lineOfSegment back after := by
  unfold lineOfSegment
  split
  · rfl
  · exact dropReturn_append_of_getLast? hlast hc back

/-- The segments of a text that goes on behind a piece. -/
theorem segments_append {before : List (List Char)} {piece rest first : List Char}
    {more : List (List Char)} (hbefore : ∀ p ∈ before, '\n' ∉ p) (hpiece : '\n' ∉ piece)
    (hrest : segments rest = first :: more) :
    segments (before.flatMap (· ++ ['\n']) ++ (piece ++ rest)) =
      before ++ (piece ++ first) :: more := by
  have hjoin : rest = first ++ more.flatMap ('\n' :: ·) := by
    have h := joinSegments_append_cons more first []
    rw [List.nil_append, List.flatMap_nil, List.nil_append, ← hrest, joinSegments_segments] at h
    exact h
  have hmem : ∀ p ∈ first :: more, '\n' ∉ p :=
    fun p hp => newline_notMem_segments (show p ∈ segments rest from hrest ▸ hp)
  have htext : before.flatMap (· ++ ['\n']) ++ (piece ++ rest) =
      joinSegments (before ++ (piece ++ first) :: more) := by
    rw [joinSegments_append_cons, hjoin, List.append_assoc]
  rw [htext, segments_joinSegments (by simp)]
  intro p hp
  rcases List.mem_append.1 hp with hp | hp
  · exact hbefore p hp
  · rcases List.mem_cons.1 hp with rfl | hp
    · rw [List.mem_append, not_or]
      exact ⟨hpiece, hmem first List.mem_cons_self⟩
    · exact hmem p (List.mem_cons_of_mem _ hp)

/-- The lines of a text around a piece that the text goes on behind. -/
theorem exists_lines_append {c : Char} (hc : c ≠ '\r') (rest : List Char) : ∃ tail after,
    ∀ {before : List (List Char)} {piece : List Char}, (∀ p ∈ before, '\n' ∉ p) → '\n' ∉ piece →
      piece.getLast? = some c → lines (before.flatMap (· ++ ['\n']) ++ (piece ++ rest)) =
        before.map dropReturn ++ (piece ++ tail) :: after := by
  obtain ⟨first, more, hrest⟩ := List.exists_cons_of_ne_nil (segments_ne_nil rest)
  refine ⟨lineOfSegment first more, linesOfSegments more, fun hbefore hpiece hlast => ?_⟩
  rw [lines, segments_append hbefore hpiece hrest, linesOfSegments_append_cons,
    lineOfSegment_append hlast hc]
  intro hnil
  rw [(List.append_eq_nil_iff.1 hnil).1] at hlast
  exact absurd hlast (by simp)

/-- Every line is the line of a segment. -/
theorem exists_segment_of_line {line : List Char} : ∀ {pieces : List (List Char)} {index : Nat},
    (linesOfSegments pieces)[index]? = some line →
      ∃ before piece after, pieces = before ++ piece :: after ∧ before.length = index ∧
        line = lineOfSegment piece after ∧ (after = [] → piece ≠ [])
  | [], index, h => by simp [linesOfSegments] at h
  | [last], index, h => by
    rw [linesOfSegments] at h
    split at h
    · simp at h
    · rename_i hlast
      obtain ⟨rfl, rfl⟩ : index = 0 ∧ last = line := by
        cases index with
        | zero => simpa using h
        | succ index => simp at h
      exact ⟨[], last, [], rfl, rfl, rfl, fun _ h => hlast (by simp [h])⟩
  | piece :: next :: rest, 0, h => by
    refine ⟨[], piece, next :: rest, rfl, rfl, ?_, fun h => absurd h (List.cons_ne_nil _ _)⟩
    simpa [linesOfSegments, lineOfSegment] using h.symm
  | piece :: next :: rest, index + 1, h => by
    rw [linesOfSegments, List.getElem?_cons_succ] at h
    obtain ⟨before, piece', after, hp, hlen, hline, hne⟩ := exists_segment_of_line h
    exact ⟨piece :: before, piece', after, by rw [hp]; rfl, by simp [hlen], hline, hne⟩

/-- In front of a line stands a newline for each line before it. -/
theorem add_length_le_of_line {text line : List Char} {index : Nat}
    (h : (lines text)[index]? = some line) : index + line.length ≤ text.length := by
  obtain ⟨before, piece, after, hp, rfl, rfl, -⟩ := exists_segment_of_line h
  obtain ⟨back, hpiece⟩ := exists_lineOfSegment_append piece after
  have hfront : before.length ≤ (before.flatMap (· ++ ['\n'])).length := by
    clear h hp
    induction before with
    | nil => exact Nat.le_refl 0
    | cons first before ih =>
      rw [List.flatMap_cons, List.length_append, List.length_append, List.length_cons]
      simp only [List.length_singleton]
      omega
  have htext := congrArg List.length (joinSegments_segments text)
  have hline := congrArg List.length hpiece
  rw [hp, joinSegments_append_cons, List.length_append, List.length_append] at htext
  rw [List.length_append] at hline
  omega

theorem newline_notMem_lines {text line : List Char} (h : line ∈ lines text) : '\n' ∉ line := by
  obtain ⟨index, hindex⟩ := List.mem_iff_getElem?.1 h
  obtain ⟨before, piece, after, hp, -, rfl, -⟩ := exists_segment_of_line hindex
  have hpiece : '\n' ∉ piece :=
    newline_notMem_segments (show piece ∈ segments text by rw [hp]; simp)
  unfold lineOfSegment dropReturn
  split
  · exact hpiece
  · split
    · exact fun h => hpiece (List.dropLast_subset piece h)
    · exact hpiece

/-! ## Complete lines -/

/-- A text after which a line begins. -/
def EndsLine (text : List Char) : Prop :=
  text = [] ∨ text.getLast? = some '\n'

instance (text : List Char) : Decidable (EndsLine text) :=
  inferInstanceAs (Decidable (_ ∨ _))

theorem endsLine_concat (front : List Char) : EndsLine (front ++ ['\n']) :=
  Or.inr List.getLast?_concat

/-- The lines of two texts, of which the first ends its last line. -/
theorem lines_append {front : List Char} (h : EndsLine front) (back : List Char) :
    lines (front ++ back) = lines front ++ lines back := by
  rcases h with rfl | h
  · rfl
  · obtain ⟨front, rfl⟩ := List.getLast?_eq_some_iff.1 h
    have hlines : ∀ back, lines (front ++ '\n' :: back) =
        (segments front).map dropReturn ++ lines back := fun back => by
      rw [lines, segments_newline_append, linesOfSegments_append (segments_ne_nil back)]
      rfl
    have hfront : lines (front ++ ['\n']) = (segments front).map dropReturn := by
      rw [hlines]
      exact List.append_nil _
    rw [hfront, ← hlines, List.append_assoc]
    rfl

/-- A line without a newline of its own, with the newline after it. -/
theorem lines_concat_newline {line : List Char} (h : '\n' ∉ line) :
    lines (line ++ ['\n']) = [dropReturn line] := by
  rw [lines, segments_append_newline line [] h]
  rfl

/-- A text without a newline has at most one line. -/
theorem length_lines_le_one {line : List Char} (h : '\n' ∉ line) : (lines line).length ≤ 1 := by
  rw [lines, segments_of_notMem h, linesOfSegments]
  split <;> simp

end RazenLint.Text
