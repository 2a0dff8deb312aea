import RazenLint.Proofs.Fix.Kept

/-!
# The heads that are fixed

`oldHeads` lists the heads in the old form of a text that a fix changes, each with its
place and its current form : those with a known library whose call is closed on its line.
They are exactly the heads of the sites of the text (`mem_oldHeads_iff`). Fixing one call
takes its head out of the list and leaves the other ones what they are
(`CallSite.exists_oldHeads`), so a text with all of them rewritten at once is the same
before and after the fix (`CallSite.rewrite_oldHeads`).
-/

namespace RazenLint

open Text

/-! ## The heads of a line -/

/-- Whether a fix changes a head in a column of a line of code. -/
def isOldHead (code : List Char) (p : Nat × CallHead) : Bool :=
  p.2.legacy && isLibraryName (String.ofList p.2.library) &&
    (closingParen code (p.1 + p.2.openingOffset)).isSome

/-- The current form in the place of a head, when its line begins at an offset. -/
def replacementOfHead (offset : Nat) (p : Nat × CallHead) : Replacement :=
  ⟨offset + p.1, offset + p.1 + (p.2.openingOffset + 1), p.2.modern.written []⟩

/-- The heads of a line that a fix changes. -/
def oldHeadsOfLine (offset : Nat) (line : List Char) : List Replacement :=
  ((callHeads (code line)).filter (isOldHead (code line))).map (replacementOfHead offset)

theorem inOrder_map_replacementOfHead (offset : Nat) {high : Nat} : ∀ {low : Nat}
    {ps : List (Nat × CallHead)}, low ≤ high →
      (∀ p ∈ ps, low ≤ p.1 ∧ p.1 + p.2.openingOffset < high) →
      ps.Pairwise (fun p q => p.1 + p.2.openingOffset < q.1) →
      Replacement.InOrder (offset + low) (offset + high) (ps.map (replacementOfHead offset))
  | _, [], hle, _, _ => Nat.add_le_add_left hle offset
  | low, p :: ps, _, hmem, hp => by
    rw [List.pairwise_cons] at hp
    have hfirst := hmem p List.mem_cons_self
    refine ⟨Nat.add_le_add_left hfirst.1 offset, Nat.le_add_right _ _, ?_⟩
    have hrest := inOrder_map_replacementOfHead offset
      (show p.1 + (p.2.openingOffset + 1) ≤ high from hfirst.2)
      (fun q hq => ⟨hp.1 q hq, (hmem q (List.mem_cons_of_mem _ hq)).2⟩) hp.2
    rwa [← Nat.add_assoc] at hrest

theorem inOrder_oldHeadsOfLine (offset : Nat) (line : List Char) :
    Replacement.InOrder offset (offset + line.length) (oldHeadsOfLine offset line) := by
  refine inOrder_map_replacementOfHead offset (Nat.zero_le _) (fun p hp => ⟨Nat.zero_le _, ?_⟩)
    ((pairwise_callHeads_apart (code line)).sublist List.filter_sublist)
  have hplace := (le_of_mem_callHeadsFrom (List.mem_of_mem_filter hp)).2
  have hlength := length_code_le line
  omega

namespace OldCall

variable (o : OldCall)

/-- A call in front of the head is closed on both lines, or on none. -/
theorem isSome_closingParen_before {p : Nat × CallHead} (h : p ∈ callHeads (mask o.front)) :
    (closingParen (code o.line) (p.1 + p.2.openingOffset)).isSome =
      (closingParen (code o.fixed) (p.1 + p.2.openingOffset)).isSome := by
  have hplace := (le_of_mem_callHeadsFrom h).2
  rw [length_mask, Nat.zero_add] at hplace
  rcases o.closingParen_before (show p.1 + p.2.openingOffset ≤ o.column from hplace.le) with
    ⟨n, -, hline, hfixed⟩ | ⟨hline, -⟩
  · rw [hline, hfixed]
  · rw [hline, Option.isSome_map]

/-- A call behind the head is closed on both lines, or on none. -/
theorem isSome_closingParen_behind {p : Nat × CallHead} (h : o.stop ≤ p.1) :
    (closingParen (code o.line) (p.1 + o.blanks.length + p.2.openingOffset)).isSome =
      (closingParen (code o.fixed) (p.1 + p.2.openingOffset)).isSome := by
  have hopening : p.1 + o.blanks.length + p.2.openingOffset =
      p.1 + p.2.openingOffset + o.blanks.length := Nat.add_right_comm _ _ _
  rw [hopening, o.closingParen_behind (by omega), Option.isSome_map]

/-- The call itself is closed on both lines. -/
theorem isSome_closingParen_head :
    (closingParen (code o.line) (o.column + o.head.openingOffset)).isSome = true ∧
      (closingParen (code o.fixed) (o.column + o.head.modern.openingOffset)).isSome = true := by
  rw [line, fixed, column, closingParen_written o.fits o.reading o.uncommented,
    closingParen_written o.fits.modern o.reading o.uncommented, Option.isSome_map, Option.isSome_map]
  exact ⟨o.closed, o.closed⟩

theorem isOldHead_before {p : Nat × CallHead} (h : p ∈ callHeads (mask o.front)) :
    isOldHead (code o.line) p = isOldHead (code o.fixed) p := by
  rw [isOldHead, isOldHead, o.isSome_closingParen_before h]

theorem isOldHead_behind {p : Nat × CallHead} (h : o.stop ≤ p.1) :
    isOldHead (code o.line) (p.1 + o.blanks.length, p.2) = isOldHead (code o.fixed) p := by
  rw [isOldHead, isOldHead, o.isSome_closingParen_behind h]

theorem isOldHead_head : isOldHead (code o.line) (o.column, o.head) = true := by
  rw [isOldHead, o.legacy, o.registered, o.isSome_closingParen_head.1]
  rfl

/-- The heads of the line : those of the fixed line, moved behind the call, and its own. -/
theorem exists_oldHeadsOfLine (offset : Nat) : ∃ front back,
    oldHeadsOfLine offset o.line = front ++ replacementOfHead offset (o.column, o.head) ::
      back.map (Replacement.shift o.blanks.length) ∧
    oldHeadsOfLine offset o.fixed = front ++ back := by
  have hbefore := List.filter_congr fun p hp => o.isOldHead_before (p := p) hp
  have hbehind : ((callHeadsFrom o.stop (some '(') (codeFrom .code o.back)).map
      fun p => (p.1 + o.blanks.length, p.2)).filter (isOldHead (code o.line)) =
      ((callHeadsFrom o.stop (some '(') (codeFrom .code o.back)).filter
        (isOldHead (code o.fixed))).map fun p => (p.1 + o.blanks.length, p.2) := by
    rw [List.filter_map]
    refine congrArg _ (List.filter_congr fun p hp => ?_)
    exact o.isOldHead_behind (le_of_mem_callHeadsFrom hp).1
  have hmodern : isOldHead (code o.fixed) (o.column, o.head.modern) = false := rfl
  refine ⟨((callHeads (mask o.front)).filter (isOldHead (code o.fixed))).map
    (replacementOfHead offset), ((callHeadsFrom o.stop (some '(') (codeFrom .code o.back)).filter
      (isOldHead (code o.fixed))).map (replacementOfHead offset), ?_, ?_⟩
  · rw [oldHeadsOfLine, callHeads_line, List.filter_append,
      List.filter_cons_of_pos o.isOldHead_head, hbefore, hbehind, List.map_append, List.map_cons,
      List.map_map, List.map_map]
    congr 3
    funext p
    simp only [Function.comp_apply, replacementOfHead, Replacement.shift, Replacement.mk.injEq,
      and_true]
    omega
  · rw [oldHeadsOfLine, callHeads_fixed, List.filter_append,
      List.filter_cons_of_neg (by simp [hmodern]), List.map_append]

end OldCall

/-! ## The heads of a text -/

/-- The heads that a fix changes in the pieces of a text from an offset on. -/
def oldHeadsFrom (offset : Nat) : List (List Char) → List Replacement
  | [] => []
  | piece :: rest => oldHeadsOfLine offset (lineOfSegment piece rest) ++
      oldHeadsFrom (offset + (piece.length + 1)) rest

/-- The heads of a text that a fix changes, with their current forms. -/
def oldHeads (text : List Char) : List Replacement :=
  oldHeadsFrom 0 (segments text)

theorem length_lineOfSegment_le (piece : List Char) (after : List (List Char)) :
    (lineOfSegment piece after).length ≤ piece.length := by
  unfold lineOfSegment
  split
  · exact Nat.le_refl _
  · exact length_dropReturn_le piece

theorem inOrder_oldHeadsFrom : ∀ (offset : Nat) {pieces : List (List Char)}, pieces ≠ [] →
    Replacement.InOrder offset (offset + (joinSegments pieces).length) (oldHeadsFrom offset pieces)
  | offset, [last], _ => by
    rw [oldHeadsFrom, oldHeadsFrom, List.append_nil]
    exact inOrder_oldHeadsOfLine offset last
  | offset, piece :: next :: rest, _ => by
    have hpiece := length_lineOfSegment_le piece (next :: rest)
    have hrest := inOrder_oldHeadsFrom (offset + (piece.length + 1)) (List.cons_ne_nil next rest)
    rw [oldHeadsFrom, joinSegments, List.length_append, List.length_cons]
    rw [show offset + (piece.length + ((joinSegments (next :: rest)).length + 1)) =
      offset + (piece.length + 1) + (joinSegments (next :: rest)).length by omega]
    refine Replacement.InOrder.append ?_ hrest
    exact (inOrder_oldHeadsOfLine offset _).mono (Nat.le_refl _) (by omega)

/-- The heads come from left to right and do not overlap. -/
theorem inOrder_oldHeads (text : List Char) :
    Replacement.InOrder 0 text.length (oldHeads text) := by
  have h := inOrder_oldHeadsFrom 0 (segments_ne_nil text)
  rwa [joinSegments_segments, Nat.zero_add] at h

/-- The pieces in front of one piece have the same heads, whatever it is. -/
theorem exists_oldHeadsFrom_append : ∀ (offset : Nat) (before : List (List Char)), ∃ front,
    ∀ (piece : List Char) (more : List (List Char)), oldHeadsFrom offset (before ++ piece :: more) =
      front ++ (oldHeadsOfLine (offset + (before.flatMap (· ++ ['\n'])).length)
        (lineOfSegment piece more) ++
          oldHeadsFrom (offset + (before.flatMap (· ++ ['\n'])).length + (piece.length + 1)) more)
  | offset, [] => ⟨[], fun piece more => by simp [oldHeadsFrom]⟩
  | offset, first :: before => by
    obtain ⟨front, hfront⟩ := exists_oldHeadsFrom_append (offset + (first.length + 1)) before
    refine ⟨oldHeadsOfLine offset (dropReturn first) ++ front, fun piece more => ?_⟩
    have hline : lineOfSegment first (before ++ piece :: more) = dropReturn first := by
      rw [lineOfSegment, if_neg (by simp)]
    rw [List.cons_append, oldHeadsFrom, hline, hfront, List.append_assoc, List.flatMap_cons,
      List.length_append, List.length_append, List.length_singleton, Nat.add_assoc offset]

theorem oldHeadsFrom_add (distance : Nat) : ∀ (offset : Nat) (pieces : List (List Char)),
    oldHeadsFrom (offset + distance) pieces =
      (oldHeadsFrom offset pieces).map (Replacement.shift distance)
  | _, [] => rfl
  | offset, piece :: rest => by
    have hline : ∀ line, oldHeadsOfLine (offset + distance) line =
        (oldHeadsOfLine offset line).map (Replacement.shift distance) := by
      intro line
      rw [oldHeadsOfLine, oldHeadsOfLine, List.map_map]
      refine congrArg (List.map · _) (funext fun p => ?_)
      simp only [Function.comp_apply, replacementOfHead, Replacement.shift, Replacement.mk.injEq,
        and_true]
      omega
    rw [oldHeadsFrom, oldHeadsFrom, List.map_append, hline, Nat.add_right_comm,
      oldHeadsFrom_add distance _ rest]

/-! ## One call -/

namespace CallSite

variable (site : CallSite)

/-- The head of a site and its current form. -/
def headReplacement : Replacement :=
  ⟨site.start, site.start + (site.head.written site.blanks).length, site.head.modern.written []⟩

/-- The blanks of a head are what it loses in length. -/
theorem length_written_eq : (site.head.written site.blanks).length =
    (site.head.modern.written []).length + site.blanks.length := by
  have hwritten : (site.head.written site.blanks).length =
      site.head.modern.openingOffset + 1 + site.blanks.length := (site.call []).length_written
  have hmodern : (site.head.modern.written []).length = site.head.modern.openingOffset + 1 :=
    (site.call []).length_written_modern
  rw [hwritten, hmodern]

/-- Fixing a call takes its head out of the heads of the text. -/
theorem exists_oldHeads (rest : List Char) : ∃ front back,
    oldHeads (site.old rest) =
        front ++ site.headReplacement :: back.map (Replacement.shift site.blanks.length) ∧
      oldHeads (site.new rest) = front ++ back := by
  obtain ⟨first, more, hrest⟩ := List.exists_cons_of_ne_nil (segments_ne_nil rest)
  obtain ⟨hold, hnew⟩ := site.segments_old hrest
  obtain ⟨above, habove⟩ := exists_oldHeadsFrom_append 0 site.before
  have hline : lineOfSegment (site.upTo ++ first) more =
      (site.call (lineOfSegment first more)).line := by
    rw [(site.line_call _).1, lineOfSegment_append site.getLast?_upTo.1 (by decide)]
  have hfixed : lineOfSegment (site.fixedUpTo ++ first) more =
      (site.call (lineOfSegment first more)).fixed := by
    rw [(site.line_call _).2, lineOfSegment_append site.getLast?_upTo.2 (by decide)]
  have hlength : (site.upTo ++ first).length + 1 =
      (site.fixedUpTo ++ first).length + 1 + site.blanks.length := by
    simp only [upTo, fixedUpTo, List.length_append, site.length_written_eq]
    omega
  obtain ⟨front, back, hheads, hheads'⟩ :=
    (site.call (lineOfSegment first more)).exists_oldHeadsOfLine (0 + site.lead.length)
  refine ⟨above ++ front, back ++ oldHeadsFrom
    (0 + site.lead.length + ((site.fixedUpTo ++ first).length + 1)) more, ?_, ?_⟩
  · rw [oldHeads, hold, habove, hline]
    change above ++ (oldHeadsOfLine (0 + site.lead.length) _ ++
      oldHeadsFrom (0 + site.lead.length + ((site.upTo ++ first).length + 1)) more) = _
    rw [hheads, hlength, ← Nat.add_assoc _ _ site.blanks.length, oldHeadsFrom_add, List.map_append]
    have hhead : replacementOfHead (0 + site.lead.length)
        (site.front.length, site.head) = site.headReplacement := by
      have hwritten := CallHead.length_written site.fits.length
      simp only [replacementOfHead, headReplacement, start, hwritten, Nat.zero_add]
    rw [← hhead]
    simp only [List.append_assoc, List.cons_append]
    rfl
  · rw [oldHeads, hnew, habove, hfixed]
    change above ++ (oldHeadsOfLine (0 + site.lead.length) _ ++ _) = _
    rw [hheads', List.append_assoc, List.append_assoc]
    rfl

/-- A text with all of its heads rewritten is the same after a call has been fixed. -/
theorem rewrite_oldHeads (rest : List Char) :
    Replacement.rewrite (site.old rest) (oldHeads (site.old rest)) =
        Replacement.rewrite (site.new rest) (oldHeads (site.new rest)) ∧
      (oldHeads (site.old rest)).length = (oldHeads (site.new rest)).length + 1 := by
  obtain ⟨front, back, hold, hnew⟩ := site.exists_oldHeads rest
  have horder := inOrder_oldHeads (site.old rest)
  have hold' : site.old rest = (site.lead ++ site.front) ++
      (site.head.written site.blanks ++ (site.arguments ++ ')' :: rest)) := by simp [old]
  have hnew' : site.new rest = (site.lead ++ site.front) ++
      (site.head.modern.written [] ++ (site.arguments ++ ')' :: rest)) := by simp [new]
  have hhead : site.headReplacement = ⟨(site.lead ++ site.front).length,
      (site.lead ++ site.front).length + (site.head.written site.blanks).length,
      site.head.modern.written []⟩ := by simp [headReplacement, start]
  rw [hold, hnew]
  refine ⟨?_, by simp only [List.length_append, List.length_cons, List.length_map]; omega⟩
  rw [hold, hold', hhead] at horder
  rw [hold', hnew', hhead]
  exact Replacement.rewrite_made site.length_written_eq horder

end CallSite

/-! ## Heads and sites -/

theorem exists_piece_of_mem_oldHeadsFrom {r : Replacement} : ∀ {offset : Nat}
    {pieces : List (List Char)}, r ∈ oldHeadsFrom offset pieces → ∃ before piece more,
      pieces = before ++ piece :: more ∧
        r ∈ oldHeadsOfLine (offset + (before.flatMap (· ++ ['\n'])).length)
          (lineOfSegment piece more)
  | offset, piece :: rest, h => by
    rw [oldHeadsFrom, List.mem_append] at h
    rcases h with h | h
    · exact ⟨[], piece, rest, rfl, h⟩
    · obtain ⟨before, piece', more, rfl, h⟩ := exists_piece_of_mem_oldHeadsFrom h
      refine ⟨piece :: before, piece', more, rfl, ?_⟩
      rwa [List.flatMap_cons, List.length_append, List.length_append, List.length_singleton,
        ← Nat.add_assoc]

/-- The heads that a fix changes are those of the sites of the text. -/
theorem mem_oldHeads_iff {text : List Char} {r : Replacement} : r ∈ oldHeads text ↔
    ∃ (site : CallSite) (rest : List Char), text = site.old rest ∧ r = site.headReplacement := by
  constructor
  · intro h
    obtain ⟨before, piece, more, hs, h⟩ := exists_piece_of_mem_oldHeadsFrom h
    rw [Nat.zero_add] at h
    obtain ⟨⟨column, head⟩, hp, rfl⟩ := List.mem_map.1 h
    obtain ⟨hhead, hold⟩ := List.mem_filter.1 hp
    simp only [isOldHead, Bool.and_eq_true] at hold
    obtain ⟨⟨hlegacy, hregistered⟩, hclosed⟩ := hold
    obtain ⟨o, hline, rfl, rfl⟩ :=
      OldCall.exists_of_mem_callHeads hhead hlegacy hregistered hclosed
    obtain ⟨site, tail, rest, htext, rfl, hsite, -⟩ := CallSite.exists_of_line hs hline
    refine ⟨site, rest, htext, ?_⟩
    have hlength := CallHead.length_written o.fits.length
    simp only [replacementOfHead, CallSite.headReplacement, CallSite.start, CallSite.lead, hsite,
      hlength]
  · rintro ⟨site, rest, rfl, rfl⟩
    obtain ⟨front, back, hold, -⟩ := site.exists_oldHeads rest
    rw [hold]
    simp

end RazenLint
