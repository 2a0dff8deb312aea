import RazenLint.Proofs.Fix.Range
import RazenLint.Proofs.Fix.Text

/-!
# Where a text is fixed

`CallSite` is a call in the old form up to its closing parenthesis, with all of the text
in front of it. Whatever follows, the text has this call (`CallSite.old`), and its edit
puts the current form there (`CallSite.new`, `CallSite.apply_old`). What stands behind
the closing parenthesis does not matter to the call, so a site is still one after the
text behind it has changed.
-/

namespace RazenLint

open Text

/-! ## Sites -/

/-- A call in the old form in a text, from the beginning of the text to its closing
parenthesis. -/
structure CallSite extends OldHead where
  /-- The pieces of the text above the line. -/
  before : List (List Char)
  arguments : List Char
  pieces : ∀ piece ∈ before, '\n' ∉ piece
  oneLine : '\n' ∉ front ++ (head.written blanks ++ arguments)
  inner : Reading.code.after arguments = .code
  innerUncommented : commentSign ∉ mask arguments
  closes : closingDistance 1 (mask arguments ++ [')']) = some arguments.length

namespace CallSite

variable (site : CallSite)

/-- The text above the line. -/
def lead : List Char :=
  site.before.flatMap (· ++ ['\n'])

/-- A text with the call in the old form. -/
def old (rest : List Char) : List Char :=
  site.lead ++ (site.front ++
    (site.head.written site.blanks ++ (site.arguments ++ ')' :: rest)))

/-- The text with the call in the current form. -/
def new (rest : List Char) : List Char :=
  site.lead ++ (site.front ++ (site.head.modern.written [] ++ (site.arguments ++ ')' :: rest)))

/-- The offset of the call. -/
def start : Nat :=
  site.lead.length + site.front.length

/-- Number of characters of the call. -/
def length : Nat :=
  (site.head.written site.blanks).length + (site.arguments.length + 1)

/-- The call in the current form. -/
def newText : List Char :=
  site.head.modern.written [] ++ (site.arguments ++ [')'])

def replacement : Replacement :=
  ⟨site.start, site.start + site.length, site.newText⟩

/-- The place of the call. -/
def span : Span :=
  ⟨site.before.length, site.front.length, site.front.length + site.length⟩

def edit : TextEdit :=
  ⟨.ofSpan site.span, String.ofList site.newText⟩

theorem old_eq (rest : List Char) : site.old rest = (site.lead ++ site.front) ++
    ((site.head.written site.blanks ++ (site.arguments ++ [')'])) ++ rest) := by
  simp [old]

theorem new_eq (rest : List Char) :
    site.new rest = (site.lead ++ site.front) ++ (site.newText ++ rest) := by
  simp [new, newText]

/-- The edit of a site puts the current form in place of the old one. -/
theorem apply_old (rest : List Char) : site.replacement.apply (site.old rest) = site.new rest := by
  have hstart : site.start = (site.lead ++ site.front).length := by simp [start]
  have hlength : site.length =
      (site.head.written site.blanks ++ (site.arguments ++ [')'])).length := by simp [length]
  rw [Replacement.apply, replacement, old_eq, new_eq]
  dsimp only
  rw [hlength, hstart, List.take_left, List.drop_length_add_append, List.drop_left,
    List.append_assoc]

/-! ## The lines -/

theorem codeFrom_arguments (tail : List Char) :
    codeFrom .code (site.arguments ++ ')' :: tail) =
      mask site.arguments ++ ')' :: codeFrom .code tail := by
  rw [codeFrom_append site.innerUncommented, site.inner, codeFrom_cons,
    if_neg (show shown .code ')' ≠ commentSign by decide)]
  rfl

/-- The parenthesis of the call is closed behind its arguments. -/
theorem closingDistance_arguments (tail : List Char) :
    closingDistance 1 (codeFrom .code (site.arguments ++ ')' :: tail)) =
      some site.arguments.length := by
  have hlength : (mask site.arguments).length = site.arguments.length := length_mask _
  rw [codeFrom_arguments, ← hlength, closingDistance_eq_some_iff, hlength]
  exact site.closes

/-- The call on its line. -/
def call (tail : List Char) : OldCall :=
  { site.toOldHead with
    back := site.arguments ++ ')' :: tail
    closed := by rw [site.closingDistance_arguments]; rfl }

/-- The line up to the end of the call. -/
def upTo : List Char :=
  site.front ++ (site.head.written site.blanks ++ (site.arguments ++ [')']))

/-- The fixed line up to the end of the call. -/
def fixedUpTo : List Char :=
  site.front ++ (site.head.modern.written [] ++ (site.arguments ++ [')']))

theorem length_upTo : site.upTo.length = site.front.length + site.length := by
  simp [upTo, length]

theorem old_eq_upTo (rest : List Char) : site.old rest = site.lead ++ (site.upTo ++ rest) := by
  simp [old, upTo]

theorem new_eq_fixedUpTo (rest : List Char) :
    site.new rest = site.lead ++ (site.fixedUpTo ++ rest) := by
  simp [new, fixedUpTo]

theorem getLast?_upTo : site.upTo.getLast? = some ')' ∧ site.fixedUpTo.getLast? = some ')' := by
  simp [upTo, fixedUpTo]

theorem newline_notMem_upTo : '\n' ∉ site.upTo ∧ '\n' ∉ site.fixedUpTo := by
  have hmodern : '\n' ∉ site.head.modern.written [] :=
    site.fits.modern.notMem_written rfl (by decide) List.not_mem_nil
  have hnewline := site.oneLine
  simp only [List.mem_append, not_or] at hnewline
  simp [upTo, fixedUpTo, hnewline, hmodern]

/-- The pieces of the two texts. -/
theorem segments_old {rest first : List Char} {more : List (List Char)}
    (hrest : segments rest = first :: more) :
    segments (site.old rest) = site.before ++ (site.upTo ++ first) :: more ∧
      segments (site.new rest) = site.before ++ (site.fixedUpTo ++ first) :: more := by
  rw [old_eq_upTo, new_eq_fixedUpTo]
  exact ⟨segments_append site.pieces site.newline_notMem_upTo.1 hrest,
    segments_append site.pieces site.newline_notMem_upTo.2 hrest⟩

theorem line_call (tail : List Char) : (site.call tail).line = site.upTo ++ tail ∧
    (site.call tail).fixed = site.fixedUpTo ++ tail := by
  simp [call, OldCall.line, OldCall.fixed, upTo, fixedUpTo]

/-- The lines of the two texts are the same but for the line of the call. -/
theorem exists_lines (rest : List Char) : ∃ tail after,
    lines (site.old rest) = site.before.map dropReturn ++ (site.call tail).line :: after ∧
      lines (site.new rest) = site.before.map dropReturn ++ (site.call tail).fixed :: after := by
  obtain ⟨tail, after, hlines⟩ := exists_lines_append (c := ')') (by decide) rest
  refine ⟨tail, after, ?_, ?_⟩
  · rw [(site.line_call tail).1, old_eq_upTo]
    exact hlines site.pieces site.newline_notMem_upTo.1 site.getLast?_upTo.1
  · rw [(site.line_call tail).2, new_eq_fixedUpTo]
    exact hlines site.pieces site.newline_notMem_upTo.2 site.getLast?_upTo.2

/-- The span of the call among the events of its line. -/
theorem callSpan_call (tail : List Char) (bound : Bool) :
    ((site.call tail).call site.before.length bound).callSpan = site.span := by
  have hlength := CallHead.length_written site.fits.length
  have hclosing := closingParen_written site.fits site.reading site.uncommented
    (site.arguments ++ ')' :: tail)
  rw [site.closingDistance_arguments] at hclosing
  change (⟨site.before.length, site.front.length, (closingParen (code (site.front ++
    (site.head.written site.blanks ++ (site.arguments ++ ')' :: tail))))
    (site.front.length + site.head.openingOffset)).getD _ + 1⟩ : Span) = _
  rw [hclosing, span, length, hlength, Option.map_some, Option.getD_some]
  simp only [Span.mk.injEq, true_and]
  omega

/-! ## The edit -/

/-- The edit of a site is resolved to the place of the call. -/
theorem resolve?_edit (rest : List Char) :
    site.edit.resolve? (site.old rest) = some site.replacement := by
  obtain ⟨first, more, hrest⟩ := List.exists_cons_of_ne_nil (segments_ne_nil rest)
  have hoffset : ∀ column, column ≤ site.front.length + site.length →
      offset? (site.old rest) ⟨site.before.length, column⟩ = some (site.lead.length + column) := by
    intro column hcolumn
    rw [offset?, (site.segments_old hrest).1]
    refine offsetInSegments?_append ?_ site.before
    rw [dropReturn_append_of_getLast? site.getLast?_upTo.1 (by decide), List.length_append,
      length_upTo]
    exact hcolumn.trans (Nat.le_add_right _ _)
  have hstart : offset? (site.old rest) site.edit.range.start = some site.start :=
    hoffset _ (Nat.le_add_right _ _)
  have hstop : offset? (site.old rest) site.edit.range.stop = some (site.start + site.length) := by
    rw [start, Nat.add_assoc]
    exact hoffset _ (Nat.le_refl _)
  rw [TextEdit.resolve?, hstart, hstop]
  simp [replacement, edit]

theorem newText_eq : String.ofList site.newText =
    LegacyCall.modern ⟨site.head.library, site.head.function, site.arguments⟩ := by
  rw [← String.toList_inj, LegacyCall.toList_modern]
  simp [newText, CallHead.written, CallHead.opener, CallHead.closer, CallHead.modern]

/-- The text at the place of the call. -/
theorem sliceRange?_old (rest : List Char) : sliceRange? (site.old rest) (.ofSpan site.span) =
    some (site.head.written site.blanks ++ (site.arguments ++ [')'])) := by
  obtain ⟨tail, after, hlines, -⟩ := site.exists_lines rest
  have hline : (lines (site.old rest))[site.before.length]? = some (site.front ++
      ((site.head.written site.blanks ++ (site.arguments ++ [')'])) ++ tail)) := by
    rw [hlines, List.getElem?_append_right (by simp)]
    simp [call, OldCall.line]
  have hspan : (⟨site.before.length, site.front.length, site.front.length +
      (site.head.written site.blanks ++ (site.arguments ++ [')'])).length⟩ : Span) = site.span := by
    simp [span, length]
  rw [← hspan]
  exact sliceRange?_of_line hline

/-- A diagnostic about the form of the call leads to the edit of the site. -/
theorem propose?_old (document : String) (rest : List Char) {d : Diagnostic}
    (hcode : d.fixCode = some .deprecatedCallForm) (hrange : d.range = .ofSpan site.span) :
    (propose? document (site.old rest) d).map (·.edit) = some site.edit := by
  have hslice := site.sliceRange?_old rest
  rw [LegacyCall.written_of_legacy site.legacy, ← hrange] at hslice
  rw [propose?_eq_some_iff.2 ⟨hcode, _, site.blanks,
    LegacyCall.fits_of_head site.fits site.arguments, hslice, rfl⟩, Option.map_some, edit,
    newText_eq, ← hrange]
  rfl

end CallSite

/-! ## Sites on the lines of a text -/

/-- A closed call has arguments that are read as code from end to end. -/
theorem OldCall.exists_arguments (o : OldCall) : ∃ arguments tail,
    o.back = arguments ++ ')' :: tail ∧ Reading.code.after arguments = .code ∧
      commentSign ∉ mask arguments ∧
      closingDistance 1 (mask arguments ++ [')']) = some arguments.length := by
  obtain ⟨n, hclosed⟩ := Option.isSome_iff_exists.1 o.closed
  obtain ⟨arguments, tail, hback, -, harguments⟩ := exists_append_of_closingDistance hclosed
  exact ⟨arguments, tail, hback, harguments⟩

/-- A closed call in the old form on a line of a text is a site of the text. -/
theorem CallSite.exists_of_line {text piece : List Char} {before more : List (List Char)}
    (hs : segments text = before ++ piece :: more) {o : OldCall}
    (hline : lineOfSegment piece more = o.line) : ∃ (site : CallSite) (tail rest : List Char),
      text = site.old rest ∧ site.before = before ∧ site.toOldHead = o.toOldHead ∧
        o.line = (site.call tail).line := by
  obtain ⟨arguments, tail, hback, hinner, hsign, hcloses⟩ := o.exists_arguments
  obtain ⟨back, hpiece⟩ := exists_lineOfSegment_append piece more
  have hnewline : ∀ p ∈ before ++ piece :: more, '\n' ∉ p :=
    fun p hp => newline_notMem_segments (show p ∈ segments text from hs ▸ hp)
  have hpiece' : piece = o.front ++
      (o.head.written o.blanks ++ (arguments ++ ')' :: (tail ++ back))) := by
    rw [hpiece, hline, OldCall.line, hback]
    simp
  have hone : '\n' ∉ o.front ++ (o.head.written o.blanks ++ arguments) := by
    have := hnewline piece (by simp)
    rw [hpiece'] at this
    simp only [List.mem_append, not_or] at this ⊢
    exact ⟨this.1, this.2.1, this.2.2.1⟩
  have htext : text = before.flatMap (· ++ ['\n']) ++ (o.front ++ (o.head.written o.blanks ++
      (arguments ++ ')' :: (tail ++ back ++ more.flatMap ('\n' :: ·))))) := by
    rw [← joinSegments_segments text, hs, joinSegments_append_cons, hpiece']
    simp
  refine ⟨{ o.toOldHead with
    before, arguments
    pieces := fun p hp => hnewline p (List.mem_append_left _ hp)
    oneLine := hone
    inner := hinner
    innerUncommented := hsign
    closes := hcloses }, tail, tail ++ back ++ more.flatMap ('\n' :: ·), htext, rfl, rfl, ?_⟩
  rw [OldCall.line, hback]
  rfl

end RazenLint
