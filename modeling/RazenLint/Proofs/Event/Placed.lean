import RazenLint.Proofs.Event.Reading
import RazenLint.Proofs.Shape
import RazenLint.Proofs.Text.Bracket

/-!
# A head on its line

A head in the code of a line stands in the line itself, character by character, and is
read as code there (`exists_placed_of_mem_callHeads`). The code of the line is then the
masked text in front of the head, the head, and the code behind it (`code_written`), and
the parenthesis of the head is closed where the code behind it closes one
(`closingParen_written`).
-/

namespace RazenLint

open Text

/-! ## The code around a head -/

/-- A character of no word and no sign of a call does not stand in a head. -/
theorem CallHead.Fits.notMem_written {head : CallHead} {blanks : List Char}
    (hfits : head.Fits blanks) {c : Char} (hrest : isIdentRest c = false)
    (hsign : c ∉ [':', '[', ']', '(']) (hblanks : c ∉ blanks) : c ∉ head.written blanks := by
  have hident : ∀ {ident : List Char}, isIdent ident = true → c ∉ ident := by
    intro ident hident hmem
    rw [isIdentRest_of_mem_isIdent hident hmem] at hrest
    exact absurd hrest (by simp)
  simp only [List.mem_cons, List.not_mem_nil, or_false, not_or] at hsign
  have hlibrary := hident hfits.library
  have hfunction := hident hfits.function
  unfold written opener closer
  cases head.legacy <;> simp [hlibrary, hfunction, hsign, hblanks]

theorem CallHead.Fits.commentSign_notMem {head : CallHead} {blanks : List Char}
    (hfits : head.Fits blanks) : commentSign ∉ head.written blanks := by
  refine hfits.notMem_written rfl (by decide) fun hmem => ?_
  exact absurd (hfits.blank _ hmem) (by decide)

/-- The code of a line with a head in it. -/
theorem code_written {front : List Char} {head : CallHead} {blanks : List Char}
    (hfits : head.Fits blanks) (hreading : Reading.code.after front = .code)
    (hsign : commentSign ∉ mask front) (back : List Char) :
    code (front ++ (head.written blanks ++ back)) =
      mask front ++ (head.written blanks ++ codeFrom .code back) := by
  have hwritten := hfits.maskFrom_written_append []
  rw [List.append_nil, maskFrom, List.append_nil] at hwritten
  rw [code_eq_codeFrom, codeFrom_append hsign, hreading, codeFrom_append, hwritten.1, hwritten.2]
  · rfl
  · rw [hwritten.1]
    exact hfits.commentSign_notMem

theorem CallHead.Fits.closingDistance_written {head : CallHead} {blanks : List Char}
    (hfits : head.Fits blanks) (depth : Nat) (rest : List Char) :
    closingDistance depth (head.written blanks ++ rest) =
      (closingDistance (depth + 1) rest).map (· + (head.written blanks).length) := by
  have hplain : ∀ c ∈ head.stem blanks, c ≠ '(' ∧ c ≠ ')' := by
    intro c hc
    constructor <;> rintro rfl <;> exact absurd (hfits.of_mem_stem hc) (by decide)
  rw [CallHead.written_eq, List.append_assoc, closingDistance_append_of_plain hplain,
    List.singleton_append, closingDistance_open, Option.map_map]
  congr 1
  ext n
  simp only [Function.comp_apply, List.length_append, List.length_singleton]
  omega

/-- The parenthesis of a head is closed where the code behind the head closes one. -/
theorem closingParen_written {front : List Char} {head : CallHead} {blanks : List Char}
    (hfits : head.Fits blanks) (hreading : Reading.code.after front = .code)
    (hsign : commentSign ∉ mask front) (back : List Char) :
    closingParen (code (front ++ (head.written blanks ++ back)))
        (front.length + head.openingOffset) =
      (closingDistance 1 (codeFrom .code back)).map
        (· + (front.length + (head.openingOffset + 1))) := by
  have hopening : front.length + head.openingOffset =
      (mask front ++ head.stem blanks).length := by
    rw [List.length_append, length_mask, CallHead.length_stem hfits.length]
  have hsplit : mask front ++ (head.stem blanks ++ ['('] ++ codeFrom .code back) =
      (mask front ++ head.stem blanks) ++ '(' :: codeFrom .code back := by simp
  rw [code_written hfits hreading hsign, CallHead.written_eq, hsplit, closingParen, hopening,
    List.drop_left, closingDistance_open, Option.map_map]
  congr 1
  ext n
  simp only [Function.comp_apply]
  omega

/-- What a line holds up to the parenthesis that closes the one in front of it. -/
theorem exists_append_of_closingDistance {back : List Char} {n : Nat}
    (h : closingDistance 1 (codeFrom .code back) = some n) : ∃ arguments tail,
    back = arguments ++ ')' :: tail ∧ arguments.length = n ∧ Reading.code.after arguments = .code ∧
      commentSign ∉ mask arguments ∧
      closingDistance 1 (mask arguments ++ [')']) = some arguments.length := by
  obtain ⟨inner, rest, hcode, rfl⟩ := of_closingDistance h
  obtain ⟨arguments, back', hback, hmask, hrest⟩ := exists_append_of_codeFrom_eq hcode
  obtain ⟨hreading, tail, rfl, -⟩ := eq_code_of_codeFrom_eq_cons
    (Reading.proper_after_code arguments) hrest (by decide) (by decide)
  have hlength : inner.length = arguments.length := by rw [← hmask, length_maskFrom]
  have hmask : mask arguments = inner := hmask
  refine ⟨arguments, tail, hback, hlength.symm, hreading, ?_, ?_⟩
  · intro hmem
    refine commentSign_notMem_codeFrom .code back ?_
    rw [hcode, ← hmask]
    exact List.mem_append_left _ hmem
  · rw [hmask, ← hlength]
    exact closingDistance_eq_some_iff.1 (hcode ▸ h)

/-! ## Heads in the line itself -/

/-- A head that is read as code behind the given text, after a word boundary and before any
comment. -/
structure CallHead.Placed (head : CallHead) (front blanks : List Char) : Prop where
  fits : head.Fits blanks
  reading : Reading.code.after front = .code
  uncommented : commentSign ∉ mask front
  boundary : boundaryAfter (mask front).getLast? = true

/-- A head in the code of a line stands in the line itself. -/
theorem exists_placed_of_mem_callHeads {line : List Char} {column : Nat} {head : CallHead}
    (h : (column, head) ∈ callHeads (code line)) :
    ∃ front blanks back, line = front ++ (head.written blanks ++ back) ∧
      front.length = column ∧ head.Placed front blanks := by
  obtain ⟨pre, blanks, post, hcode, hcolumn, hboundary, hfits⟩ := mem_callHeads_iff.1 h
  obtain ⟨c, cs, hwritten, hc⟩ := (startsHead_written hfits []).exists_cons
  rw [List.append_nil] at hwritten
  have hspace : c ≠ ' ' := by
    rintro rfl
    exact absurd hc (by decide)
  have hsign : commentSign ∉ pre := fun hmem =>
    commentSign_notMem_codeFrom .code line (by rw [← code_eq_codeFrom, hcode]; simp [hmem])
  rw [hwritten] at hcode
  obtain ⟨front, back, rfl, hmask, hreading, -⟩ := exists_line_of_code_eq hcode hspace
    fun d hd => hfits.isQuote_of_mem (hwritten ▸ hd)
  have hlength : front.length = column := by rw [← hcolumn, ← hmask, length_mask]
  rw [← hwritten]
  refine ⟨front, blanks, back, rfl, hlength, hfits, hreading, ?_, ?_⟩
  · rwa [hmask]
  · rwa [hmask]

end RazenLint
