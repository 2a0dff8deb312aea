import RazenLint.Proofs.Event.Reading
import RazenLint.Proofs.Shape
import RazenLint.Proofs.Text.Case

/-!
# Lines in small letters

A line in small letters has the heads of the line itself, in the same columns
(`callHeads_lower`), and begins with the same two words (`wordPair?_lower`), all in small
letters. A value with a parenthesis in it has the shape that it has in small letters
(`Shape.classify_lower`) : of the shapes only the truth values are spelled with letters.
-/

namespace RazenLint

open Text

/-! ## Heads -/

/-- A head in small letters. -/
def CallHead.lower (head : CallHead) : CallHead :=
  { head with library := Text.lower head.library, function := Text.lower head.function }

theorem CallHead.of_lower_eq {head head' : CallHead} (h : head.lower = head'.lower) :
    Text.lower head.library = Text.lower head'.library ∧
      Text.lower head.function = Text.lower head'.function ∧ head.legacy = head'.legacy ∧
      head.blanks = head'.blanks := by
  simpa only [lower, mk.injEq] using h

@[simp] theorem CallHead.functionOffset_lower (head : CallHead) :
    head.lower.functionOffset = head.functionOffset :=
  congrArg (· + if head.legacy then 1 else 2) (length_lower head.library)

@[simp] theorem CallHead.openingOffset_lower (head : CallHead) :
    head.lower.openingOffset = head.openingOffset := by
  rw [openingOffset, functionOffset_lower, lower, length_lower, openingOffset]

namespace CallHead.Fits

variable {head : CallHead} {blanks : List Char}

theorem lower (hfits : head.Fits blanks) : head.lower.Fits blanks :=
  ⟨(isIdent_lower _).trans hfits.library, (isIdent_lower _).trans hfits.function, hfits.blank,
    hfits.length⟩

theorem isIdentStart_of_mem_closer (hfits : head.Fits blanks) {c : Char}
    (h : c ∈ head.closer blanks) : isIdentStart c = false :=
  isIdentStart_of_not_isIdentRest (hfits.isIdentRest_of_mem_closer h)

theorem lower_written (hfits : head.Fits blanks) :
    Text.lower (head.written blanks) = head.lower.written blanks := by
  have hopener : Text.lower head.opener = head.opener :=
    (lower_eq_iff fun _ => isIdentStart_of_mem_opener).2 rfl
  have hcloser : Text.lower (head.closer blanks) = head.closer blanks :=
    (lower_eq_iff fun _ => hfits.isIdentStart_of_mem_closer).2 rfl
  rw [written, lower_append, lower_append, lower_append, hopener, hcloser]
  rfl

/-- What reads as a head in small letters is one. -/
theorem exists_of_lower_eq (hfits : head.Fits blanks) {cs rest : List Char}
    (h : Text.lower cs = head.written blanks ++ rest) : ∃ (head' : CallHead) (rest' : List Char),
      cs = head'.written blanks ++ rest' ∧ head'.Fits blanks := by
  rw [written_append] at h
  obtain ⟨library, _, rfl, hlibrary, h⟩ := lower_eq_append_iff.1 h
  obtain ⟨opener, _, rfl, hopener, h⟩ := lower_eq_append_iff.1 h
  obtain ⟨function, _, rfl, hfunction, h⟩ := lower_eq_append_iff.1 h
  obtain ⟨closer, rest', rfl, hcloser, -⟩ := lower_eq_append_iff.1 h
  refine ⟨{ head with library, function }, rest', ?_, ?_⟩
  · rw [written_append, (lower_eq_iff fun _ => isIdentStart_of_mem_opener).1 hopener,
      (lower_eq_iff fun _ => hfits.isIdentStart_of_mem_closer).1 hcloser]
    rfl
  · refine ⟨?_, ?_, hfits.blank, hfits.length⟩
    · rw [← isIdent_lower, hlibrary]
      exact hfits.library
    · rw [← isIdent_lower, hfunction]
      exact hfits.function

end CallHead.Fits

theorem headAt?_lower (cs : List Char) : headAt? (lower cs) = (headAt? cs).map CallHead.lower := by
  cases h : headAt? cs with
  | some head =>
    obtain ⟨blanks, rest, rfl, hfits⟩ := headAt?_eq_some_iff.1 h
    refine headAt?_eq_some_iff.2 ⟨blanks, lower rest, ?_, hfits.lower⟩
    rw [lower_append, hfits.lower_written]
  | none =>
    rw [Option.map_none, Option.eq_none_iff_forall_ne_some]
    intro head hhead
    obtain ⟨blanks, rest, hcs, hfits⟩ := headAt?_eq_some_iff.1 hhead
    obtain ⟨head', rest', rfl, hfits'⟩ := hfits.exists_of_lower_eq hcs
    rw [headAt?_eq_some_iff.2 ⟨blanks, rest', rfl, hfits'⟩] at h
    exact absurd h (by simp)

theorem callHeads_lower (code : List Char) :
    callHeads (lower code) = (callHeads code).map fun (column, head) => (column, head.lower) := by
  rw [callHeads, callHeads, callHeadsFrom_eq_scanFrom, callHeadsFrom_eq_scanFrom]
  refine scanFrom_lower (fun column previous cs => ?_) 0 none code
  rw [headFrom, headFrom, boundaryAfter_map_toLower, headAt?_lower]
  split
  · cases headAt? cs <;> rfl
  · rfl

/-! ## Two words -/

/-- Two words in small letters. -/
def WordPair.lower (words : WordPair) : WordPair :=
  { words with
    first := Text.lower words.first, second := Text.lower words.second
    rest := Text.lower words.rest }

theorem WordPair.of_lower_eq {words words' : WordPair} (h : words.lower = words'.lower) :
    Text.lower words.first = Text.lower words'.first ∧ words.firstColumn = words'.firstColumn ∧
      Text.lower words.second = Text.lower words'.second ∧
      words.secondColumn = words'.secondColumn ∧ Text.lower words.rest = Text.lower words'.rest ∧
      words.restColumn = words'.restColumn := by
  simpa only [lower, mk.injEq] using h

theorem wordPair?_lower (code : List Char) :
    wordPair? (lower code) = (wordPair? code).map WordPair.lower := by
  unfold wordPair?
  rw [trimStart_lower, takeIdent?_lower]
  cases takeIdent? (trimStart code) with
  | none => rfl
  | some split =>
    simp only [Option.map_some, Option.bind_eq_bind, Option.bind_some, takeWhile_isBlank_lower,
      length_lower]
    split
    · rfl
    · rw [trimStart_lower, takeIdent?_lower]
      cases takeIdent? (trimStart split.2) with
      | none => rfl
      | some split =>
        simp only [Option.map_some, Option.bind_some, takeWhile_isBlank_lower, length_lower,
          trimStart_lower]
        rfl

/-! ## Shapes -/

theorem closesLiteral_lower {quote : Char} (h : isQuote quote = true) (cs : List Char) :
    closesLiteral quote (lower cs) = closesLiteral quote cs := by
  have hquote : ∀ {c : Char}, c.toLower = quote ↔ c = quote :=
    toLower_eq_iff (isIdentStart_of_isQuote h)
  have hslash : ∀ {c : Char}, c.toLower = '\\' ↔ c = '\\' := toLower_eq_iff rfl
  have hnewline : ∀ {c : Char}, c.toLower = '\n' ↔ c = '\n' := toLower_eq_iff rfl
  induction cs using closesLiteral.induct quote with
  | case1 => rfl
  | case2 cs =>
    rw [lower_cons, hquote.2 rfl, closesLiteral_closing, closesLiteral_closing,
      isEmpty_lower]
  | case3 hc => rfl
  | case4 escaped rest hc ih =>
    rw [lower_cons, hslash.2 rfl, lower_cons, closesLiteral_escape hc, closesLiteral_escape hc, ih]
    simp only [ne_eq, hnewline]
  | case5 c cs hc hescape ih =>
    rw [lower_cons, closesLiteral_cons (mt hquote.1 hc) (mt hslash.1 hescape),
      closesLiteral_cons hc hescape, ih]

theorem isLiteral_lower (cs : List Char) : isLiteral (lower cs) = isLiteral cs := by
  cases cs with
  | nil => rfl
  | cons c cs =>
    rw [lower_cons, isLiteral, isLiteral, isQuote_toLower]
    cases hc : isQuote c with
    | false => rfl
    | true =>
      rw [toLower_of_not_isIdentStart (isIdentStart_of_isQuote hc), closesLiteral_lower hc]

theorem hasPair_lower {first second : Char} (hfirst : isIdentStart first = false)
    (hsecond : isIdentStart second = false) (cs : List Char) :
    hasPair first second (lower cs) = hasPair first second cs := by
  induction cs with
  | nil => rfl
  | cons c cs ih =>
    simp only [lower_cons, hasPair, toLower_eq_iff hfirst, head?_lower_eq_iff hsecond, ih]

/-- Letters are no operators. -/
theorem sameOperators_lower (masked : List Char) : SameOperators (lower masked) masked := by
  have hneutral : ∀ {c : Char}, isIdentStart c = true → isNeutral c = true :=
    fun hc => isNeutral_of_isIdentRest (isIdentRest_of_isIdentStart hc)
  have hany : ∀ p : Char → Bool, (∀ c, isNeutral c = true → p c = false) →
      (lower masked).any p = masked.any p := fun p hp => by
    have hcomp : p ∘ Char.toLower = p := funext (apply_toLower fun c hc => hp c (hneutral hc))
    rw [lower, List.any_map, hcomp]
  constructor
  · exact hany _ fun c hc => (of_isNeutral hc).2.1
  · rw [hasLogic, hasLogic, hasPair_lower rfl rfl, hasPair_lower rfl rfl, hasPair_lower rfl rfl,
      hany _ fun c hc => (of_isNeutral hc).2.2]
  · exact hany isQuote fun c hc => (of_isNeutral hc).1
  · rw [List.contains_eq_any_beq, List.contains_eq_any_beq]
    exact hany _ fun c hc => beq_eq_false_iff_ne.2 (by
      rintro rfl
      exact absurd hc (by decide))

theorem expressionOf_lower (cs : List Char) :
    expressionOf (lower cs) = lower (expressionOf cs) := by
  rw [expressionOf, trim_lower, dropSemicolon_lower, trimEnd_lower, expressionOf]

/-- An expression holds all of a fragment but blanks and a semicolon. -/
theorem mem_expressionOf {cs : List Char} {c : Char} (h : c ∈ cs) (hblank : isBlank c = false)
    (hsemicolon : c ≠ ';') : c ∈ expressionOf cs := by
  have htrimEnd : ∀ {cs : List Char}, c ∈ cs → c ∈ trimEnd cs := fun {cs} hmem => by
    obtain ⟨blanks, hcs, hall⟩ := exists_trimEnd_append cs
    rw [hcs, List.mem_append] at hmem
    refine hmem.resolve_right fun hmem => ?_
    rw [hall c hmem] at hblank
    exact absurd hblank (by simp)
  refine htrimEnd ?_
  have htrim := mem_trim h hblank
  unfold dropSemicolon
  split
  · rename_i hlast
    obtain ⟨front, hfront⟩ := List.getLast?_eq_some_iff.1 hlast
    rw [hfront, List.mem_append, List.mem_singleton] at htrim
    rw [hfront, List.dropLast_concat]
    exact htrim.resolve_right hsemicolon
  · exact htrim

/-- A value with a parenthesis in it is no truth value, and nothing else is told by letters. -/
theorem Shape.classify_lower {cs : List Char} (h : '(' ∈ expressionOf cs) :
    Shape.classify (lower cs) = Shape.classify cs := by
  have hlower : '(' ∈ lower (expressionOf cs) := (mem_lower_iff rfl).2 h
  have hoperators := sameOperators_lower (mask (expressionOf cs))
  rw [classify, classify, expressionOf_lower, ofExpression_of_mem hlower rfl (by decide),
    ofExpression_of_mem h rfl (by decide), isLiteral_lower, mask_lower, encloses_lower rfl rfl,
    hoperators.arithmetic, hoperators.logic, ofOperators_congr hoperators]

end RazenLint
